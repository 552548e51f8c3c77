import Mathlib.Data.List.Perm.Basic
import Mathlib.Data.List.Range
import Mathlib.Logic.Function.Basic

/-! # Pools of cells

A pool hands out its cells in order, and a cell is filled once, may be filled anew, and is emptied. `held` is what
the first `n` cells hold, up to the order. -/

namespace Pool

variable {α : Type} {cells cells' : Nat → Option α} {n p : Nat} {a : α} {l : List Nat}

/-- What the first `n` cells hold. -/
def held (cells : Nat → Option α) (n : Nat) : List α := (List.range n).filterMap cells

@[simp] theorem held_zero : held cells 0 = [] := rfl

theorem held_congr (h : ∀ q < n, cells q = cells' q) : held cells n = held cells' n :=
  List.filterMap_congr fun q hq => h q (List.mem_range.mp hq)

/-- The next cell is filled. -/
theorem held_fill (a : α) : held (Function.update cells n (some a)) (n + 1) = held cells n ++ [a] := by
  have hother : held (Function.update cells n (some a)) n = held cells n :=
    held_congr fun q hq => Function.update_of_ne (Nat.ne_of_lt hq) ..
  rw [held, List.range_succ, List.filterMap_append, ← held, hother,
    List.filterMap_cons_some (Function.update_self ..), List.filterMap_nil]

theorem filterMap_empty (hp : p ∉ l) : l.filterMap (Function.update cells p none) = l.filterMap cells :=
  List.filterMap_congr fun _ hq => Function.update_of_ne (ne_of_mem_of_not_mem hq hp) ..

/-- A cell is emptied. -/
theorem held_empty (hp : p < n) (h : cells p = some a) :
    (held cells n).Perm (a :: held (Function.update cells p none) n) := by
  have hlist (l : List Nat) (hl : l.Nodup) (hpl : p ∈ l) :
      (l.filterMap cells).Perm (a :: l.filterMap (Function.update cells p none)) := by
    induction l with
    | nil => cases hpl
    | cons q l ih =>
      obtain ⟨hq, hl⟩ := List.nodup_cons.mp hl
      by_cases hqp : q = p
      · subst q
        rw [List.filterMap_cons_some h, List.filterMap_cons_none (Function.update_self ..), filterMap_empty hq]
      · have ih := ih hl ((List.mem_cons.mp hpl).resolve_left (Ne.symm hqp))
        have hcell : Function.update cells p none q = cells q := Function.update_of_ne hqp ..
        cases hc : cells q with
        | none => rwa [List.filterMap_cons_none hc, List.filterMap_cons_none (hcell.trans hc)]
        | some b =>
          rw [List.filterMap_cons_some hc, List.filterMap_cons_some (hcell.trans hc)]
          exact (ih.cons b).trans (.swap a b _)
  exact hlist _ List.nodup_range (List.mem_range.mpr hp)

end Pool
