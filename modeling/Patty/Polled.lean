import Mathlib.Data.List.Range
import Patty.Lib.Run
import Patty.Server.Run

/-! # The descriptors that are polled (`server.c`)

`fd_max` is what `select` is called with, one above the descriptors it looks at. When the descriptor below
`fd_max` is cleared, `fd_clear` looks for the highest that is left, but only among as many as a pointer has
bits: one from 64 on is missed if one below 64 is found (`polled_iff`). -/

namespace Patty

namespace World

/-- `FD_SETSIZE` -/
abbrev FD_SETSIZE : Nat := 1024

/-- A call of `fd_watch` or of `fd_clear`. -/
inductive FdCall
  | watch (fd : Nat)
  | clear (fd : Nat)

/-- What the call makes of the server. -/
def FdStep (w : World) : FdCall → World → Prop
  | .watch fd, w' => fd < FD_SETSIZE ∧ M.fdWatch fd w = .ok ((), w')
  | .clear fd, w' => fd < FD_SETSIZE ∧ M.fdClear fd w = .ok ((), w')

/-- `select` looks at each descriptor that is watched. -/
def Polled (w : World) : Prop := ∀ fd, w.fdsWatch fd → fd < w.fdMax

/-- If the descriptor below `fd_max` is cleared, not both one below 64 and one from 64 on are left. -/
def Scanned (w : World) : FdCall → Prop
  | .watch _ => True
  | .clear fd => w.fdMax = fd + 1 → ∀ i j, i < 64 → 64 ≤ j → i ≠ fd → j ≠ fd → w.fdsWatch i → ¬w.fdsWatch j

variable {w w' : World} {fd n d i : Nat} {watch : Nat → Bool}

/-- What the scan finds is above what it looks at. -/
theorem le_scan (hi : i < n) (hwatch : watch i) :
    i ≤ (List.range n).foldl (fun max i => if watch i then i else max) d := by
  induction n with
  | zero => omega
  | succ n ih =>
    rw [List.range_succ, List.foldl_append, List.foldl_cons, List.foldl_nil]
    rcases Nat.lt_succ_iff_lt_or_eq.mp hi with hlt | rfl
    · split
      · exact hlt.le
      · exact ih hlt
    · rw [if_pos hwatch]

/-- What it finds it has looked at, if there is one. -/
theorem scan_lt (hi : i < n) (hwatch : watch i) :
    (List.range n).foldl (fun max i => if watch i then i else max) d < n := by
  induction n with
  | zero => omega
  | succ n ih =>
    rw [List.range_succ, List.foldl_append, List.foldl_cons, List.foldl_nil]
    split
    · exact Nat.lt_succ_self n
    · rename_i hn
      rcases Nat.lt_succ_iff_lt_or_eq.mp hi with hlt | rfl
      · exact (ih hlt).trans (Nat.lt_succ_self n)
      · exact absurd hwatch hn

theorem scan_none (h : ∀ i < n, ¬watch i) :
    (List.range n).foldl (fun max i => if watch i then i else max) d = d := by
  induction n with
  | zero => rfl
  | succ n ih =>
    rw [List.range_succ, List.foldl_append, List.foldl_cons, List.foldl_nil, if_neg (h n (Nat.lt_succ_self n))]
    exact ih fun i hi => h i (hi.trans (Nat.lt_succ_self n))

theorem polled_watch (h : w.Polled) (hst : FdStep w (.watch fd) w') : w'.Polled := by
  obtain ⟨-, hst⟩ := hst
  cases hst
  intro i hi
  dsimp only at hi ⊢
  rw [Function.update_apply] at hi
  split at hi
  · subst i
    split
    · exact Nat.lt_succ_self fd
    · omega
  · have hlt := h i hi
    split
    · omega
    · exact hlt

/-- Clearing a descriptor. -/
theorem polled_clear (h : w.Polled) (hst : FdStep w (.clear fd) w') : w'.Polled ↔ w.Scanned (.clear fd) := by
  obtain ⟨-, hst⟩ := hst
  cases hst
  have hwatch {i : Nat} : Function.update w.fdsWatch fd false i = true ↔ i ≠ fd ∧ w.fdsWatch i = true := by
    rw [Function.update_apply]
    split
    · simp [*]
    · simp [*]
  by_cases hmax : w.fdMax = fd + 1
  · constructor
    · intro hpolled _ i j hi hj hifd hjfd hwi hwj
      have hlow := hpolled j (hwatch.mpr ⟨hjfd, hwj⟩)
      dsimp only at hlow
      rw [if_pos hmax] at hlow
      have hfound := scan_lt (d := w.fdMax) hi (hwatch.mpr ⟨hifd, hwi⟩)
      omega
    · intro hscanned j hj
      dsimp only at hj ⊢
      rw [if_pos hmax]
      have hj' := hwatch.mp hj
      have hbelow := h j hj'.2
      by_cases hany : ∃ i < 64, Function.update w.fdsWatch fd false i = true
      · obtain ⟨i, hi, hwi⟩ := hany
        by_cases hlt : j < 64
        · exact Nat.lt_succ_of_le (le_scan hlt hj)
        · have hi' := hwatch.mp hwi
          exact absurd hj'.2 (hscanned hmax i j hi (Nat.not_lt.mp hlt) hi'.1 hj'.1 hi'.2)
      · have hnone : ∀ i < 64, ¬Function.update w.fdsWatch fd false i = true := fun i hi hwi => hany ⟨i, hi, hwi⟩
        rw [scan_none hnone]
        omega
  · refine ⟨fun _ hmax' => absurd hmax' hmax, fun _ i hi => ?_⟩
    dsimp only at hi ⊢
    rw [if_neg hmax]
    exact h i (hwatch.mp hi).2

/-- In every run of calls on a server whose sets are empty, `fd_max` is above every descriptor that is watched
exactly when no call clears the descriptor below `fd_max` while one below 64 and one from 64 on are left. -/
theorem polled_iff {l : List (FdCall × World)} (hnew : (∀ fd, ¬w.fdsWatch fd) ∧ w.fdMax = 0) (h : Trace FdStep w l) :
    (∀ t ∈ l, t.2.Polled) ↔ Meets Scanned w l := by
  refine h.invariant_iff ?_ fun fd hfd => absurd hfd (hnew.1 fd)
  intro w call w' hpolled hst
  cases call with
  | watch fd => exact ⟨fun _ => trivial, fun _ => polled_watch hpolled hst⟩
  | clear fd => exact polled_clear hpolled hst

theorem step_watch (w : World) (h : fd < FD_SETSIZE) : ∃ w', FdStep w (.watch fd) w' ∧
    w'.fdsWatch = Function.update w.fdsWatch fd true ∧ w'.fdMax = if w.fdMax ≤ fd then fd + 1 else w.fdMax :=
  ⟨_, ⟨h, rfl⟩, rfl, rfl⟩

theorem step_clear (w : World) (h : fd < FD_SETSIZE) : ∃ w', FdStep w (.clear fd) w' ∧
    w'.fdsWatch = Function.update w.fdsWatch fd false ∧ w'.fdMax = if w.fdMax = fd + 1 then
      (List.range 64).foldl (fun max i => if Function.update w.fdsWatch fd false i then i else max) w.fdMax + 1
    else w.fdMax := ⟨_, ⟨h, rfl⟩, rfl, rfl⟩

/-- The one from 64 on is cleared. -/
theorem polled_two : ∃ l, Trace FdStep .bare l ∧ l.map (·.1) = [.watch 3, .watch 70, .clear 70] ∧
    ∀ t ∈ l, t.2.Polled := by
  obtain ⟨w₁, h₁, hwatch₁, -⟩ := step_watch .bare (show 3 < FD_SETSIZE by decide)
  obtain ⟨w₂, h₂, hwatch₂, -⟩ := step_watch w₁ (show 70 < FD_SETSIZE by decide)
  obtain ⟨w₃, h₃, -⟩ := step_clear w₂ (show 70 < FD_SETSIZE by decide)
  have htrace : Trace FdStep .bare [(.watch 3, w₁), (.watch 70, w₂), (.clear 70, w₃)] :=
    .cons h₁ (.cons h₂ (.cons h₃ .nil))
  refine ⟨_, htrace, rfl, (polled_iff ⟨fun _ => Bool.false_ne_true, rfl⟩ htrace).mpr ⟨trivial, trivial, ?_, trivial⟩⟩
  intro _ i j _ hj _ hne _ hwatch
  rw [hwatch₂, Function.update_of_ne hne, hwatch₁, Function.update_of_ne (by omega)] at hwatch
  cases hwatch

/-- Of three descriptors the highest is cleared, with one below 64 left. -/
theorem not_polled_three : ¬∀ (w : World) (l : List (FdCall × World)), (∀ fd, ¬w.fdsWatch fd) ∧ w.fdMax = 0 →
    Trace FdStep w l → ∀ t ∈ l, t.2.Polled := by
  intro h
  obtain ⟨w₁, h₁, hwatch₁, hmax₁⟩ := step_watch .bare (show 3 < FD_SETSIZE by decide)
  obtain ⟨w₂, h₂, hwatch₂, hmax₂⟩ := step_watch w₁ (show 70 < FD_SETSIZE by decide)
  obtain ⟨w₃, h₃, hwatch₃, hmax₃⟩ := step_watch w₂ (show 71 < FD_SETSIZE by decide)
  obtain ⟨w₄, h₄, hwatch₄, hmax₄⟩ := step_clear w₃ (show 71 < FD_SETSIZE by decide)
  have hpolled := h .bare [(.watch 3, w₁), (.watch 70, w₂), (.watch 71, w₃), (.clear 71, w₄)]
    ⟨fun _ => Bool.false_ne_true, rfl⟩ (.cons h₁ (.cons h₂ (.cons h₃ (.cons h₄ .nil)))) (.clear 71, w₄) (by simp)
  have hlt : 70 < w₄.fdMax := by
    refine hpolled 70 ?_
    dsimp only
    rw [hwatch₄, hwatch₃, hwatch₂, hwatch₁]
    decide
  rw [hmax₄, hwatch₃, hmax₃, hwatch₂, hmax₂, hwatch₁, hmax₁] at hlt
  exact absurd hlt (by decide)

end World

end Patty
