import Mathlib.Data.List.Basic

/-! # Computations whose steps are checked

A computation in `Except` ends with a result exactly if each of its steps does. The rules are those for
one step after another and for a loop over a list whose rounds are checked. -/

namespace Except

variable {ε α β : Type}

theorem bind_eq_ok {x : Except ε α} {f : α → Except ε β} {b : β} (h : (x >>= f) = .ok b) :
    ∃ a, x = .ok a ∧ f a = .ok b := by
  cases x with
  | error e => cases h
  | ok a => exact ⟨a, rfl, h⟩

theorem map_eq_ok {x : Except ε α} {f : α → β} {b : β} (h : x.map f = .ok b) : ∃ a, x = .ok a ∧ f a = b := by
  cases x with
  | error e => cases h
  | ok a => exact ⟨a, rfl, Except.ok.inj h⟩

theorem ok_bind (a : α) (f : α → Except ε β) : (Except.ok a >>= f) = f a := rfl

variable {f : β → α → Except ε β} {f' : β → α → β} {l : List α} {b r : β}

/-- A loop whose rounds all pass their checks is the loop without them. -/
theorem foldlM_ok (h : ∀ b, ∀ a ∈ l, f b a = .ok (f' b a)) : l.foldlM f b = .ok (l.foldl f' b) := by
  induction l generalizing b with
  | nil => rfl
  | cons a l ih =>
    rw [List.foldlM_cons, h b a List.mem_cons_self, ok_bind, List.foldl_cons]
    exact ih fun b a ha => h b a (List.mem_cons_of_mem _ ha)

/-- In a loop that ends with a result, each round has passed its checks. -/
theorem foldlM_forall {P : α → Prop} (hP : ∀ b a b', f b a = .ok b' → P a) (h : l.foldlM f b = .ok r) :
    ∀ a ∈ l, P a := by
  induction l generalizing b with
  | nil => simp
  | cons a l ih =>
    rw [List.foldlM_cons] at h
    obtain ⟨b', hround, hrest⟩ := bind_eq_ok h
    rw [List.forall_mem_cons]
    exact ⟨hP b a b' hround, ih hrest⟩

end Except
