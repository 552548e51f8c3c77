import Mathlib.Data.Nat.ModEq
import Mathlib.Logic.Function.Basic

/-! # A window of consecutive numbers in a ring

Numbered values from `a` up to `n`, at most `M` of them, are kept in `M` cells: the one with number
`i` in the cell `i % M`. Pushing takes the number `n`, and releasing empties the cells from `a` on. -/

namespace Ring

variable {α : Type} {M a n i j : Nat}

/-- Numbers less than `M` apart with the same remainder are equal. -/
theorem eq_of_mod_eq (h : i % M = j % M) (hij : i ≤ j) (hlt : j < i + M) : i = j := by
  have hdvd : M ∣ j - i := (Nat.modEq_iff_dvd' hij).mp h
  have hzero := Nat.eq_zero_of_dvd_of_lt hdvd (by omega)
  omega

/-- Numbers in a window of `M` with the same remainder are equal. -/
theorem eq_of_window (h : i % M = j % M) (hi : a ≤ i) (hi' : i < a + M) (hj : a ≤ j)
    (hj' : j < a + M) : i = j := by
  obtain hij | hij := Nat.le_total i j
  · exact eq_of_mod_eq h hij (by omega)
  · exact (eq_of_mod_eq h.symm hij (by omega)).symm

/-- How far the remainder `j` of a number is ahead of the remainder `i` of another, cyclically. -/
def dist (M i j : Nat) : Nat := (j + (M - i)) % M

theorem dist_mod (hM : 0 < M) (h : i ≤ j) (hlt : j < i + M) :
    dist M (i % M) (j % M) = j - i := by
  obtain ⟨d, rfl⟩ := Nat.exists_eq_add_of_le h
  have hi := Nat.mod_lt i hM
  have hsum : (i + d) % M + (M - i % M) ≡ d [MOD M] := by
    have h1 : (i + d) % M ≡ i % M + d [MOD M] :=
      (Nat.mod_modEq _ _).trans ((Nat.mod_modEq i M).symm.add_right d)
    have h2 := h1.add_right (M - i % M)
    rw [show i % M + d + (M - i % M) = d + M by omega] at h2
    exact h2.trans (by simp [Nat.ModEq])
  rw [dist, hsum, Nat.mod_eq_of_lt (by omega)]
  omega

theorem add_dist (hi : i < M) (hj : j < M) : (i + dist M i j) % M = j := by
  rw [dist, Nat.add_mod_mod, show i + (j + (M - i)) = j + M by omega, Nat.add_mod_right,
    Nat.mod_eq_of_lt hj]

theorem dist_add (hi : i < M) {k : Nat} (hk : k < M) : dist M i ((i + k) % M) = k := by
  have hM : 0 < M := by omega
  have h := dist_mod hM (Nat.le_add_right i k) (by omega)
  rwa [Nat.mod_eq_of_lt hi, Nat.add_sub_cancel_left] at h

/-- The cells hold the values numbered from `a` up to `n`, and nothing else. -/
structure Holds (M : Nat) (cell : Nat → Option α) (val : Nat → α) (a n : Nat) : Prop where
  le : a ≤ n
  fits : n ≤ a + M
  live : ∀ i, a ≤ i → i < n → cell (i % M) = some (val i)
  only : ∀ j, j < M → cell j ≠ none → ∃ i, a ≤ i ∧ i < n ∧ i % M = j

namespace Holds

variable {cell cell' : Nat → Option α} {val : Nat → α}

theorem empty (h : ∀ j, j < M → cell j = none) (a : Nat) : Holds M cell val a a where
  le := le_rfl
  fits := Nat.le_add_right a M
  live i h1 h2 := absurd h1 (by omega)
  only j hj hc := absurd (h j hj) hc

/-- While there is room, the next cell is empty. -/
theorem next_empty (H : Holds M cell val a n) (hn : n < a + M) : cell (n % M) = none := by
  have hM : 0 < M := by have := H.le; omega
  by_contra hc
  obtain ⟨i, h1, h2, h3⟩ := H.only _ (Nat.mod_lt _ hM) hc
  have := eq_of_window h3 h1 (by omega) H.le hn
  omega

/-- A number in the window whose cell is empty is the next one. -/
theorem eq_next (H : Holds M cell val a n) (h1 : a ≤ i) (h2 : i ≤ n)
    (hc : cell (i % M) = none) : i = n := by
  by_contra hne
  have := H.live i h1 (by omega)
  rw [hc] at this
  cases this

theorem push (H : Holds M cell val a n) (hn : n < a + M) {x : α}
    (h : ∀ j, j < M → cell' j = if j = n % M then some x else cell j) :
    Holds M cell' (Function.update val n x) a (n + 1) where
  le := by have := H.le; omega
  fits := hn
  live i h1 h2 := by
    have hM : 0 < M := by omega
    rw [h _ (Nat.mod_lt _ hM)]
    by_cases hi : i = n
    · subst hi; simp
    · have hne : i % M ≠ n % M := fun he =>
        hi (eq_of_window he h1 (by omega) H.le hn)
      rw [if_neg hne, Function.update_of_ne hi]
      exact H.live i h1 (by omega)
  only j hj hc := by
    rw [h j hj] at hc
    split at hc
    · exact ⟨n, H.le, by omega, by omega⟩
    · obtain ⟨i, h1, h2, h3⟩ := H.only j hj hc
      exact ⟨i, h1, by omega, h3⟩

/-- Storing under a number that is held replaces its value. -/
theorem overwrite (H : Holds M cell val a n) (h1 : a ≤ i) (h2 : i < n) {x : α}
    (h : ∀ j, j < M → cell' j = if j = i % M then some x else cell j) :
    Holds M cell' (Function.update val i x) a n where
  le := H.le
  fits := H.fits
  live k hk hk' := by
    have hfits := H.fits
    have hM : 0 < M := by omega
    rw [h _ (Nat.mod_lt _ hM)]
    by_cases hki : k = i
    · subst hki; simp
    · have hne : k % M ≠ i % M := fun he =>
        hki (eq_of_window he hk (by omega) h1 (by omega))
      rw [if_neg hne, Function.update_of_ne hki]
      exact H.live k hk hk'
  only j hj hc := by
    rw [h j hj] at hc
    split at hc
    · exact ⟨i, h1, h2, by omega⟩
    · exact H.only j hj hc

/-- The cells are only looked at where they are. -/
theorem congr (H : Holds M cell val a n) (h : ∀ j, j < M → cell' j = cell j) :
    Holds M cell' val a n where
  le := H.le
  fits := H.fits
  live i h1 h2 := by
    have hM : 0 < M := by have := H.fits; omega
    rw [h _ (Nat.mod_lt _ hM)]
    exact H.live i h1 h2
  only j hj hc := H.only j hj (by rwa [h j hj] at hc)

/-- Emptying the cells of the numbers below `r` leaves the others. -/
theorem release (H : Holds M cell val a n) {r : Nat} (h1 : a ≤ r) (h2 : r ≤ n)
    (hgone : ∀ i, a ≤ i → i < r → cell' (i % M) = none)
    (hkept : ∀ j, j < M → (∀ i, a ≤ i → i < r → i % M ≠ j) → cell' j = cell j) :
    Holds M cell' val r n where
  le := h2
  fits := by have := H.fits; omega
  live i hi hi' := by
    have hfits := H.fits
    rw [hkept _ (Nat.mod_lt _ (by omega)), H.live i (by omega) hi']
    intro k hk hk' he
    have := eq_of_window he hk (by omega) (by omega : a ≤ i) (by omega)
    omega
  only j hj hc := by
    have hno : ∀ i, a ≤ i → i < r → i % M ≠ j := fun i hi hi' he => hc (he ▸ hgone i hi hi')
    rw [hkept j hj hno] at hc
    obtain ⟨i, hi, hi', he⟩ := H.only j hj hc
    refine ⟨i, ?_, hi', he⟩
    by_contra hlt
    exact hno i hi (by omega) he

end Holds

end Ring
