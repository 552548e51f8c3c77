import Mathlib.Data.Nat.ModEq
import Mathlib.Data.Nat.Prime.Basic
import Mathlib.Logic.Function.Basic

/-! # Mixing

A hash goes through its data with a step on a word, and a step is made of additions of the word shifted
to the left and of exclusive ors with the word shifted to the right. Neither loses anything, so that data
that differ in one place only never come to the same word. -/

namespace Mix

/-! ## Words -/

variable {w k : Nat}

theorem toNat_add_shiftLeft (x : BitVec w) : (x + x <<< k).toNat = x.toNat * (1 + 2 ^ k) % 2 ^ w := by
  rw [BitVec.toNat_add, BitVec.toNat_shiftLeft, Nat.add_mod_mod, Nat.shiftLeft_eq, Nat.mul_add, Nat.mul_one]

theorem coprime_two_pow (hk : 0 < k) : Nat.Coprime (2 ^ w) (1 + 2 ^ k) := by
  obtain ⟨j, rfl⟩ := Nat.exists_eq_succ_of_ne_zero hk.ne'
  apply Nat.Coprime.pow_left
  rw [Nat.coprime_two_left]
  exact ⟨2 ^ j, by rw [Nat.pow_succ, Nat.mul_comm, Nat.add_comm]⟩

/-- The word is multiplied by an odd number. -/
theorem add_shiftLeft_injective (hk : 0 < k) : Function.Injective fun x : BitVec w => x + x <<< k := by
  intro x y h
  have hnat : (x + x <<< k).toNat = (y + y <<< k).toNat := congrArg BitVec.toNat h
  rw [toNat_add_shiftLeft, toNat_add_shiftLeft] at hnat
  have hmod : x.toNat ≡ y.toNat [MOD 2 ^ w] := Nat.ModEq.cancel_right_of_coprime (coprime_two_pow hk) hnat
  rw [Nat.ModEq, Nat.mod_eq_of_lt x.isLt, Nat.mod_eq_of_lt y.isLt] at hmod
  exact BitVec.eq_of_toNat_eq hmod

/-- A bit of the word is got back from the same bit of the result and a bit higher up. -/
theorem xor_shiftRight_injective (hk : 0 < k) : Function.Injective fun x : BitVec w => x ^^^ x >>> k := by
  intro x y h
  -- by induction on how far the bit is from the top
  have hbit (n : Nat) : ∀ i, w - i ≤ n → x.getLsbD i = y.getLsbD i := by
    induction n with
    | zero =>
      intro i hi
      rw [BitVec.getLsbD_of_ge x i (by omega), BitVec.getLsbD_of_ge y i (by omega)]
    | succ n ih =>
      intro i hi
      have hxor : (x ^^^ x >>> k).getLsbD i = (y ^^^ y >>> k).getLsbD i := congrArg (·.getLsbD i) h
      rw [BitVec.getLsbD_xor, BitVec.getLsbD_xor, BitVec.getLsbD_ushiftRight, BitVec.getLsbD_ushiftRight,
        ih (k + i) (by omega)] at hxor
      exact Bool.xor_left_inj.mp hxor
  exact BitVec.eq_of_getLsbD_eq fun i _ => hbit w i (Nat.sub_le w i)

/-! ## Data -/

variable {σ α : Type} {step : σ → α → σ}

/-- A step loses neither the word it starts from nor what it takes in. -/
structure Mixes (step : σ → α → σ) : Prop where
  word : ∀ a, Function.Injective fun s => step s a
  taken : ∀ s, Function.Injective (step s)

/-- Two lists that differ in one place only. -/
def OneApart (l l' : List α) : Prop := ∃ pre a b post, a ≠ b ∧ l = pre ++ a :: post ∧ l' = pre ++ b :: post

theorem OneApart.append {l l' : List α} (h : OneApart l l') (pre post : List α) :
    OneApart (pre ++ l ++ post) (pre ++ l' ++ post) := by
  obtain ⟨front, a, b, back, hne, rfl, rfl⟩ := h
  exact ⟨pre ++ front, a, b, back ++ post, hne, by simp, by simp⟩

/-- The same data take two words to two words. -/
theorem Mixes.foldl_injective (h : Mixes step) (l : List α) : Function.Injective fun s => l.foldl step s := by
  induction l with
  | nil => exact fun _ _ h => h
  | cons a l ih => exact fun s t hst => h.word a (ih hst)

/-- Data that differ in one place only come to different words. -/
theorem Mixes.foldl_ne (h : Mixes step) {l l' : List α} (hl : OneApart l l') (s : σ) :
    l.foldl step s ≠ l'.foldl step s := by
  obtain ⟨pre, a, b, post, hne, rfl, rfl⟩ := hl
  intro heq
  rw [List.foldl_append, List.foldl_append, List.foldl_cons, List.foldl_cons] at heq
  exact hne (h.taken _ (h.foldl_injective post heq))

end Mix
