import Mathlib.Data.Nat.Bitwise

/-! # Fields of a word

A word is put together from a field of `k` bits at bit 1, a flag above it and another field above
that; bit 0 is clear. A number is put together from its bytes. -/

namespace Bits

/-- The field at bit 1. -/
theorem low_field (a f : Nat) {n k : Nat} (h : n < 2 ^ k) :
    ((a <<< (k + 2) ||| (n &&& (2 ^ k - 1)) <<< 1 ||| f <<< (k + 1)) >>> 1) % 2 ^ k = n := by
  rw [Nat.and_two_pow_sub_one_eq_mod, Nat.mod_eq_of_lt h]
  apply Nat.eq_of_testBit_eq
  intro i
  rw [Nat.testBit_mod_two_pow, Nat.testBit_shiftRight]
  by_cases hi : i < k
  · have h1 : ¬k + 2 ≤ 1 + i := by omega
    have h2 : ¬k + 1 ≤ 1 + i := by omega
    simp [Nat.testBit_or, Nat.testBit_shiftLeft, hi, h1, h2]
  · have hlt : n < 2 ^ i := h.trans_le (Nat.pow_le_pow_right (by omega) (by omega))
    simp [hi, Nat.testBit_lt_two_pow hlt]

/-- Bit 0 is clear. -/
theorem bit_zero (a f n k : Nat) : (a <<< (k + 2) ||| n <<< 1 ||| f <<< (k + 1)) &&& 0x01 = 0 := by
  apply Nat.eq_of_testBit_eq
  intro i
  rw [Nat.testBit_and, Nat.zero_testBit]
  cases i with
  | zero => simp
  | succ i => simp [Nat.testBit_succ]

/-- The field of `k` bits at bit `i`. -/
theorem field (c i k : Nat) : (c &&& (2 ^ k - 1) <<< i) >>> i = c / 2 ^ i % 2 ^ k := by
  rw [Nat.shiftRight_and_distrib, Nat.shiftLeft_shiftRight, Nat.and_two_pow_sub_one_eq_mod,
    Nat.shiftRight_eq_div_pow]

/-- A word of three fields that do not overlap is their sum. -/
theorem word {a b f i j : Nat} (hb : b < 2 ^ i) (hf : f * 2 ^ i + b < 2 ^ j) :
    a <<< j ||| b ||| f <<< i = a * 2 ^ j + f * 2 ^ i + b := by
  rw [Nat.or_assoc, Nat.or_comm b, ← Nat.shiftLeft_add_eq_or_of_lt hb, Nat.shiftLeft_eq f,
    ← Nat.shiftLeft_add_eq_or_of_lt hf, Nat.shiftLeft_eq, Nat.add_assoc]

/-- A number put together from its bytes, the least significant first. -/
theorem fold_bytes (x n : Nat) :
    (List.range n).foldl (fun v i => v ||| (x >>> (i <<< 3) % 256) <<< (i <<< 3)) 0 = x % 256 ^ n := by
  induction n with
  | zero => simp [Nat.mod_one]
  | succ n ih =>
    have hpow : 256 ^ n = 2 ^ (n <<< 3) := by
      rw [show (256 : Nat) = 2 ^ 8 from rfl, ← Nat.pow_mul, Nat.shiftLeft_eq, Nat.mul_comm]
    have hlt : x % 256 ^ n < 2 ^ (n <<< 3) := hpow ▸ Nat.mod_lt _ (Nat.pow_pos (Nat.succ_pos _))
    rw [List.range_succ, List.foldl_append, ih, List.foldl_cons, List.foldl_nil, Nat.or_comm,
      ← Nat.shiftLeft_add_eq_or_of_lt hlt, Nat.shiftLeft_eq _ (n <<< 3), Nat.shiftRight_eq_div_pow,
      ← hpow, Nat.pow_succ, Nat.mod_mul, Nat.add_comm, Nat.mul_comm]

end Bits
