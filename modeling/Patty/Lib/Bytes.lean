import Mathlib.Algebra.Group.Nat.Defs
import Mathlib.Data.List.Range
import Mathlib.Data.List.GetD

/-! # Bytes, little-endian numbers and byte memories

A memory is a function from addresses to bytes. Storing a string of bytes and reading a range back
are related by two facts, one for the same range and one for disjoint ranges; the little-endian
fields of a record in memory are read and stored through them. -/

/-- A string of bytes. -/
abbrev Bytes := List UInt8

/-- The `n`-byte little-endian representation of `x`. -/
def leBytes : Nat → Nat → Bytes
  | 0, _ => []
  | n + 1, x => UInt8.ofNat x :: leBytes n (x / 256)

/-- The number a little-endian string of bytes represents. -/
def leValue : Bytes → Nat
  | [] => 0
  | b :: bs => b.toNat + 256 * leValue bs

@[simp] theorem length_leBytes (n x : Nat) : (leBytes n x).length = n := by
  induction n generalizing x with
  | zero => rfl
  | succ n ih => simp [leBytes, ih]

theorem leValue_leBytes (n x : Nat) : leValue (leBytes n x) = x % 256 ^ n := by
  induction n generalizing x with
  | zero => simp [leBytes, leValue, Nat.mod_one]
  | succ n ih =>
    have hx : (UInt8.ofNat x).toNat = x % 256 := by simp
    rw [leBytes, leValue, ih, hx, Nat.pow_succ', Nat.mod_mul]

theorem leValue_lt (bs : Bytes) : leValue bs < 256 ^ bs.length := by
  induction bs with
  | nil => exact Nat.one_pos
  | cons b bs ih =>
    have hb : b.toNat < 256 := b.toNat_lt
    rw [leValue, List.length_cons, Nat.pow_succ]
    omega

theorem leValue_leBytes_of_lt {n x : Nat} (h : x < 256 ^ n) : leValue (leBytes n x) = x := by
  rw [leValue_leBytes, Nat.mod_eq_of_lt h]

/-- Memory: a byte at every address. -/
abbrev Mem := Nat → UInt8

namespace Mem

/-- The `n` bytes at `off`. -/
def read (m : Mem) (off n : Nat) : Bytes := (List.range n).map fun i => m (off + i)

/-- `m` with the string `bs` stored at `off`. -/
def store (m : Mem) (off : Nat) (bs : Bytes) : Mem := fun a =>
  if off ≤ a ∧ a < off + bs.length then bs.getD (a - off) 0 else m a

/-- The memory that holds `bs` from address 0 and looks like `rest` after it. -/
def ofBytes (bs : Bytes) (rest : Mem) : Mem := store rest 0 bs

variable {m m' : Mem} {off off' n : Nat} {bs : Bytes}

@[simp] theorem length_read : (m.read off n).length = n := by simp [read]

theorem read_const (b : UInt8) : read (fun _ => b) off n = List.replicate n b := by
  simp [read, List.map_const']

@[simp] theorem read_zero : m.read off 0 = [] := rfl

theorem read_congr (h : ∀ a, off ≤ a → a < off + n → m a = m' a) :
    m.read off n = m'.read off n := by
  apply List.map_congr_left
  intro i hi
  rw [List.mem_range] at hi
  exact h _ (by omega) (by omega)

/-- What was stored is read back. -/
theorem read_store_same : (m.store off bs).read off bs.length = bs := by
  apply List.ext_getElem (by simp)
  intro i h1 h2
  simp only [read, store, List.getElem_map, List.getElem_range]
  rw [if_pos (by omega), Nat.add_sub_cancel_left, List.getD_eq_getElem _ _ h2]

theorem read_store_same' (h : bs.length = n) : (m.store off bs).read off n = bs := by
  subst h; exact read_store_same

/-- A part of what was stored is read back. -/
theorem read_store_within (h : off ≤ off') (h' : off' + n ≤ off + bs.length) :
    (m.store off bs).read off' n = (bs.drop (off' - off)).take n := by
  apply List.ext_getElem (by simp; omega)
  intro i h1 h2
  rw [length_read] at h1
  simp only [read, store, List.getElem_map, List.getElem_range, List.getElem_take,
    List.getElem_drop]
  rw [if_pos (by omega), List.getD_eq_getElem _ _ (by omega)]
  congr 1
  omega

/-- A store does not change what lies before or after it. -/
theorem read_store_disjoint (h : off + n ≤ off' ∨ off' + bs.length ≤ off) :
    (m.store off' bs).read off n = m.read off n := by
  apply read_congr
  intro a h1 h2
  rw [store, if_neg (by omega)]

theorem read_ofBytes (rest : Mem) : (ofBytes bs rest).read 0 bs.length = bs := read_store_same

theorem ofBytes_apply (rest : Mem) {i : Nat} (h : i < bs.length) :
    ofBytes bs rest i = bs[i] := by
  rw [ofBytes, store, if_pos (by omega), Nat.sub_zero, List.getD_eq_getElem _ _ h]

theorem read_append : m.read off (n + n') = m.read off n ++ m.read (off + n) n' := by
  simp only [read, List.range_add, List.map_append, List.map_map]
  congr 1
  apply List.map_congr_left
  intro i _
  simp [Nat.add_assoc]

theorem read_succ : m.read off (n + 1) = m off :: m.read (off + 1) n := by
  rw [Nat.add_comm n 1, read_append]
  rfl

/-- Reading from where a pointer points. -/
theorem read_shift : read (fun i => m (off + i)) 0 n = m.read off n := by simp [read]

/-- A part in the middle is read back. -/
theorem read_ofBytes_mid (a b c : Bytes) (rest : Mem) :
    (ofBytes (a ++ (b ++ c)) rest).read a.length b.length = b := by
  rw [ofBytes, read_store_within (Nat.zero_le _) (by simp), Nat.sub_zero, List.drop_left,
    List.take_left]

end Mem
