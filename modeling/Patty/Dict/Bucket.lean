import Mathlib.Data.List.FinRange
import Patty.Lib.Prog
import Patty.Lib.Run

/-! # The dictionary (`dict.c`)

A bucket has sixteen slots, and each slot may point to another bucket. The slot of a key at a level is the
one of its nibble there, and a key is stored in the first slot on its way down that is free, for seven levels.
No bucket is shared, so that a bucket is a tree, and a pointer to a slot is its way down (`Bucket.slotAt`). -/

namespace Patty

open Prog

/-- `patty_dict_slot`, without its pointer to the next bucket. The value is a pointer, `none` if it is null. -/
structure Slot (α : Type) where
  key : UInt32
  value : Option α
  set : Bool

/-- A slot whose bytes are zero. -/
def Slot.zero {α : Type} : Slot α := ⟨0, none, false⟩

/-- A pointer to a `patty_dict_bucket`: its slots, and the bucket to which each of them points. -/
inductive Bucket (α : Type)
  | null
  | mk (slots : Fin 16 → Slot α) (next : Fin 16 → Bucket α)

/-- The index of the key in a bucket after `collisions` other ones. -/
def nibble (key : UInt32) (collisions : Nat) : Fin 16 :=
  Fin.ofNat 16 ((key &&& (0x0f <<< (4 * collisions).toUInt32)) >>> (4 * collisions).toUInt32).toNat

namespace Bucket

variable {α σ ε : Type}

/-- A bucket whose bytes are zero. -/
def empty : Bucket α := .mk (fun _ => .zero) fun _ => .null

/-- `patty_dict_new` -/
def dictNew : Bucket α := empty

/-- The slot at the end of the way down. -/
def slotAt : Bucket α → List (Fin 16) → Option (Slot α)
  | null, _ | mk .., [] => none
  | mk slots _, [i] => some (slots i)
  | mk _ next, i :: π => (next i).slotAt π

/-- The loop of `patty_dict_slot_find` for `n` more levels. -/
def slotFindLoop (key : UInt32) : Nat → Nat → Bucket α → Option (List (Fin 16))
  | 0, _, _ | _ + 1, _, null => none
  | n + 1, collisions, mk slots next =>
    let index := nibble key collisions
    if !(slots index).set then none
    else if (slots index).key = key then some [index]
    else ((next index).slotFindLoop key n (collisions + 1)).map (index :: ·)

def slotFind (dict : Bucket α) (key : UInt32) : Option (List (Fin 16)) := dict.slotFindLoop key 7 0

/-- `patty_dict_get` -/
def get (dict : Bucket α) (key : UInt32) : Option α :=
  ((dict.slotFind key).bind dict.slotAt).bind Slot.value

/-- The loop of `patty_dict_set` for `n` more levels, where `alloc` says which calls of `malloc` succeed. -/
def setLoop (alloc : Nat → Bool) (key : UInt32) (value : Option α) :
    Nat → Nat → Bucket α → Option α × Bucket α
  | 0, _, bucket => (none, bucket)
  | _ + 1, _, null => (none, null)
  | n + 1, collisions, mk slots next =>
    let index := nibble key collisions
    let slot := slots index
    if !slot.set then (value, mk (Function.update slots index ⟨key, value, true⟩) next)
    else if slot.key = key then (value, mk (Function.update slots index { slot with value }) next)
    else
      match next index with
      | null =>
        if alloc collisions then
          let (ret, bucket) := empty.setLoop alloc key value n (collisions + 1)
          (ret, mk slots (Function.update next index bucket))
        else (none, mk slots next)
      | bucket =>
        let (ret, bucket) := bucket.setLoop alloc key value n (collisions + 1)
        (ret, mk slots (Function.update next index bucket))

/-- `patty_dict_set`: what it returns, and the dictionary then. -/
def set (alloc : Nat → Bool) (dict : Bucket α) (key : UInt32) (value : Option α) : Option α × Bucket α :=
  dict.setLoop alloc key value 7 0

/-- `memset` of the slot at the end of the way down, which clears its pointer to the next bucket too. -/
def clearSlot : Bucket α → List (Fin 16) → Bucket α
  | null, _ => null
  | mk slots next, [] => mk slots next
  | mk slots next, [i] => mk (Function.update slots i .zero) (Function.update next i null)
  | mk slots next, i :: π => mk slots (Function.update next i ((next i).clearSlot π))

/-- `patty_dict_delete` -/
def delete (dict : Bucket α) (key : UInt32) : Int × Bucket α :=
  match dict.slotFind key with
  | none => (-1, dict)
  | some π => (0, dict.clearSlot π)

/-- `bucket_each_slot` -/
def eachSlot (callback : UInt32 → Option α → Prog σ ε Int) : Nat → Bucket α → Prog σ ε Int
  | _, null => pure 0
  | level, mk slots next =>
    if 7 < level then pure 0
    else
      forEach (List.finRange 16) fun i => do
        let r ← if (slots i).set then callback (slots i).key (slots i).value else pure 0
        if r < 0 then pure (-1) else (next i).eachSlot callback (level + 1)

/-- `patty_dict_each` -/
def each (dict : Bucket α) (callback : UInt32 → Option α → Prog σ ε Int) : Prog σ ε Int :=
  dict.eachSlot callback 0

/-! ## Runs -/

/-- A call that changes a dictionary. -/
inductive Call (α : Type)
  | set (alloc : Nat → Bool) (key : UInt32) (value : Option α)
  | delete (key : UInt32)

/-- The call takes the dictionary `d` to `d'`. -/
inductive Step : Bucket α → Call α → Bucket α → Prop
  | set {d : Bucket α} {alloc : Nat → Bool} {key : UInt32} {value : Option α} :
    Step d (.set alloc key value) (d.set alloc key value).2
  | delete {d : Bucket α} {key : UInt32} : Step d (.delete key) (d.delete key).2

/-- The dictionaries that calls make from a new one. -/
abbrev Reachable (d : Bucket α) : Prop := Run Step (fun _ _ => True) dictNew d

end Bucket

end Patty
