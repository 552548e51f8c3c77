import Mathlib.Data.List.Perm.Subperm
import Patty.Basic
import Patty.Lib.Checked
import Patty.Lib.Linked
import Patty.Lib.Run

/-! # Lists (`list.c`)

A list is its header and the heap its items are in. Memory from `malloc` holds whatever it held before, and a
pointer that leads to no item is not followed. The loops are run with a number of rounds: a call returns if some
number of them is enough. -/

namespace Patty

open Linked

/-- Why a call does not return: it follows a pointer to no item, or needs more rounds. -/
inductive Halt
  | wild
  | rounds
  deriving DecidableEq

/-- `patty_list`, with the heap of its items. -/
structure PattyList where
  heap : Heap Nat
  length : Nat
  first : Nat
  last : Nat

/-- A call, with what `malloc` gives for it: nothing, or an address and what the memory there holds. -/
inductive ListCall
  | append (value : Nat) (fresh : Option (Nat × Cell Nat))
  | pop
  | shift
  | splice (index : Int64)

/-- What the call does to a sequence. A negative index counts from the end, round and round. -/
def ListCall.spec : ListCall → List Nat → Nat × List Nat
  | .append _ none, seq => (0, seq)
  | .append value (some _), seq => (value, seq ++ [value])
  | .pop, seq => (seq.getLast?.getD 0, seq.dropLast)
  | .shift, seq => (seq.head?.getD 0, seq.tail)
  | .splice index, seq =>
    let i := if index < 0 then (index.toInt % seq.length).toNat else index.toInt.toNat
    (seq[i]?.getD 0, seq.eraseIdx i)

namespace PattyList

/-- `patty_list_new` -/
def new : PattyList := ⟨fun _ => none, 0, 0, 0⟩

def load (list : PattyList) (item : Nat) : Except Halt (Cell Nat) :=
  match list.heap item with
  | some c => .ok c
  | none => .error .wild

def store (list : PattyList) (item : Nat) (f : Cell Nat → Cell Nat) : Except Halt PattyList :=
  match list.heap item with
  | some c => .ok { list with heap := Function.update list.heap item (some (f c)) }
  | none => .error .wild

def free (list : PattyList) (item : Nat) : PattyList := { list with heap := Function.update list.heap item none }

/-- `patty_list_append` -/
def append (list : PattyList) (value : Nat) (fresh : Option (Nat × Cell Nat)) : Except Halt (Nat × PattyList) :=
  match fresh with
  | none => .ok (0, list)
  | some (new, junk) => do
    let list := { list with heap := Function.update list.heap new (some { junk with value, next := 0 }) }
    let list ← if list.first = 0 then .ok { list with first := new, last := new }
      else do
        let list ← list.store list.last ({ · with next := new })
        .ok { list with last := new }
    .ok (value, { list with length := sizeAdd list.length 1 })

/-- `patty_list_pop` -/
def pop (list : PattyList) : Except Halt (Nat × PattyList) :=
  let item := list.last
  if item = 0 then .ok (0, list)
  else do
    let last ← list.load list.last
    let list ← if last.prev ≠ 0 then ({ list with last := last.prev }).store last.prev ({ · with next := 0 })
      else .ok { list with first := 0, last := 0 }
    let list := { list with length := sizeSub list.length 1 }
    let popped ← list.load item
    .ok (popped.value, list.free item)

/-- `patty_list_shift` -/
def shift (list : PattyList) : Except Halt (Nat × PattyList) :=
  let item := list.first
  if item = 0 then .ok (0, list)
  else do
    let first ← list.load list.first
    let list ← if first.next ≠ 0 then ({ list with first := first.next }).store first.next ({ · with prev := 0 })
      else .ok { list with first := 0, last := 0 }
    let list := { list with length := sizeSub list.length 1 }
    let shifted ← list.load item
    .ok (shifted.value, list.free item)

/-- `while (index < 0)` of `patty_list_splice` -/
def wrapIndex (length : Nat) : Nat → Int64 → Except Halt Int64
  | 0, index => if index < 0 then .error .rounds else .ok index
  | fuel + 1, index => if index < 0 then wrapIndex length fuel (index + Int64.ofNat length) else .ok index

/-- What `patty_list_splice` does around an item that holds `c`. -/
def relink (list : PattyList) (c : Cell Nat) : Except Halt PattyList :=
  if c.prev ≠ 0 ∧ c.next ≠ 0 then list.store c.prev ({ · with next := c.next })
  else if c.prev ≠ 0 then ({ list with last := c.prev }).store c.prev ({ · with next := 0 })
  else if c.next ≠ 0 then ({ list with first := c.next }).store c.next ({ · with prev := 0 })
  else .ok list

/-- What `patty_list_splice` does with the item it has found. -/
def unlink (list : PattyList) (item : Nat) : Except Halt (Nat × PattyList) := do
  let c ← list.load item
  let list ← list.relink c
  let spliced ← list.load item
  .ok (spliced.value, list)

/-- `while (item)` of `patty_list_splice` -/
def spliceLoop (list : PattyList) (index : Int64) : Nat → Nat → Nat → Except Halt (Nat × PattyList)
  | 0, _, _ => .error .rounds
  | fuel + 1, item, i =>
    if item = 0 then .ok (0, list)
    else if i = index.toUInt64.toNat then list.unlink item
    else do
      let c ← list.load item
      spliceLoop list index fuel c.next (sizeAdd i 1)

/-- `patty_list_splice` -/
def splice (list : PattyList) (fuel : Nat) (index : Int64) : Except Halt (Nat × PattyList) := do
  let index ← wrapIndex list.length fuel index
  list.spliceLoop index fuel list.first 0

/-- A call, with `fuel` rounds for each loop. -/
def run (list : PattyList) (fuel : Nat) : ListCall → Except Halt (Nat × PattyList)
  | .append value fresh => list.append value fresh
  | .pop => list.pop
  | .shift => list.shift
  | .splice index => list.splice fuel index

/-- The call returns `ret` and leaves the list `list'`. -/
def Returns (list : PattyList) (call : ListCall) (ret : Nat) (list' : PattyList) : Prop :=
  ∃ fuel, list.run fuel call = .ok (ret, list')

/-! ## The sequence -/

/-- The items by `next` and by `prev`, from `first` to `last`, and how many they are. -/
structure Nodes (list : PattyList) (nodes : List (Nat × Nat)) : Prop where
  forward : Forward list.heap 0 nodes
  backward : Backward list.heap 0 nodes
  first : list.first = headAddr 0 nodes
  last : list.last = lastAddr 0 nodes
  length : list.length = nodes.length

/-- The list is the sequence `seq`. -/
def Represents (list : PattyList) (seq : List Nat) : Prop := ∃ nodes, list.Nodes nodes ∧ nodes.map (·.2) = seq

/-- Addresses are those that `malloc` gives. -/
def Addressed (list : PattyList) : Prop := ∀ p, (list.heap p).isSome → p % 16 = 0 ∧ p < 2 ^ 64

/-- `malloc` can give what the call has of it. -/
def Allocates (list : PattyList) : ListCall → Prop
  | .append _ (some (p, _)) => list.heap p = none ∧ p ≠ 0 ∧ p % 16 = 0 ∧ p < 2 ^ 64
  | _ => True

/-- The calls that keep the list a sequence: the memory of a new item happens to hold the address of the last one,
and nothing is under the index. -/
def Keeps (list : PattyList) : ListCall → Prop
  | .append _ (some (_, junk)) => junk.prev = list.last
  | .splice index => list.length ≤ index.toInt
  | _ => True

variable {list list' : PattyList} {nodes : List (Nat × Nat)} {seq : List Nat} {value p : Nat} {junk : Cell Nat}

/-- There is not more memory than addresses. -/
theorem forward_length_le (h : Forward list.heap 0 nodes) (ha : list.Addressed) : nodes.length ≤ 2 ^ 60 := by
  have hmem : ∀ p ∈ nodes.map (·.1), p % 16 = 0 ∧ p < 2 ^ 64 := by
    intro p hp
    obtain ⟨x, hx, rfl⟩ := List.mem_map.mp hp
    exact ha _ (h.mem x hx).2
  have hsub : (nodes.map (·.1)).map (· / 16) ⊆ List.range (2 ^ 60) := by
    intro q hq
    obtain ⟨p, hp, rfl⟩ := List.mem_map.mp hq
    have hlt := (hmem p hp).2
    exact List.mem_range.mpr (by omega)
  have hnodup : ((nodes.map (·.1)).map (· / 16)).Nodup := by
    refine List.Nodup.map_on (fun p hp q hq heq => ?_) h.nodup
    have hp := (hmem p hp).1
    have hq := (hmem q hq).1
    omega
  have hle := (List.subperm_of_subset hnodup hsub).length_le
  rwa [List.length_range, List.length_map, List.length_map] at hle

theorem Nodes.length_lt (h : list.Nodes nodes) (ha : list.Addressed) : nodes.length ≤ 2 ^ 60 :=
  forward_length_le h.forward ha

theorem length_incr (h : list.Nodes nodes) (ha : list.Addressed) :
    sizeAdd list.length 1 = nodes.length + 1 := by
  have hle := h.length_lt ha
  rw [h.length, sizeAdd, Nat.mod_eq_of_lt (by omega)]

theorem length_decr (h : list.Nodes nodes) (ha : list.Addressed) (hne : nodes ≠ []) :
    sizeSub list.length 1 = nodes.length - 1 := by
  have hle := h.length_lt ha
  have hpos := List.length_pos_iff.mpr hne
  rw [h.length, sizeSub]
  omega

theorem Addressed.update {o : Option (Cell Nat)} (ha : list.Addressed)
    (ho : o.isSome → p % 16 = 0 ∧ p < 2 ^ 64) (hheap : list'.heap = Function.update list.heap p o) :
    list'.Addressed := by
  intro q hq
  rw [hheap] at hq
  by_cases heq : q = p
  · subst heq
    rw [Function.update_self] at hq
    exact ho hq
  · rw [Function.update_of_ne heq] at hq
    exact ha q hq

/-- The items after `patty_list_append`: the new one is behind the last, but with the `prev` that was in its
memory. -/
structure Appended (nodes : List (Nat × Nat)) (value p : Nat) (junk : Cell Nat) (list' : PattyList) : Prop where
  forward : Forward list'.heap 0 (nodes ++ [(p, value)])
  backward : Backward list'.heap 0 nodes
  new : list'.heap p = some { junk with value, next := 0 }
  first : list'.first = headAddr 0 (nodes ++ [(p, value)])
  last : list'.last = p
  length : list'.length = nodes.length + 1

theorem append_appended (h : list.Nodes nodes) (ha : list.Addressed)
    (halloc : list.Allocates (.append value (some (p, junk)))) :
    ∃ list', list.append value (some (p, junk)) = .ok (value, list') ∧ Appended nodes value p junk list' ∧
      list'.Addressed := by
  obtain ⟨hfree, hne, halign, hsize⟩ := halloc
  have hout : p ∉ nodes.map (·.1) := by
    intro hp
    obtain ⟨x, hx, rfl⟩ := List.mem_map.mp hp
    simpa [hfree] using (h.forward.mem x hx).2
  have hlen := length_incr h ha
  obtain ⟨heap, heq⟩ : ∃ heap, heap = Function.update list.heap p (some { junk with value, next := 0 }) := ⟨_, rfl⟩
  have hnew : heap p = some { junk with value, next := 0 } := by rw [heq, Function.update_self]
  have hforward : Forward heap 0 nodes := heq ▸ h.forward.update hout
  have hbackward : Backward heap 0 nodes := heq ▸ h.backward.update hout
  have haddr : PattyList.Addressed { list with heap } := ha.update (fun _ => ⟨halign, hsize⟩) heq
  rw [append]
  dsimp only
  rw [← heq]
  rcases List.eq_nil_or_concat nodes with rfl | ⟨init, ⟨q, u⟩, rfl⟩
  · have hfirst : list.first = 0 := h.first
    rw [if_pos hfirst]
    refine ⟨_, rfl, ⟨?_, trivial, hnew, rfl, rfl, hlen⟩, haddr⟩
    exact ⟨hne, ⟨junk.prev, hnew⟩, trivial⟩
  · rw [List.concat_eq_append] at *
    have hfirst : list.first ≠ 0 := by
      rw [h.first]
      exact h.forward.headAddr_ne (by simp)
    have hlast : list.last = q := h.last.trans lastAddr_concat
    obtain ⟨hinit, hq, r, hr⟩ := forward_concat.mp hforward
    have hqp : p ≠ q := fun heq => hout (by rw [heq]; simp)
    have hqinit : q ∉ init.map (·.1) := by
      have hnodup := h.forward.nodup
      rw [List.map_append, List.nodup_append] at hnodup
      exact fun hmem => hnodup.2.2 q hmem q (List.mem_singleton_self q) rfl
    rw [if_neg hfirst, hlast, store]
    dsimp only
    rw [hr]
    refine ⟨_, rfl, ⟨forward_concat.mpr ⟨forward_concat.mpr ⟨hinit.update hqinit, hq, r, ?_⟩, hne, junk.prev, ?_⟩,
      hbackward.relink hr p, ?_, ?_, rfl, hlen⟩, ?_⟩
    · exact Function.update_self ..
    · exact (Function.update_of_ne hqp ..).trans hnew
    · exact (Function.update_of_ne hqp ..).trans hnew
    · dsimp only
      rw [h.first]
      cases init <;> rfl
    · exact haddr.update (fun _ => haddr q (by dsimp only; rw [hr]; rfl)) rfl

/-- The new item has the right `prev` only by chance. -/
theorem append_spec (h : list.Nodes nodes) (ha : list.Addressed)
    (halloc : list.Allocates (.append value (some (p, junk)))) :
    ∃ list', list.append value (some (p, junk)) = .ok (value, list') ∧ list'.Addressed ∧
      (list'.Represents (nodes.map (·.2) ++ [value]) ↔ junk.prev = list.last) := by
  obtain ⟨list', happend, hlist, haddr⟩ := append_appended h ha halloc
  refine ⟨list', happend, haddr, ?_⟩
  constructor
  · rintro ⟨nodes', h', -⟩
    have hsame := h'.forward.unique hlist.forward (h'.first.symm.trans hlist.first)
    subst hsame
    obtain ⟨-, c, hc, hprev⟩ := backward_concat.mp h'.backward
    rw [hlist.new] at hc
    cases hc
    exact hprev.trans h.last.symm
  · intro hprev
    refine ⟨nodes ++ [(p, value)], ⟨hlist.forward, ?_, hlist.first, ?_, ?_⟩, by simp⟩
    · exact backward_concat.mpr ⟨hlist.backward, _, hlist.new, hprev.trans h.last⟩
    · rw [hlist.last, lastAddr_concat]
    · rw [hlist.length, List.length_append]
      rfl

theorem pop_spec (h : list.Nodes nodes) (ha : list.Addressed) :
    ∃ list', list.pop = .ok ((nodes.map (·.2)).getLast?.getD 0, list') ∧ list'.Addressed ∧
      list'.Represents (nodes.map (·.2)).dropLast := by
  rcases List.eq_nil_or_concat nodes with rfl | ⟨init, ⟨p, v⟩, rfl⟩
  · have hlast : list.last = 0 := h.last
    rw [pop]
    dsimp only
    rw [if_pos hlast]
    exact ⟨list, rfl, ha, [], h, rfl⟩
  rw [List.concat_eq_append] at *
  have hlen := length_decr h ha (by simp)
  have hlast : list.last = p := h.last.trans lastAddr_concat
  obtain ⟨hinit, hp, r, hr⟩ := forward_concat.mp h.forward
  obtain ⟨hback, c, hc, hprev⟩ := backward_concat.mp h.backward
  rw [hr] at hc
  cases hc
  have hnodup := h.forward.nodup
  rw [List.map_append, List.nodup_append] at hnodup
  have hpinit : p ∉ init.map (·.1) := fun hmem => hnodup.2.2 p hmem p (List.mem_singleton_self p) rfl
  rw [List.length_append, List.length_singleton, Nat.add_sub_cancel] at hlen
  have hret : ((init ++ [(p, v)]).map (·.2)).getLast?.getD 0 = v := by simp
  have hseq : ((init ++ [(p, v)]).map (·.2)).dropLast = init.map (·.2) := by simp
  rw [hret, hseq]
  rcases List.eq_nil_or_concat init with rfl | ⟨init', ⟨q, u⟩, rfl⟩
  · have hzero : r = 0 := hprev
    refine ⟨⟨Function.update list.heap p none, sizeSub list.length 1, 0, 0⟩, ?_,
      ha.update (by simp) rfl, [], ⟨trivial, trivial, rfl, rfl, hlen⟩, rfl⟩
    simp [pop, hlast, hp, load, hr, hzero, free, Except.ok_bind]
  · rw [List.concat_eq_append] at *
    have hq : r = q := hprev.trans lastAddr_concat
    subst hq
    obtain ⟨hinit', hr0, s, hs⟩ := forward_concat.mp hinit
    have hpr : p ≠ r := fun heq => hpinit (by rw [heq]; simp)
    rw [List.map_append, List.mem_append, not_or] at hpinit
    have hrinit : r ∉ init'.map (·.1) := by
      have hnodup := hnodup.1
      rw [List.map_append, List.nodup_append] at hnodup
      exact fun hmem => hnodup.2.2 r hmem r (List.mem_singleton_self r) rfl
    refine ⟨⟨Function.update (Function.update list.heap r (some ⟨s, 0, u⟩)) p none, sizeSub list.length 1,
      list.first, r⟩, ?_, ?_, init' ++ [(r, u)], ⟨?_, ?_, ?_, lastAddr_concat.symm, hlen⟩, rfl⟩
    · simp [pop, hlast, hp, load, store, hr, hr0, hs, Function.update_of_ne hpr, free, Except.ok_bind]
    · have hrelinked : PattyList.Addressed { list with heap := Function.update list.heap r (some ⟨s, 0, u⟩) } :=
        ha.update (fun _ => ha r (by rw [hs]; rfl)) rfl
      exact hrelinked.update (by simp) rfl
    · refine forward_concat.mpr ⟨(hinit'.update hrinit).update hpinit.1, hr0, s, ?_⟩
      exact (Function.update_of_ne hpr.symm ..).trans (Function.update_self ..)
    · refine (hback.relink hs 0).update ?_
      rw [List.map_append, List.mem_append, not_or]
      exact hpinit
    · dsimp only
      rw [h.first]
      cases init' <;> rfl

theorem shift_spec (h : list.Nodes nodes) (ha : list.Addressed) :
    ∃ list', list.shift = .ok ((nodes.map (·.2)).head?.getD 0, list') ∧ list'.Addressed ∧
      list'.Represents (nodes.map (·.2)).tail := by
  cases nodes with
  | nil =>
    have hfirst : list.first = 0 := h.first
    rw [shift]
    dsimp only
    rw [if_pos hfirst]
    exact ⟨list, rfl, ha, [], h, rfl⟩
  | cons x rest =>
    obtain ⟨p, v⟩ := x
    have hlen := length_decr h ha (List.cons_ne_nil _ _)
    have hfirst : list.first = p := h.first
    have hnodup := h.forward.nodup
    rw [List.map_cons, List.nodup_cons] at hnodup
    obtain ⟨hp, ⟨r, hr⟩, hforward⟩ := h.forward
    obtain ⟨-, hbackward⟩ := h.backward
    cases rest with
    | nil =>
      refine ⟨⟨Function.update list.heap p none, sizeSub list.length 1, 0, 0⟩, ?_,
        ha.update (by simp) rfl, [], ⟨trivial, trivial, rfl, rfl, hlen⟩, rfl⟩
      simp [shift, hfirst, hp, load, hr, free, Except.ok_bind]
    | cons y rest =>
      obtain ⟨q, u⟩ := y
      obtain ⟨hq, ⟨s, hs⟩, hforward'⟩ := id hforward
      obtain ⟨-, hbackward'⟩ := hbackward
      obtain ⟨hpmem, hnodup'⟩ := hnodup
      rw [List.map_cons, List.nodup_cons] at hnodup'
      rw [List.map_cons, List.mem_cons, not_or] at hpmem
      refine ⟨⟨Function.update (Function.update list.heap q (some ⟨0, headAddr 0 rest, u⟩)) p none,
        sizeSub list.length 1, q, list.last⟩, ?_, ?_, (q, u) :: rest, ⟨?_, ?_, rfl, h.last, hlen⟩, rfl⟩
      · simp [shift, hfirst, hp, load, store, hr, hq, hs, Function.update_of_ne hpmem.1, free, Except.ok_bind]
      · have hrelinked : PattyList.Addressed
            { list with heap := Function.update list.heap q (some ⟨0, headAddr 0 rest, u⟩) } :=
          ha.update (fun _ => ha q (by rw [hs]; rfl)) rfl
        exact hrelinked.update (by simp) rfl
      · refine (hforward.relink hs 0).update ?_
        rw [List.map_cons, List.mem_cons, not_or]
        exact hpmem
      · refine ⟨⟨⟨0, headAddr 0 rest, u⟩, ?_, rfl⟩, (hbackward'.update hnodup'.1).update hpmem.2⟩
        exact (Function.update_of_ne (Ne.symm hpmem.1) ..).trans (Function.update_self ..)

/-! ## `patty_list_splice` -/

variable {fuel i ret item : Nat} {index : Int64}

theorem neg_iff : index < 0 ↔ index.toInt < 0 := Int64.lt_iff_toInt_lt

theorem toNat_toUInt64 (h : 0 ≤ index.toInt) : index.toUInt64.toNat = index.toInt.toNat := by
  have hnat : index.toInt = if 2 * index.toUInt64.toNat < 2 ^ 64 then (index.toUInt64.toNat : Int)
      else index.toUInt64.toNat - (2 ^ 64 : Nat) := BitVec.toInt_eq_toNat_cond _
  have hlt : index.toUInt64.toNat < 2 ^ 64 := index.toUInt64.toNat_lt
  split at hnat <;> omega

/-- An index that is not negative is left as it is. -/
theorem wrapIndex_nonneg {length : Nat} (h : ¬index < 0) : wrapIndex length fuel index = .ok index := by
  cases fuel <;> exact if_neg h

/-- In an empty list, a negative index stays negative. -/
theorem wrapIndex_empty (h : index < 0) : wrapIndex 0 fuel index = .error .rounds := by
  induction fuel with
  | zero => exact if_pos h
  | succ fuel ih =>
    have hzero : index + Int64.ofNat 0 = index := Int64.add_zero index
    rw [wrapIndex, if_pos h, hzero, ih]

/-- Beyond the end, the loop comes to its end. -/
theorem spliceLoop_beyond {l : List (Nat × Nat)} (hl : Forward list.heap 0 l) (hi : i + l.length ≤ index.toUInt64.toNat)
    (hsize : i + l.length < 2 ^ 64) :
    list.spliceLoop index fuel (headAddr 0 l) i = if l.length < fuel then .ok (0, list) else .error .rounds := by
  induction l generalizing fuel i with
  | nil => cases fuel <;> rfl
  | cons x l ih =>
    obtain ⟨p, v⟩ := x
    obtain ⟨hp, ⟨q, hq⟩, hrest⟩ := hl
    rw [List.length_cons] at hi hsize
    cases fuel with
    | zero => rfl
    | succ fuel =>
      have hone : sizeAdd i 1 = i + 1 := Nat.mod_eq_of_lt (by omega)
      rw [headAddr_cons, spliceLoop, if_neg hp, if_neg (by omega), load, hq, Except.ok_bind, hone,
        ih hrest (by omega) (by omega)]
      simp only [List.length_cons, Nat.add_lt_add_iff_right]

/-- The same items are there, and as many are counted. -/
structure SameCount (list list' : PattyList) : Prop where
  length : list'.length = list.length
  heap : ∀ p, (list'.heap p).isSome = (list.heap p).isSome

theorem SameCount.refl (list : PattyList) : list.SameCount list := ⟨rfl, fun _ => rfl⟩

theorem store_sameCount {f : Cell Nat → Cell Nat} (h : list.store item f = .ok list') : list.SameCount list' := by
  unfold store at h
  split at h
  · rename_i c hc
    cases h
    refine ⟨rfl, fun p => ?_⟩
    dsimp only
    by_cases hp : p = item
    · rw [hp, Function.update_self, hc]
      rfl
    · rw [Function.update_of_ne hp]
  · cases h

theorem unlink_sameCount (h : list.unlink item = .ok (ret, list')) : list.SameCount list' := by
  rw [unlink] at h
  obtain ⟨c, hc, h⟩ := Except.bind_eq_ok h
  obtain ⟨list₁, hstore, h⟩ := Except.bind_eq_ok h
  obtain ⟨spliced, -, h⟩ := Except.bind_eq_ok h
  cases h
  unfold relink at hstore
  split at hstore
  · exact store_sameCount hstore
  split at hstore
  · obtain ⟨hlength, hheap⟩ := store_sameCount hstore
    exact ⟨hlength, hheap⟩
  split at hstore
  · obtain ⟨hlength, hheap⟩ := store_sameCount hstore
    exact ⟨hlength, hheap⟩
  · cases hstore
    exact .refl list

theorem spliceLoop_sameCount (h : list.spliceLoop index fuel item i = .ok (ret, list')) : list.SameCount list' := by
  induction fuel generalizing item i with
  | zero => cases h
  | succ fuel ih =>
    rw [spliceLoop] at h
    split at h
    · cases h
      exact .refl list
    split at h
    · exact unlink_sameCount h
    · obtain ⟨c, -, h⟩ := Except.bind_eq_ok h
      exact ih h

/-- Whatever is spliced out, the list does not count fewer items. -/
theorem splice_sameCount (h : list.splice fuel index = .ok (ret, list')) : list.SameCount list' := by
  obtain ⟨index', -, h⟩ := Except.bind_eq_ok h
  exact spliceLoop_sameCount h

theorem splice_beyond (h : list.Nodes nodes) (ha : list.Addressed) (hindex : list.length ≤ index.toInt) :
    list.splice fuel index = if nodes.length < fuel then .ok (0, list) else .error .rounds := by
  have hle := h.length_lt ha
  have hpos : 0 ≤ index.toInt := by omega
  have hneg : ¬index < 0 := by
    rw [neg_iff]
    omega
  rw [h.length] at hindex
  rw [splice, wrapIndex_nonneg hneg, Except.ok_bind, h.first]
  exact spliceLoop_beyond h.forward (by rw [toNat_toUInt64 hpos]; omega) (by omega)

/-- Beyond the end, nothing is spliced out of a sequence. -/
theorem spec_beyond (hindex : (seq.length : Int) ≤ index.toInt) : (ListCall.splice index).spec seq = (0, seq) := by
  have hneg : ¬index < 0 := by
    rw [neg_iff]
    omega
  have hle : seq.length ≤ index.toInt.toNat := by omega
  rw [ListCall.spec, if_neg hneg, List.getElem?_eq_none hle, List.eraseIdx_of_length_le hle]
  rfl

/-- Any other index takes an element, if there is one. -/
theorem length_spec (hne : seq ≠ []) (hindex : ¬(seq.length : Int) ≤ index.toInt) :
    ((ListCall.splice index).spec seq).2.length ≠ seq.length := by
  have hpos := List.length_pos_iff.mpr hne
  rw [ListCall.spec]
  dsimp only
  rw [List.length_eraseIdx_of_lt]
  · omega
  · split
    · have hlt := Int.emod_lt_of_pos index.toInt (show (0 : Int) < seq.length by omega)
      omega
    · rename_i hneg
      rw [neg_iff] at hneg
      omega

theorem Represents.length (h : list.Represents seq) : list.length = seq.length := by
  obtain ⟨nodes, hnodes, rfl⟩ := h
  rw [hnodes.length, List.length_map]

theorem splice_empty (h : list.Nodes []) (hindex : index < 0) : list.splice fuel index = .error .rounds := by
  have hzero : list.length = 0 := h.length
  rw [splice, hzero, wrapIndex_empty hindex]
  rfl

end PattyList

/-! ## Runs -/

/-- What the last call has returned, and the list; or nothing, if it has not returned. And what it returns on
sequences, and the sequence. -/
structure ListStage where
  result : Option (Nat × PattyList)
  spec : Nat × List Nat

namespace ListStage

/-- `patty_list_new` -/
def start : ListStage := ⟨some (0, .new), (0, [])⟩

inductive Step : ListStage → ListCall → ListStage → Prop
  | returns {list list' : PattyList} {call : ListCall} {ret ret' : Nat} {spec : Nat × List Nat} :
    list.Allocates call → list.Returns call ret' list' →
      Step ⟨some (ret, list), spec⟩ call ⟨some (ret', list'), call.spec spec.2⟩
  | hangs {list : PattyList} {call : ListCall} {ret : Nat} {spec : Nat × List Nat} :
    list.Allocates call → (∀ ret' list', ¬list.Returns call ret' list') →
      Step ⟨some (ret, list), spec⟩ call ⟨none, call.spec spec.2⟩

/-- The call has returned, what it returns on the sequence, and the list is the sequence. -/
def Refines (s : ListStage) : Prop :=
  ∃ ret list, s.result = some (ret, list) ∧ ret = s.spec.1 ∧ list.Represents s.spec.2

def Keeps (s : ListStage) (call : ListCall) : Prop := ∃ ret list, s.result = some (ret, list) ∧ list.Keeps call

def Addressed (s : ListStage) : Prop := ∀ ret list, s.result = some (ret, list) → list.Addressed

variable {s t : ListStage} {call : ListCall} {list list' : PattyList} {ret ret' : Nat} {spec : Nat × List Nat}

theorem refines_some : Refines ⟨some (ret, list), spec⟩ ↔ ret = spec.1 ∧ list.Represents spec.2 :=
  ⟨fun ⟨_, _, h, hspec⟩ => by cases h; exact hspec, fun h => ⟨ret, list, rfl, h⟩⟩

theorem keeps_some : Keeps ⟨some (ret, list), spec⟩ call ↔ list.Keeps call :=
  ⟨fun ⟨_, _, h, hkeeps⟩ => by cases h; exact hkeeps, fun h => ⟨ret, list, rfl, h⟩⟩

theorem not_refines_none : ¬Refines ⟨none, spec⟩ := fun ⟨_, _, h, _⟩ => nomatch h

/-- A call without a loop has one result. -/
theorem Step.of_run (h : Step ⟨some (ret, list), spec⟩ call t) (hrun : ∀ fuel, list.run fuel call = .ok (ret', list')) :
    t = ⟨some (ret', list'), call.spec spec.2⟩ := by
  cases h with
  | returns _ h =>
    obtain ⟨fuel, h⟩ := h
    rw [hrun] at h
    cases h
    rfl
  | hangs _ h => exact absurd ⟨0, hrun 0⟩ (h _ _)

/-- What a call comes to on a list that is a sequence. -/
theorem step_of_nodes {nodes : List (Nat × Nat)} (h : list.Nodes nodes) (ha : list.Addressed)
    (hst : Step ⟨some (ret, list), spec⟩ call t) (hseq : nodes.map (·.2) = spec.2) :
    t.Addressed ∧ (t.Refines ↔ list.Keeps call) := by
  have hall {list' : PattyList} {ret' : Nat} {spec' : Nat × List Nat} (ha' : list'.Addressed) :
      Addressed ⟨some (ret', list'), spec'⟩ := by
    rintro _ _ h
    cases h
    exact ha'
  have hrefines : list.Represents spec.2 := ⟨nodes, h, hseq⟩
  cases call with
  | append value fresh =>
    cases fresh with
    | none =>
      rw [hst.of_run (fun _ => rfl), refines_some]
      exact ⟨hall ha, iff_of_true ⟨rfl, hrefines⟩ trivial⟩
    | some fresh =>
      obtain ⟨p, junk⟩ := fresh
      have halloc : list.Allocates (.append value (some (p, junk))) := by
        cases hst with
        | returns halloc _ => exact halloc
        | hangs halloc _ => exact halloc
      obtain ⟨list', happend, ha', hiff⟩ := PattyList.append_spec h ha halloc
      rw [hst.of_run (fun _ => happend), refines_some]
      rw [hseq] at hiff
      exact ⟨hall ha', (and_iff_right rfl).trans hiff⟩
  | pop =>
    obtain ⟨list', hpop, ha', hrep⟩ := PattyList.pop_spec h ha
    rw [hst.of_run (fun _ => hpop), refines_some]
    rw [hseq] at hrep ⊢
    exact ⟨hall ha', iff_of_true ⟨rfl, hrep⟩ trivial⟩
  | shift =>
    obtain ⟨list', hshift, ha', hrep⟩ := PattyList.shift_spec h ha
    rw [hst.of_run (fun _ => hshift), refines_some]
    rw [hseq] at hrep ⊢
    exact ⟨hall ha', iff_of_true ⟨rfl, hrep⟩ trivial⟩
  | splice index =>
    have hlength := hrefines.length
    by_cases hindex : (list.length : Int) ≤ index.toInt
    · have hspec := PattyList.spec_beyond (hlength ▸ hindex)
      cases hst with
      | returns _ hret =>
        obtain ⟨fuel, hret⟩ := hret
        rw [PattyList.run, PattyList.splice_beyond h ha hindex] at hret
        split at hret
        · cases hret
          rw [refines_some, hspec]
          exact ⟨hall ha, iff_of_true ⟨rfl, hrefines⟩ hindex⟩
        · cases hret
      | hangs _ hnone =>
        refine absurd ⟨nodes.length + 1, ?_⟩ (hnone 0 list)
        rw [PattyList.run, PattyList.splice_beyond h ha hindex, if_pos (Nat.lt_succ_self _)]
    · cases hst with
      | returns _ hret =>
        obtain ⟨fuel, hret⟩ := hret
        have hsame := PattyList.splice_sameCount hret
        have haddr : PattyList.Addressed _ := fun p hp => ha p ((hsame.heap p).symm.trans hp)
        rw [refines_some]
        refine ⟨hall haddr, iff_of_false (fun hrep => ?_) hindex⟩
        have hcount := hrep.2.length
        rw [hsame.length] at hcount
        rcases eq_or_ne spec.2 [] with hnil | hne
        · rw [hnil, List.length_nil] at hlength
          have hneg : index < 0 := by
            rw [PattyList.neg_iff]
            omega
          rw [List.map_eq_nil_iff.mp (hseq.trans hnil)] at h
          rw [PattyList.run, PattyList.splice_empty h hneg] at hret
          cases hret
        · exact PattyList.length_spec hne (hlength ▸ hindex) (hcount.symm.trans hlength)
      | hangs => exact ⟨fun _ _ h => (nomatch h), iff_of_false not_refines_none hindex⟩

theorem start_refines : start.Refines := ⟨0, .new, rfl, rfl, [], ⟨trivial, trivial, rfl, rfl, rfl⟩, rfl⟩

theorem start_addressed : start.Addressed := by
  rintro _ _ h
  cases h
  exact fun p hp => absurd hp Bool.false_ne_true

theorem step_spec (ha : s.Addressed) (hs : s.Refines) (hst : Step s call t) :
    t.Addressed ∧ (t.Refines ↔ s.Keeps call) := by
  obtain ⟨ret, list, hresult, -, nodes, hnodes, hseq⟩ := hs
  obtain ⟨result, spec⟩ := s
  cases hresult
  rw [keeps_some]
  exact step_of_nodes hnodes (ha _ _ rfl) hst hseq

/-- A run of calls on a new list does on every call what it does on a sequence exactly if each append finds the address
of the last item in the memory of the new one, and each splice has an index beyond the end. -/
theorem refines_iff (l : List (ListCall × ListStage)) (h : Trace Step start l) :
    (∀ x ∈ l, x.2.Refines) ↔ Meets Keeps start l :=
  h.invariant_iff_of (fun _ _ _ ha hs hst => (step_spec ha hs hst).1) (fun _ _ _ ha hs hst => (step_spec ha hs hst).2)
    start_addressed start_refines

/-- An item in memory that is zero, which is then popped. -/
theorem refines_sample :
    ∃ l : List (ListCall × ListStage), l.length = 2 ∧ Trace Step start l ∧ ∀ x ∈ l, x.2.Refines := by
  have htrace : Trace Step start [(.append 7 (some (16, ⟨0, 0, 0⟩)), _), (.pop, _)] :=
    .cons (.returns ⟨rfl, by decide, by decide, by decide⟩ ⟨0, rfl⟩) (.cons (.returns trivial ⟨0, rfl⟩) .nil)
  exact ⟨_, rfl, htrace, (refines_iff _ htrace).mpr ⟨⟨_, _, rfl, rfl⟩, ⟨_, _, rfl, trivial⟩, trivial⟩⟩

/-- An item in memory that is not zero: it names what is not in front of it. -/
theorem not_refines : ¬∀ l : List (ListCall × ListStage), Trace Step start l → ∀ x ∈ l, x.2.Refines := by
  intro h
  have hst : Step start (.append 7 (some (16, ⟨48, 0, 0⟩))) _ :=
    .returns ⟨rfl, by decide, by decide, by decide⟩ ⟨0, rfl⟩
  have hrefines := h _ (.cons hst .nil) _ (List.mem_singleton_self _)
  obtain ⟨_, _, hresult, hkeeps⟩ := (step_spec start_addressed start_refines hst).2.mp hrefines
  cases hresult
  exact absurd (show 48 = 0 from hkeeps) (by decide)

end ListStage

end Patty
