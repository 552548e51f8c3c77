import Mathlib.Data.List.Nodup
import Mathlib.Logic.Function.Basic

/-! # Doubly linked lists in a heap

A heap has a cell under some of its addresses; 0 is the address of none. The cells of a list are given as
addresses and values, in order. `Forward` says that they are found by `next`, from the first cell up to the address
`stop` behind the last one, and `Backward` that each names the one in front of it by `prev`, the first one the
address `start`. Both are closed under appending, and a list that ends is found in one way only. -/

namespace Linked

structure Cell (α : Type) where
  prev : Nat
  next : Nat
  value : α

abbrev Heap (α : Type) := Nat → Option (Cell α)

variable {α : Type}

/-- The address of the first cell, or that behind the list. -/
def headAddr (stop : Nat) : List (Nat × α) → Nat
  | [] => stop
  | (p, _) :: _ => p

/-- The address of the last cell, or that in front of the list. -/
def lastAddr (start : Nat) : List (Nat × α) → Nat
  | [] => start
  | (p, _) :: l => lastAddr p l

def Forward (h : Heap α) (stop : Nat) : List (Nat × α) → Prop
  | [] => True
  | (p, v) :: l => p ≠ 0 ∧ (∃ q, h p = some ⟨q, headAddr stop l, v⟩) ∧ Forward h stop l

def Backward (h : Heap α) (start : Nat) : List (Nat × α) → Prop
  | [] => True
  | (p, _) :: l => (∃ c, h p = some c ∧ c.prev = start) ∧ Backward h p l

variable {h h' : Heap α} {start stop p : Nat} {v : α} {l l' : List (Nat × α)}

@[simp] theorem headAddr_nil : headAddr stop ([] : List (Nat × α)) = stop := rfl

@[simp] theorem headAddr_cons : headAddr stop ((p, v) :: l) = p := rfl

@[simp] theorem lastAddr_nil : lastAddr start ([] : List (Nat × α)) = start := rfl

@[simp] theorem lastAddr_concat : lastAddr start (l ++ [(p, v)]) = p := by
  induction l generalizing start with
  | nil => rfl
  | cons x l ih => exact ih

/-- The ends of a list depend on the addresses alone. -/
theorem headAddr_congr (h : l.map (·.1) = l'.map (·.1)) : headAddr stop l = headAddr stop l' := by
  cases l with
  | nil => rw [List.map_eq_nil_iff.mp h.symm]
  | cons x l =>
    cases l' with
    | nil => cases h
    | cons y l' => exact (List.cons.inj h).1

theorem lastAddr_congr (h : l.map (·.1) = l'.map (·.1)) : lastAddr start l = lastAddr start l' := by
  induction l generalizing start l' with
  | nil => rw [List.map_eq_nil_iff.mp h.symm]
  | cons x l ih =>
    cases l' with
    | nil => cases h
    | cons y l' =>
      obtain ⟨hxy, hrest⟩ := List.cons.inj h
      have hxy : x.1 = y.1 := hxy
      rw [lastAddr, lastAddr, hxy]
      exact ih hrest

theorem forward_append : Forward h stop (l ++ l') ↔ Forward h (headAddr stop l') l ∧ Forward h stop l' := by
  induction l with
  | nil => exact (and_iff_right trivial).symm
  | cons x l ih =>
    have hhead : headAddr stop (l ++ l') = headAddr (headAddr stop l') l := by cases l <;> rfl
    rw [List.cons_append, Forward, Forward, ih, hhead, and_assoc, and_assoc]

theorem backward_append : Backward h start (l ++ l') ↔ Backward h start l ∧ Backward h (lastAddr start l) l' := by
  induction l generalizing start with
  | nil => exact (and_iff_right trivial).symm
  | cons x l ih => rw [List.cons_append, Backward, Backward, ih, lastAddr, and_assoc]

/-- The last cell of a list. -/
theorem forward_concat : Forward h stop (l ++ [(p, v)]) ↔
    Forward h p l ∧ p ≠ 0 ∧ ∃ q, h p = some ⟨q, stop, v⟩ := by
  rw [forward_append]
  exact and_congr_right fun _ => and_congr_right fun _ => and_iff_left trivial

theorem backward_concat : Backward h start (l ++ [(p, v)]) ↔
    Backward h start l ∧ ∃ c, h p = some c ∧ c.prev = lastAddr start l := by
  rw [backward_append]
  exact and_congr_right fun _ => and_iff_left trivial

/-- The way forward depends on `next` and the values alone. -/
theorem Forward.mono (hl : Forward h stop l) (hh : ∀ x ∈ l, ∀ c, h x.1 = some c →
    ∃ c', h' x.1 = some c' ∧ c'.next = c.next ∧ c'.value = c.value) : Forward h' stop l := by
  induction l with
  | nil => trivial
  | cons x l ih =>
    rw [List.forall_mem_cons] at hh
    obtain ⟨hne, ⟨q, hq⟩, hrest⟩ := hl
    obtain ⟨⟨q', next, value⟩, hc', rfl, rfl⟩ := hh.1 _ hq
    exact ⟨hne, ⟨q', hc'⟩, ih hrest hh.2⟩

/-- The way back depends on `prev` alone. -/
theorem Backward.mono (hl : Backward h start l) (hh : ∀ x ∈ l, ∀ c, h x.1 = some c →
    ∃ c', h' x.1 = some c' ∧ c'.prev = c.prev) : Backward h' start l := by
  induction l generalizing start with
  | nil => trivial
  | cons x l ih =>
    rw [List.forall_mem_cons] at hh
    obtain ⟨⟨c, hc, hprev⟩, hrest⟩ := hl
    obtain ⟨c', hc', heq⟩ := hh.1 c hc
    exact ⟨⟨c', hc', heq.trans hprev⟩, ih hrest hh.2⟩

/-- Other cells do not matter. -/
theorem update_other {o : Option (Cell α)} (hp : p ∉ l.map (·.1)) : ∀ x ∈ l, Function.update h p o x.1 = h x.1 := by
  intro x hx
  refine Function.update_of_ne (fun heq => hp ?_) _ _
  rw [← heq]
  exact List.mem_map_of_mem hx

theorem Forward.update {o : Option (Cell α)} (hl : Forward h stop l) (hp : p ∉ l.map (·.1)) :
    Forward (Function.update h p o) stop l :=
  hl.mono fun x hx c hc => ⟨c, (update_other hp x hx).trans hc, rfl, rfl⟩

theorem Backward.update {o : Option (Cell α)} (hl : Backward h start l) (hp : p ∉ l.map (·.1)) :
    Backward (Function.update h p o) start l :=
  hl.mono fun x hx c hc => ⟨c, (update_other hp x hx).trans hc, rfl⟩

/-- A cell may lead elsewhere, and keep what is in front of it. -/
theorem Backward.relink {c : Cell α} (hl : Backward h start l) (hp : h p = some c) (stop : Nat) :
    Backward (Function.update h p (some { c with next := stop })) start l := by
  refine hl.mono fun x _ d hd => ?_
  by_cases hx : x.1 = p
  · rw [hx, hp] at hd
    cases hd
    exact ⟨{ c with next := stop }, by rw [hx, Function.update_self], rfl⟩
  · exact ⟨d, (Function.update_of_ne hx _ _).trans hd, rfl⟩

/-- A cell may name another in front of it, and lead where it led. -/
theorem Forward.relink {c : Cell α} (hl : Forward h stop l) (hp : h p = some c) (start : Nat) :
    Forward (Function.update h p (some { c with prev := start })) stop l := by
  refine hl.mono fun x _ d hd => ?_
  by_cases hx : x.1 = p
  · rw [hx, hp] at hd
    cases hd
    exact ⟨{ c with prev := start }, by rw [hx, Function.update_self], rfl, rfl⟩
  · exact ⟨d, (Function.update_of_ne hx _ _).trans hd, rfl, rfl⟩

/-- A list is found in one way. -/
theorem Forward.unique (hl : Forward h 0 l) (hl' : Forward h 0 l') (hhead : headAddr 0 l = headAddr 0 l') : l = l' := by
  induction l generalizing l' with
  | nil =>
    cases l' with
    | nil => rfl
    | cons x l' => exact absurd hhead.symm hl'.1
  | cons x l ih =>
    cases l' with
    | nil => exact absurd hhead hl.1
    | cons y l' =>
      obtain ⟨p, v⟩ := x
      obtain ⟨p', v'⟩ := y
      obtain rfl : p = p' := hhead
      obtain ⟨-, ⟨q, hq⟩, hrest⟩ := hl
      obtain ⟨-, ⟨q', hq'⟩, hrest'⟩ := hl'
      obtain ⟨-, hnext, rfl⟩ := Cell.mk.inj (Option.some.inj (hq.symm.trans hq'))
      rw [ih hrest hrest' hnext]

/-- A list that ends does not come back to a cell. -/
theorem Forward.nodup (hl : Forward h 0 l) : (l.map (·.1)).Nodup := by
  induction l with
  | nil => exact List.nodup_nil
  | cons x l ih =>
    rw [List.map_cons, List.nodup_cons]
    refine ⟨fun hmem => ?_, ih hl.2.2⟩
    obtain ⟨y, hy, heq⟩ := List.mem_map.mp hmem
    obtain ⟨front, back, rfl⟩ := List.append_of_mem hy
    have hback : Forward h 0 (y :: back) := (forward_append.mp hl.2.2).2
    have hsame := hback.unique hl heq
    have hlength := congrArg List.length hsame
    simp only [List.length_cons, List.length_append] at hlength
    omega

theorem map_set_addr {k : Nat} (hk : k < l.length) (v : α) :
    (l.set k (l[k].1, v)).map (·.1) = l.map (·.1) := by
  have hk' : k < (l.map (·.1)).length := by rwa [List.length_map]
  have hself : l[k].1 = (l.map (·.1))[k] := (List.getElem_map ..).symm
  rw [List.map_set, hself]
  exact List.set_getElem_self _

/-- A cell of the list may get another value. -/
theorem Forward.set (hl : Forward h 0 l) {k : Nat} (hk : k < l.length) (v : α) : ∃ c, h l[k].1 = some c ∧
    Forward (Function.update h l[k].1 (some { c with value := v })) 0 (l.set k (l[k].1, v)) := by
  induction l generalizing k with
  | nil => exact absurd hk (Nat.not_lt_zero k)
  | cons x l ih =>
    obtain ⟨p, u⟩ := x
    have hnodup := hl.nodup
    rw [List.map_cons, List.nodup_cons] at hnodup
    obtain ⟨hp, ⟨q, hq⟩, hrest⟩ := hl
    cases k with
    | zero => exact ⟨_, hq, hp, ⟨q, Function.update_self ..⟩, hrest.update hnodup.1⟩
    | succ k =>
      have hk : k < l.length := Nat.lt_of_succ_lt_succ hk
      obtain ⟨c, hc, hl'⟩ := ih hrest hk
      have hmem : l[k].1 ∈ l.map (·.1) := List.mem_map_of_mem (List.getElem_mem hk)
      have hne : p ≠ l[k].1 := fun heq => hnodup.1 (heq ▸ hmem)
      have hhead : headAddr 0 (l.set k (l[k].1, v)) = headAddr 0 l := headAddr_congr (map_set_addr hk v)
      refine ⟨c, hc, hp, ⟨q, ?_⟩, hl'⟩
      rw [List.getElem_cons_succ, Function.update_of_ne hne, hhead]
      exact hq

theorem Forward.headAddr_ne (hl : Forward h stop l) (hne : l ≠ []) : headAddr stop l ≠ 0 := by
  cases l with
  | nil => exact absurd rfl hne
  | cons x l => exact hl.1

/-- The cells of a list are there. -/
theorem Forward.mem (hl : Forward h stop l) : ∀ x ∈ l, x.1 ≠ 0 ∧ (h x.1).isSome := by
  induction l with
  | nil => exact fun _ hx => absurd hx List.not_mem_nil
  | cons x l ih =>
    rw [List.forall_mem_cons]
    obtain ⟨hne, ⟨q, hq⟩, hrest⟩ := hl
    exact ⟨⟨hne, by rw [hq]; rfl⟩, ih hrest⟩

end Linked
