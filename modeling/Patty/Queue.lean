import Patty.PattyList

/-! # Lists as queues (`list.c`)

`patty_list_append` leaves in `prev` what the memory of the new item holds, and only `patty_list_pop` and
`patty_list_splice` read it. All else goes forward: a list that is appended to, shifted, read and written is a
queue, whatever the memory holds (`queue_run`). -/

namespace Patty

open Linked

/-- A call that does not look at `prev`. -/
inductive QueueCall
  | append (value : Nat) (fresh : Option (Nat × Cell Nat))
  | shift
  | set (index : Int64) (value : Nat)
  | index (index : Int64)
  | last

/-- The place in a sequence that `patty_list_index` looks at: a negative index counts from the end, once. -/
def fromEnd (index : Int64) (length : Nat) : Int := if index < 0 then index.toInt + length else index.toInt

/-- What the call does to a sequence, if it returns. -/
def QueueCall.spec : QueueCall → List Nat → Option (Nat × List Nat)
  | .append _ none, seq => some (0, seq)
  | .append value (some _), seq => some (value, seq ++ [value])
  | .shift, seq => some (seq.head?.getD 0, seq.tail)
  | .set i value, seq =>
    if 0 ≤ i.toInt ∧ i.toInt < seq.length then some (value, seq.set i.toInt.toNat value) else some (0, seq)
  | .index i, seq =>
    let i := fromEnd i seq.length
    some (if 0 ≤ i then seq[i.toNat]?.getD 0 else 0, seq)
  | .last, seq => seq.getLast?.map fun value => (value, seq)

namespace PattyList

variable {σ : Type}

/-- `while (item != NULL)` of `patty_list_set` -/
def setLoop (list : PattyList) (index : Int64) (value : Nat) : Nat → Nat → Nat → Except Halt (Nat × PattyList)
  | 0, _, _ => .error .rounds
  | fuel + 1, item, i =>
    if item = 0 then .ok (0, list)
    else if i = index.toUInt64.toNat then do
      let list ← list.store item ({ · with value })
      .ok (value, list)
    else do
      let c ← list.load item
      setLoop list index value fuel c.next (sizeAdd i 1)

/-- `patty_list_set` -/
def set (list : PattyList) (fuel : Nat) (index : Int64) (value : Nat) : Except Halt (Nat × PattyList) :=
  list.setLoop index value fuel list.first 0

/-- `while (i < index && item->next != NULL)` of `patty_list_index` -/
def indexLoop (list : PattyList) (index : Int64) : Nat → Nat → Nat → Except Halt Nat
  | 0, _, _ => .error .rounds
  | fuel + 1, item, i => do
    let c ← list.load item
    if i < index.toUInt64.toNat ∧ c.next ≠ 0 then indexLoop list index fuel c.next (sizeAdd i 1)
    else .ok c.value

/-- `patty_list_index` -/
def index (list : PattyList) (fuel : Nat) (index : Int64) : Except Halt Nat :=
  let index := if index < 0 then index + Int64.ofNat list.length else index
  -- compared with a `size_t`, a negative index is past the end
  if list.length ≤ index.toUInt64.toNat ∨ index < 0 then .ok 0
  else list.indexLoop index fuel list.first 0

/-- `while (item->next != NULL)` of `patty_list_last` -/
def lastLoop (list : PattyList) : Nat → Nat → Except Halt Nat
  | 0, _ => .error .rounds
  | fuel + 1, item => do
    let c ← list.load item
    if c.next ≠ 0 then lastLoop list fuel c.next else .ok c.value

/-- `patty_list_last` -/
def listLast (list : PattyList) (fuel : Nat) : Except Halt Nat := list.lastLoop fuel list.first

/-- The loop of `patty_list_each` -/
def eachLoop (list : PattyList) (callback : Nat → σ → σ) : Nat → Nat → σ → Except Halt σ
  | 0, _, _ => .error .rounds
  | fuel + 1, item, ctx =>
    if item = 0 then .ok ctx
    else do
      let c ← list.load item
      eachLoop list callback fuel c.next (callback c.value ctx)

/-- `patty_list_each` -/
def each (list : PattyList) (fuel : Nat) (callback : Nat → σ → σ) (ctx : σ) : Except Halt σ :=
  list.eachLoop callback fuel list.first ctx

/-- `while (item != NULL)` of `patty_list_destroy` -/
def destroyLoop : Nat → PattyList → Nat → Except Halt PattyList
  | 0, _, _ => .error .rounds
  | fuel + 1, list, item =>
    if item = 0 then .ok list
    else do
      let c ← list.load item
      destroyLoop fuel (list.free item) c.next

/-- `patty_list_destroy`: what is left in the memory. -/
def destroy (list : PattyList) (fuel : Nat) : Except Halt PattyList := destroyLoop fuel list list.first

/-- A call, with `fuel` rounds for its loop. -/
def runQueue (list : PattyList) (fuel : Nat) : QueueCall → Except Halt (Nat × PattyList)
  | .append value fresh => list.append value fresh
  | .shift => list.shift
  | .set i value => list.set fuel i value
  | .index i => (·, list) <$> list.index fuel i
  | .last => (·, list) <$> list.listLast fuel

/-- The call returns `ret` and leaves the list `list'`. -/
def Gives (list : PattyList) (call : QueueCall) (ret : Nat) (list' : PattyList) : Prop :=
  ∃ fuel, list.runQueue fuel call = .ok (ret, list')

/-- `malloc` can give what the call has of it. -/
def Grants (list : PattyList) : QueueCall → Prop
  | .append _ (some (p, _)) => list.heap p = none ∧ p ≠ 0 ∧ p % 16 = 0 ∧ p < 2 ^ 64
  | _ => True

/-! ## The sequence, forward -/

/-- The items by `next`, from `first` to `last`, and how many they are; no other memory is in use. -/
structure Queue (list : PattyList) (nodes : List (Nat × Nat)) : Prop where
  forward : Forward list.heap 0 nodes
  first : list.first = headAddr 0 nodes
  last : list.last = lastAddr 0 nodes
  length : list.length = nodes.length
  own : ∀ p, (list.heap p).isSome → p ∈ nodes.map (·.1)
  addressed : list.Addressed

/-- The list is the queue `seq`. -/
def Queues (list : PattyList) (seq : List Nat) : Prop := ∃ nodes, list.Queue nodes ∧ nodes.map (·.2) = seq

variable {list list' : PattyList} {nodes l : List (Nat × Nat)} {seq : List Nat} {value p fuel i : Nat}
  {junk : Cell Nat} {index : Int64}

/-! ## The loops -/

theorem indexLoop_spec {k : Nat} (hl : Forward list.heap 0 l) (hk : k < l.length)
    (hindex : index.toUInt64.toNat = i + k) :
    list.indexLoop index fuel (headAddr 0 l) i = if k < fuel then .ok l[k].2 else .error .rounds := by
  induction l generalizing fuel i k with
  | nil => exact absurd hk (Nat.not_lt_zero k)
  | cons x l ih =>
    obtain ⟨p, v⟩ := x
    obtain ⟨hp, ⟨q, hq⟩, hrest⟩ := hl
    cases fuel with
    | zero => rfl
    | succ fuel =>
      rw [headAddr_cons, indexLoop, load, hq, Except.ok_bind]
      cases k with
      | zero => rw [if_neg (by omega), if_pos (Nat.succ_pos fuel), List.getElem_cons_zero]
      | succ k =>
        have hk : k < l.length := Nat.lt_of_succ_lt_succ hk
        have hnext : headAddr 0 l ≠ 0 := hrest.headAddr_ne (List.ne_nil_of_length_pos (Nat.zero_lt_of_lt hk))
        have hlt := index.toUInt64.toNat_lt
        have hone : sizeAdd i 1 = i + 1 := Nat.mod_eq_of_lt (by omega)
        rw [if_pos ⟨by omega, hnext⟩, hone, ih hrest hk (by omega), List.getElem_cons_succ]
        simp only [Nat.succ_lt_succ_iff]

/-- The item under the index gets the value. -/
theorem setLoop_inside {k : Nat} {c : Cell Nat} (hl : Forward list.heap 0 l) (hk : k < l.length)
    (hindex : index.toUInt64.toNat = i + k) (hc : list.heap l[k].1 = some c) :
    list.setLoop index value fuel (headAddr 0 l) i = if k < fuel then
      .ok (value, { list with heap := Function.update list.heap l[k].1 (some { c with value }) })
      else .error .rounds := by
  induction l generalizing fuel i k with
  | nil => exact absurd hk (Nat.not_lt_zero k)
  | cons x l ih =>
    obtain ⟨p, v⟩ := x
    obtain ⟨hp, ⟨q, hq⟩, hrest⟩ := hl
    cases fuel with
    | zero => rfl
    | succ fuel =>
      rw [headAddr_cons, setLoop, if_neg hp]
      cases k with
      | zero =>
        rw [List.getElem_cons_zero] at hc
        rw [if_pos (by omega), if_pos (Nat.succ_pos fuel), List.getElem_cons_zero, store, hc]
        rfl
      | succ k =>
        have hlt := index.toUInt64.toNat_lt
        have hone : sizeAdd i 1 = i + 1 := Nat.mod_eq_of_lt (by omega)
        rw [List.getElem_cons_succ] at hc
        rw [if_neg (by omega), load, hq, Except.ok_bind, hone,
          ih hrest (Nat.lt_of_succ_lt_succ hk) (by omega) hc, List.getElem_cons_succ]
        simp only [Nat.succ_lt_succ_iff]

/-- Beyond the end, nothing is set. -/
theorem setLoop_beyond (hl : Forward list.heap 0 l) (hi : i + l.length ≤ index.toUInt64.toNat) :
    list.setLoop index value fuel (headAddr 0 l) i = if l.length < fuel then .ok (0, list) else .error .rounds := by
  induction l generalizing fuel i with
  | nil => cases fuel <;> rfl
  | cons x l ih =>
    obtain ⟨p, v⟩ := x
    obtain ⟨hp, ⟨q, hq⟩, hrest⟩ := hl
    rw [List.length_cons] at hi
    cases fuel with
    | zero => rfl
    | succ fuel =>
      have hlt := index.toUInt64.toNat_lt
      have hone : sizeAdd i 1 = i + 1 := Nat.mod_eq_of_lt (by omega)
      rw [headAddr_cons, setLoop, if_neg hp, if_neg (by omega), load, hq, Except.ok_bind, hone,
        ih hrest (by omega)]
      simp only [List.length_cons, Nat.succ_lt_succ_iff]

theorem lastLoop_spec (hl : Forward list.heap 0 l) (hne : l ≠ []) :
    list.lastLoop fuel (headAddr 0 l) = if l.length ≤ fuel then .ok (l.getLast hne).2 else .error .rounds := by
  induction l generalizing fuel with
  | nil => exact absurd rfl hne
  | cons x l ih =>
    obtain ⟨p, v⟩ := x
    obtain ⟨hp, ⟨q, hq⟩, hrest⟩ := hl
    cases fuel with
    | zero => rfl
    | succ fuel =>
      rw [headAddr_cons, lastLoop, load, hq, Except.ok_bind]
      cases l with
      | nil => exact (if_neg (not_not.mpr rfl)).trans (if_pos (Nat.succ_pos fuel)).symm
      | cons y l =>
        rw [if_pos (hrest.headAddr_ne (List.cons_ne_nil y l)), ih hrest (List.cons_ne_nil y l),
          List.getLast_cons (List.cons_ne_nil y l)]
        simp only [List.length_cons, Nat.succ_le_succ_iff]

theorem eachLoop_spec {callback : Nat → σ → σ} {ctx : σ} (hl : Forward list.heap 0 l) :
    list.eachLoop callback fuel (headAddr 0 l) ctx = if l.length < fuel then
      .ok ((l.map (·.2)).foldl (fun ctx value => callback value ctx) ctx) else .error .rounds := by
  induction l generalizing fuel ctx with
  | nil => cases fuel <;> rfl
  | cons x l ih =>
    obtain ⟨p, v⟩ := x
    obtain ⟨hp, ⟨q, hq⟩, hrest⟩ := hl
    cases fuel with
    | zero => rfl
    | succ fuel =>
      rw [headAddr_cons, eachLoop, if_neg hp, load, hq, Except.ok_bind, ih hrest]
      simp only [List.length_cons, Nat.succ_lt_succ_iff, List.map_cons, List.foldl_cons]

/-- No item is read after it is freed, and each item is freed. -/
theorem destroyLoop_spec (hl : Forward list.heap 0 l) : ∃ list', (∀ p ∈ l.map (·.1), list'.heap p = none) ∧
    (∀ p ∉ l.map (·.1), list'.heap p = list.heap p) ∧
    ∀ fuel, destroyLoop fuel list (headAddr 0 l) = if l.length < fuel then .ok list' else .error .rounds := by
  induction l generalizing list with
  | nil => exact ⟨list, fun _ hp => absurd hp List.not_mem_nil, fun _ _ => rfl, fun fuel => by cases fuel <;> rfl⟩
  | cons x l ih =>
    obtain ⟨p, v⟩ := x
    have hnodup := hl.nodup
    rw [List.map_cons, List.nodup_cons] at hnodup
    obtain ⟨hp, ⟨q, hq⟩, hrest⟩ := hl
    obtain ⟨list', hin, hout, hloop⟩ := @ih (list.free p) (hrest.update hnodup.1)
    have hfree : list'.heap p = none := (hout p hnodup.1).trans (Function.update_self ..)
    refine ⟨list', List.forall_mem_cons.mpr ⟨hfree, hin⟩, fun r hr => ?_, fun fuel => ?_⟩
    · rw [List.map_cons, List.mem_cons, not_or] at hr
      exact (hout r hr.2).trans (Function.update_of_ne hr.1 ..)
    · cases fuel with
      | zero => rfl
      | succ fuel =>
        rw [headAddr_cons, destroyLoop, if_neg hp, load, hq, Except.ok_bind, hloop]
        simp only [List.length_cons, Nat.succ_lt_succ_iff]

/-! ## The calls -/

theorem Queue.length_le (h : list.Queue nodes) : nodes.length ≤ 2 ^ 60 := forward_length_le h.forward h.addressed

theorem append_queue (h : list.Queue nodes) (hfresh : list.Grants (.append value (some (p, junk)))) :
    ∃ list', list.append value (some (p, junk)) = .ok (value, list') ∧ list'.Queue (nodes ++ [(p, value)]) := by
  obtain ⟨hfree, hne, halign, hsize⟩ := hfresh
  have hout : p ∉ nodes.map (·.1) := by
    intro hp
    obtain ⟨x, hx, rfl⟩ := List.mem_map.mp hp
    exact absurd (h.forward.mem x hx).2 (by rw [hfree]; exact Bool.false_ne_true)
  have hle := h.length_le
  have hlen : sizeAdd list.length 1 = (nodes ++ [(p, value)]).length := by
    rw [h.length, List.length_append, List.length_singleton]
    exact Nat.mod_eq_of_lt (by omega)
  obtain ⟨heap, heq⟩ : ∃ heap, heap = Function.update list.heap p (some { junk with value, next := 0 }) := ⟨_, rfl⟩
  have hnew : heap p = some { junk with value, next := 0 } := by rw [heq, Function.update_self]
  have hforward : Forward heap 0 nodes := heq ▸ h.forward.update hout
  have haddr : PattyList.Addressed { list with heap } := h.addressed.update (fun _ => ⟨halign, hsize⟩) heq
  have hown : ∀ r, (heap r).isSome → r ∈ (nodes ++ [(p, value)]).map (·.1) := by
    intro r hr
    rw [List.map_append, List.mem_append]
    rcases eq_or_ne r p with rfl | hrp
    · exact .inr (List.mem_singleton_self r)
    · rw [heq, Function.update_of_ne hrp] at hr
      exact .inl (h.own r hr)
  rw [append]
  dsimp only
  rw [← heq]
  rcases List.eq_nil_or_concat nodes with rfl | ⟨init, ⟨q, u⟩, rfl⟩
  · have hfirst : list.first = 0 := h.first
    rw [if_pos hfirst]
    exact ⟨_, rfl, ⟨hne, ⟨junk.prev, hnew⟩, trivial⟩, rfl, rfl, hlen, hown, haddr⟩
  · rw [List.concat_eq_append] at *
    have hfirst : list.first ≠ 0 := by
      rw [h.first]
      exact h.forward.headAddr_ne (by simp)
    have hlast : list.last = q := h.last.trans lastAddr_concat
    obtain ⟨hinit, hq, r, hr⟩ := forward_concat.mp hforward
    have hqp : p ≠ q := fun heq => hout (by rw [heq]; simp)
    have hqinit : q ∉ init.map (·.1) := by
      have hnodup := h.forward.nodup
      rw [List.map_append, List.nodup_append] at hnodup
      exact fun hmem => hnodup.2.2 q hmem q (List.mem_singleton_self q) rfl
    rw [if_neg hfirst, hlast, store]
    dsimp only
    rw [hr]
    refine ⟨_, rfl, forward_concat.mpr ⟨forward_concat.mpr ⟨hinit.update hqinit, hq, r, ?_⟩, hne, junk.prev, ?_⟩,
      ?_, lastAddr_concat.symm, hlen, ?_, ?_⟩
    · exact Function.update_self ..
    · exact (Function.update_of_ne hqp ..).trans hnew
    · dsimp only
      rw [h.first]
      cases init <;> rfl
    · intro t ht
      refine hown t ?_
      rcases eq_or_ne t q with rfl | htq
      · rw [hr]
        rfl
      · exact (congrArg Option.isSome (Function.update_of_ne htq ..)).symm.trans ht
    · exact haddr.update (fun _ => haddr q (by dsimp only; rw [hr]; rfl)) rfl

theorem shift_queue (h : list.Queue nodes) : ∃ list',
    list.shift = .ok ((nodes.map (·.2)).head?.getD 0, list') ∧ list'.Queue nodes.tail := by
  cases nodes with
  | nil =>
    have hfirst : list.first = 0 := h.first
    rw [shift]
    dsimp only
    rw [if_pos hfirst]
    exact ⟨list, rfl, h⟩
  | cons x rest =>
    obtain ⟨p, v⟩ := x
    have hle := h.length_le
    rw [List.length_cons] at hle
    have hlen : sizeSub list.length 1 = rest.length := by
      rw [h.length, sizeSub, List.length_cons]
      omega
    have hfirst : list.first = p := h.first
    have hnodup := h.forward.nodup
    rw [List.map_cons, List.nodup_cons] at hnodup
    obtain ⟨hp, ⟨r, hr⟩, hforward⟩ := h.forward
    have hown {heap : Heap Nat} (hsub : ∀ t, (heap t).isSome → t ≠ p ∧ (list.heap t).isSome) :
        ∀ t, (heap t).isSome → t ∈ rest.map (·.1) := by
      intro t ht
      obtain ⟨hne, ht⟩ := hsub t ht
      exact (List.mem_cons.mp (h.own t ht)).resolve_left hne
    have hgone {heap : Heap Nat} {t : Nat} (ht : (Function.update heap p none t).isSome) :
        t ≠ p ∧ (heap t).isSome := by
      have hne : t ≠ p := by
        rintro rfl
        rw [Function.update_self] at ht
        cases ht
      rw [Function.update_of_ne hne] at ht
      exact ⟨hne, ht⟩
    cases rest with
    | nil =>
      refine ⟨⟨Function.update list.heap p none, sizeSub list.length 1, 0, 0⟩, ?_, trivial, rfl, rfl, hlen,
        hown fun t ht => hgone ht, h.addressed.update (by simp) rfl⟩
      simp [shift, hfirst, hp, load, hr, free, Except.ok_bind]
    | cons y rest =>
      obtain ⟨q, u⟩ := y
      obtain ⟨hq, ⟨s, hs⟩, -⟩ := id hforward
      have hne : q ≠ p := by
        rintro rfl
        exact hnodup.1 List.mem_cons_self
      refine ⟨⟨Function.update (Function.update list.heap q (some ⟨0, headAddr 0 rest, u⟩)) p none,
        sizeSub list.length 1, q, list.last⟩, ?_, (hforward.relink hs 0).update hnodup.1, rfl, h.last, hlen,
        hown fun t ht => ?_, ?_⟩
      · simp [shift, hfirst, hp, load, store, hr, hq, hs, Function.update_of_ne hne.symm, free, Except.ok_bind]
      · obtain ⟨htp, ht⟩ := hgone ht
        refine ⟨htp, ?_⟩
        rcases eq_or_ne t q with rfl | htq
        · rw [hs]
          rfl
        · rw [Function.update_of_ne htq] at ht
          exact ht
      · have hrelinked : PattyList.Addressed
            { list with heap := Function.update list.heap q (some ⟨0, headAddr 0 rest, u⟩) } :=
          h.addressed.update (fun _ => h.addressed q (by rw [hs]; rfl)) rfl
        exact hrelinked.update (by simp) rfl

/-- A loop with enough rounds comes to `a`, and to nothing else. -/
def Settles {α : Type} (f : Nat → Except Halt α) (a : α) : Prop :=
  (∃ fuel, f fuel = .ok a) ∧ ∀ fuel b, f fuel = .ok b → b = a

theorem Settles.const {α : Type} {a : α} : Settles (fun _ => .ok a) a := ⟨⟨0, rfl⟩, fun _ _ h => (Except.ok.inj h).symm⟩

theorem Settles.rounds {α : Type} {f : Nat → Except Halt α} {a : α} (n : Nat)
    (h : ∀ fuel, f fuel = if n < fuel then .ok a else .error .rounds) : Settles f a := by
  refine ⟨⟨n + 1, (h _).trans (if_pos (Nat.lt_succ_self n))⟩, fun fuel b hb => ?_⟩
  rw [h] at hb
  split at hb
  · exact (Except.ok.inj hb).symm
  · cases hb

theorem Settles.map {α β : Type} {f : Nat → Except Halt α} {a : α} (h : Settles f a) (g : α → β) :
    Settles (fun fuel => g <$> f fuel) (g a) := by
  obtain ⟨⟨n, hn⟩, hone⟩ := h
  refine ⟨⟨n, congrArg (g <$> ·) hn⟩, fun fuel b hb => ?_⟩
  dsimp only at hb
  cases hf : f fuel with
  | error e =>
    rw [hf] at hb
    cases hb
  | ok c =>
    rw [hf] at hb
    cases hb
    rw [hone fuel c hf]

/-- A negative index, compared as a `size_t`, is past the end. -/
theorem le_toUInt64 (hn : list.length ≤ 2 ^ 60) (h : ¬(0 ≤ index.toInt ∧ index.toInt < list.length)) :
    list.length ≤ index.toUInt64.toNat := by
  have hnat : index.toInt = if 2 * index.toUInt64.toNat < 2 ^ 64 then (index.toUInt64.toNat : Int)
      else index.toUInt64.toNat - (2 ^ 64 : Nat) := BitVec.toInt_eq_toNat_cond _
  split at hnat <;> omega

theorem set_queue (h : list.Queue nodes) : ∃ ret list' seq', (QueueCall.set index value).spec (nodes.map (·.2)) =
    some (ret, seq') ∧ Settles (fun fuel => list.set fuel index value) (ret, list') ∧ list'.Queues seq' := by
  have hle : list.length ≤ 2 ^ 60 := h.length ▸ h.length_le
  by_cases hin : 0 ≤ index.toInt ∧ index.toInt < list.length
  · obtain ⟨k, hk⟩ : ∃ k, k = index.toInt.toNat := ⟨_, rfl⟩
    have hlt : k < nodes.length := by
      rw [← h.length]
      omega
    have hidx : index.toUInt64.toNat = 0 + k := by rw [toNat_toUInt64 hin.1, hk, Nat.zero_add]
    obtain ⟨c, hc, hforward⟩ := h.forward.set hlt value
    have hspec : (QueueCall.set index value).spec (nodes.map (·.2)) =
        some (value, (nodes.map (·.2)).set k value) := by
      rw [QueueCall.spec, List.length_map, ← h.length, if_pos hin, hk]
    have haddrs := map_set_addr hlt value
    refine ⟨value, { list with heap := Function.update list.heap nodes[k].1 (some { c with value }) }, _, hspec,
      .rounds k fun fuel => ?_, nodes.set k (nodes[k].1, value), ⟨hforward, ?_, ?_, ?_, ?_, ?_⟩, List.map_set ..⟩
    · have hloop : list.setLoop index value fuel _ _ = _ := setLoop_inside h.forward hlt hidx hc
      rw [← h.first] at hloop
      exact hloop
    · exact h.first.trans (headAddr_congr haddrs.symm)
    · exact h.last.trans (lastAddr_congr haddrs.symm)
    · rw [List.length_set]
      exact h.length
    · intro t ht
      rw [haddrs]
      rcases eq_or_ne t nodes[k].1 with rfl | hne
      · exact List.mem_map_of_mem (List.getElem_mem hlt)
      · exact h.own t ((congrArg Option.isSome (Function.update_of_ne hne ..)).symm.trans ht)
    · exact h.addressed.update (fun _ => h.addressed _ (by rw [hc]; rfl)) rfl
  · have hspec : (QueueCall.set index value).spec (nodes.map (·.2)) = some (0, nodes.map (·.2)) := by
      rw [QueueCall.spec, List.length_map, ← h.length, if_neg hin]
    refine ⟨_, _, _, hspec, .rounds nodes.length fun fuel => ?_, nodes, h, rfl⟩
    rw [set, h.first]
    refine setLoop_beyond h.forward ?_
    rw [Nat.zero_add, ← h.length]
    exact le_toUInt64 hle hin

/-- The index that is looked under, once it counts from the front. -/
theorem toInt_fromEnd (hn : list.length ≤ 2 ^ 60) :
    (if index < 0 then index + Int64.ofNat list.length else index).toInt = fromEnd index list.length := by
  rw [fromEnd]
  split_ifs with hneg
  · have hlow := index.le_toInt
    rw [neg_iff] at hneg
    rw [Int64.toInt_add, Int64.toInt_ofNat_of_lt (by omega)]
    exact Int.bmod_eq_of_le (by omega) (by omega)
  · rfl

theorem index_queue (h : list.Queue nodes) : ∃ ret, (QueueCall.index index).spec (nodes.map (·.2)) =
    some (ret, nodes.map (·.2)) ∧ Settles (fun fuel => list.index fuel index) ret := by
  have hle : list.length ≤ 2 ^ 60 := h.length ▸ h.length_le
  refine ⟨_, rfl, ?_⟩
  have hfrom : _ = fromEnd index list.length := toInt_fromEnd hle
  rw [List.length_map, ← h.length]
  simp only [PattyList.index]
  obtain ⟨j, hj⟩ : ∃ j, j = if index < 0 then index + Int64.ofNat list.length else index := ⟨_, rfl⟩
  rw [← hj] at hfrom ⊢
  rw [← hfrom]
  by_cases hin : 0 ≤ j.toInt ∧ j.toInt < list.length
  · have hlt : j.toInt.toNat < nodes.length := by
      rw [← h.length]
      omega
    have hidx := toNat_toUInt64 hin.1
    have hneg : ¬(list.length ≤ j.toUInt64.toNat ∨ j < 0) := by
      rw [neg_iff]
      omega
    rw [if_pos hin.1, List.getElem?_map, List.getElem?_eq_getElem hlt]
    refine .rounds j.toInt.toNat fun fuel => ?_
    rw [if_neg hneg, h.first]
    exact indexLoop_spec h.forward hlt (by rw [hidx, Nat.zero_add])
  · have hzero : (if 0 ≤ j.toInt then (nodes.map (·.2))[j.toInt.toNat]?.getD 0 else 0) = 0 := by
      split_ifs with hpos
      · rw [List.getElem?_eq_none]
        · rfl
        · rw [List.length_map, ← h.length]
          omega
      · rfl
    rw [hzero]
    simp only [if_pos (Or.inl (le_toUInt64 hle hin) : list.length ≤ j.toUInt64.toNat ∨ j < 0)]
    exact .const

theorem last_queue (h : list.Queue nodes) (hne : nodes ≠ []) :
    Settles list.listLast (nodes.getLast hne).2 := by
  refine .rounds (nodes.length - 1) fun fuel => ?_
  have hpos := List.length_pos_iff.mpr hne
  rw [listLast, h.first, lastLoop_spec h.forward hne]
  congr 1
  exact propext (by omega)

theorem last_empty (h : list.Queue []) : list.listLast fuel ≠ .ok value := by
  intro hlast
  have hfirst : list.first = 0 := h.first
  have hnone : list.heap 0 = none := by
    cases hheap : list.heap 0 with
    | none => rfl
    | some c => exact absurd (h.own 0 (by rw [hheap]; rfl)) List.not_mem_nil
  rw [listLast, hfirst] at hlast
  cases fuel with
  | zero => cases hlast
  | succ fuel =>
    rw [lastLoop, load, hnone] at hlast
    cases hlast

theorem each_queue {callback : Nat → σ → σ} {ctx : σ} (h : list.Queues seq) :
    Settles (fun fuel => list.each fuel callback ctx) (seq.foldl (fun ctx value => callback value ctx) ctx) := by
  obtain ⟨nodes, hnodes, rfl⟩ := h
  refine .rounds nodes.length fun fuel => ?_
  rw [each, hnodes.first]
  exact eachLoop_spec hnodes.forward

theorem destroy_queue (h : list.Queues seq) :
    ∃ list', Settles list.destroy list' ∧ ∀ p, list'.heap p = none := by
  obtain ⟨nodes, hnodes, rfl⟩ := h
  obtain ⟨list', hin, hout, hloop⟩ := destroyLoop_spec hnodes.forward
  refine ⟨list', .rounds nodes.length fun fuel => ?_, fun p => ?_⟩
  · rw [destroy, hnodes.first]
    exact hloop fuel
  · by_cases hp : p ∈ nodes.map (·.1)
    · exact hin p hp
    · rw [hout p hp]
      exact Option.not_isSome_iff_eq_none.mp fun hsome => hp (hnodes.own p hsome)

/-- What a call comes to on a queue: what it comes to on the sequence, or to nothing where that has no answer. -/
theorem Queues.answers (h : list.Queues seq) {call : QueueCall} (hgrants : list.Grants call) :
    match call.spec seq with
    | none => ∀ ret list', ¬list.Gives call ret list'
    | some (ret, seq') => ∃ list', list'.Queues seq' ∧
        Settles (fun fuel => list.runQueue fuel call) (ret, list') := by
  obtain ⟨nodes, hnodes, rfl⟩ := id h
  cases call with
  | append value fresh =>
    cases fresh with
    | none => exact ⟨list, h, .const⟩
    | some fresh =>
      obtain ⟨p, junk⟩ := fresh
      obtain ⟨list', happend, hqueue⟩ := append_queue hnodes hgrants
      exact ⟨list', ⟨_, hqueue, List.map_append⟩, by simp only [runQueue, happend]; exact .const⟩
  | shift =>
    obtain ⟨list', hshift, hqueue⟩ := shift_queue hnodes
    exact ⟨list', ⟨_, hqueue, List.map_tail⟩, by simp only [runQueue, hshift]; exact .const⟩
  | set i value =>
    obtain ⟨ret, list', seq', hspec, hset, hqueue⟩ := set_queue hnodes
    rw [hspec]
    exact ⟨list', hqueue, hset⟩
  | index i =>
    obtain ⟨ret, hspec, hindex⟩ := index_queue hnodes
    rw [hspec]
    exact ⟨list, h, hindex.map (·, list)⟩
  | last =>
    rcases eq_or_ne nodes [] with rfl | hne
    · rintro ret list' ⟨fuel, hfuel⟩
      cases hlast : list.listLast fuel with
      | error e =>
        rw [runQueue, hlast] at hfuel
        cases hfuel
      | ok value => exact last_empty hnodes hlast
    · have hspec : QueueCall.last.spec (nodes.map (·.2)) = some ((nodes.getLast hne).2, nodes.map (·.2)) := by
        rw [QueueCall.spec, List.getLast?_map, List.getLast?_eq_some_getLast hne]
        rfl
      rw [hspec]
      exact ⟨list, h, (last_queue hnodes hne).map (·, list)⟩

end PattyList

/-! ## Runs -/

/-- A list, and the sequence that the same calls make. -/
structure Queued where
  list : PattyList
  seq : List Nat

/-- A call that returns, on both. -/
def QueueStep (s : Queued) (call : QueueCall) (s' : Queued) : Prop :=
  s.list.Grants call ∧ ∃ ret ret', s.list.Gives call ret s'.list ∧ call.spec s.seq = some (ret', s'.seq)

/-- Each call on the list comes to what it comes to on the sequence, or does not return where that has no answer. -/
def Queued.Answers (s : Queued) : Prop := ∀ call, s.list.Grants call → match call.spec s.seq with
  | none => ∀ ret list', ¬s.list.Gives call ret list'
  | some (ret, _) => ∃ list', PattyList.Settles (fun fuel => s.list.runQueue fuel call) (ret, list')

theorem new_queues : PattyList.new.Queues [] :=
  ⟨[], ⟨trivial, rfl, rfl, rfl, fun _ h => absurd h Bool.false_ne_true, fun _ h => absurd h Bool.false_ne_true⟩, rfl⟩

theorem queues_step {s s' : Queued} {call : QueueCall} (h : s.list.Queues s.seq) (hstep : QueueStep s call s') :
    s'.list.Queues s'.seq := by
  obtain ⟨hgrants, ret, ret', ⟨fuel, hfuel⟩, hspec⟩ := hstep
  have hcall := h.answers hgrants
  rw [hspec] at hcall
  obtain ⟨list', hqueue, -, hone⟩ := hcall
  obtain ⟨-, rfl⟩ := Prod.mk.inj (hone fuel _ hfuel)
  exact hqueue

/-- Whatever calls were made on a new list that do not look at `prev`, and whatever the memory of its items held,
the list is a queue: each call answers as on the sequence, `patty_list_each` goes through it in order, and
`patty_list_destroy` leaves no item. -/
theorem queue_run {s : Queued} (h : Run QueueStep (fun _ _ => True) ⟨.new, []⟩ s) :
    s.Answers ∧ s.list.length = s.seq.length ∧
    (∀ (σ : Type) (callback : Nat → σ → σ) (ctx : σ), PattyList.Settles (fun fuel => s.list.each fuel callback ctx)
      (s.seq.foldl (fun ctx value => callback value ctx) ctx)) ∧
    ∃ list', PattyList.Settles s.list.destroy list' ∧ ∀ p, list'.heap p = none := by
  have hqueues : s.list.Queues s.seq :=
    h.invariant (I := fun s => s.list.Queues s.seq) (fun _ _ _ hs _ => queues_step hs) new_queues
  refine ⟨fun call hgrants => ?_, ?_, fun σ callback ctx => PattyList.each_queue hqueues,
    PattyList.destroy_queue hqueues⟩
  · have hcall := hqueues.answers hgrants
    split
    · rename_i hspec
      rw [hspec] at hcall
      exact hcall
    · rename_i hspec
      rw [hspec] at hcall
      exact hcall.imp fun _ h => h.2
  · obtain ⟨nodes, hnodes, hseq⟩ := hqueues
    rw [hnodes.length, ← hseq, List.length_map]

/-- A value that is appended to a new list, in memory that held something else. -/
theorem queue_run_append : ∃ list, (⟨list, [7]⟩ : Queued).Answers := by
  have hstep : QueueStep ⟨.new, []⟩ (.append 7 (some (16, ⟨48, 0, 0⟩))) ⟨_, [7]⟩ :=
    ⟨⟨rfl, by decide, by decide, by decide⟩, 7, 7, ⟨0, rfl⟩, rfl⟩
  exact ⟨_, (queue_run (.single trivial hstep)).1⟩

end Patty
