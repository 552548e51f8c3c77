import Patty.Receive
import Patty.Slots

/-! # What an acknowledgement marks (`sock.c`)

`patty_ax25_sock_ack` marks the slots from V(A) up to N(R), and moves V(A) behind the last one it marks.
It does not look at V(S): an N(R) from V(A) up to V(S) is taken as it should be, while any other one
acknowledges all that is outstanding (`ackExact_iff`). -/

namespace Patty

/-- What a slot has in memory. -/
structure StoredSlot where
  len : Nat
  ack : Bool
  data : Bytes

/-- Something is stored that was not acknowledged. -/
def StoredSlot.waits (x : StoredSlot) : Bool := 0 < x.len && !x.ack

/-- `slot->ack = 1` -/
def StoredSlot.marked (x : StoredSlot) : StoredSlot := { x with ack := true }

namespace Sock

/-- The slot at an offset. -/
def storedAt (m : Mem) (off : Nat) : StoredSlot := ⟨slotLen m off, slotAck m off, slotData m off⟩

/-- The slot for a sequence number. -/
def stored (s : Sock) (seq : Nat) : StoredSlot :=
  match s.txSlots with
  | none => ⟨0, false, []⟩
  | some buf => storedAt buf.mem (s.txSeq seq * s.txSlotSize)

/-- How many numbers are outstanding. -/
def inFlight (s : Sock) : Nat := Ring.dist s.slots s.va s.vs

/-- The slots from V(A) up to V(S) wait to be acknowledged, and no others. -/
structure InFlight (s : Sock) (buf : Buf) : Prop where
  type : s.type = .stream
  mode : s.mode = .sabm ∨ s.mode = .sabme
  slots : s.HasSlots buf
  va : s.va < s.slots
  vs : s.vs < s.slots
  waits : ∀ j, j < s.slots → (s.stored j).waits = decide (s.acks j < s.inFlight)

/-- N(R) is taken exactly: if it is between V(A) and V(S), the slots before it are acknowledged and V(A)
is set to it, and if not, nothing is acknowledged; neither lengths nor payloads change. -/
def AckExact (s : Sock) (nr : Nat) : Prop :=
  ∃ ret s', s.ack nr = .ok (ret, s') ∧
    (∀ j, j < s.slots → (s'.stored j).len = (s.stored j).len ∧ (s'.stored j).data = (s.stored j).data) ∧
    if s.acks nr ≤ s.inFlight then
      s'.va = nr ∧ ∀ j, j < s.slots →
        (s'.stored j).ack = (decide (s.acks j < s.acks nr) || (s.stored j).ack)
    else s'.va = s.va ∧ ∀ j, j < s.slots → (s'.stored j).ack = (s.stored j).ack

variable {s : Sock} {buf : Buf} {m m' : Mem} {off n d i ret seq nr : Nat}

/-! ## Marking a slot -/

theorem storedAt_congr (hlen : slotLen m off ≤ n) (h : ∀ a, off ≤ a → a < off + (16 + n) → m' a = m a) :
    storedAt m' off = storedAt m off := by
  have hl : slotLen m' off = slotLen m off := slotLen_congr fun a h1 h2 => h a h1 (by omega)
  have ha : slotAck m' off = slotAck m off := by
    rw [slotAck, slotAck, Mem.read_congr fun a h1 h2 => h a (by omega) (by omega)]
  have hd : slotData m' off = slotData m off := by
    rw [slotData, slotData, hl, Mem.read_congr fun a h1 h2 => h a (by omega) (by omega)]
  rw [storedAt, storedAt, hl, ha, hd]

/-- Length and payload stay. -/
theorem storedAt_mark : storedAt (slotMark m off) off = (storedAt m off).marked := by
  have hd : slotData (slotMark m off) off = slotData m off := by
    rw [slotData, slotData, slotLen_mark, slotMark, Mem.read_store_disjoint (by simp)]
  simp only [storedAt, StoredSlot.marked, slotLen_mark, slotAck_mark, hd]

namespace HasSlots

theorem stored_eq (H : s.HasSlots buf) (seq : Nat) :
    s.stored seq = storedAt buf.mem (s.txSeq seq * (16 + s.nMaxlenTx)) := by
  simp only [stored, H.array, H.txSlotSize]

theorem stored_congr {j : Nat} (h : s.txSeq i = s.txSeq j) : s.stored i = s.stored j := by
  simp only [stored, h]

/-- Marking the slot of `i` leaves the others. -/
theorem mark (H : s.HasSlots buf) (i va : Nat) : ∃ buf',
    { s.setSlots buf (slotMark buf.mem (s.txSeq i * (16 + s.nMaxlenTx))) with va } =
        { s with txSlots := some buf', va } ∧
      { s with txSlots := some buf', va }.HasSlots buf' ∧ ∀ j, j < s.slots →
        { s with txSlots := some buf', va }.stored j =
          if j = s.txSeq i then (s.stored j).marked else s.stored j := by
  have hout : ∀ a, a < s.txSeq i * (16 + s.nMaxlenTx) ∨
      s.txSeq i * (16 + s.nMaxlenTx) + (16 + s.nMaxlenTx) ≤ a →
      slotMark buf.mem (s.txSeq i * (16 + s.nMaxlenTx)) a = buf.mem a := fun a ha => slotMark_apply (by omega)
  obtain ⟨H', -⟩ := H.update (slotMark buf.mem (s.txSeq i * (16 + s.nMaxlenTx))) (s.txSeq_lt i) hout
    (by rw [slotLen_mark]; exact H.short _ (s.txSeq_lt i))
  have H'' : { s with txSlots := some { buf with mem := slotMark buf.mem (s.txSeq i * (16 + s.nMaxlenTx)) }
                      va }.HasSlots _ := ⟨⟨rfl, H'.small, H'.size⟩, H'.short⟩
  refine ⟨_, rfl, H'', fun j hj => ?_⟩
  have hseq : Sock.txSeq { s with txSlots := some { buf with
      mem := slotMark buf.mem (s.txSeq i * (16 + s.nMaxlenTx)) }, va } j = j := txSeq_of_lt (s := s) hj
  rw [H''.stored_eq, H.stored_eq, hseq, txSeq_of_lt hj]
  dsimp only
  split
  · subst j
    exact storedAt_mark
  · rename_i hne
    have hapart := slot_disjoint (z := 16 + s.nMaxlenTx) hne
    exact storedAt_congr (H.short j hj) fun a h1 h2 => hout a (by omega)

theorem ackLoop_eq_ite (H : s.HasSlots buf) (n i ret : Nat) : s.ackLoop (n + 1) i ret =
    if (s.stored i).waits then Sock.ackLoop n (i + 1) (ret + 1)
      { s.setSlots buf (slotMark buf.mem (s.txSeq i * (16 + s.nMaxlenTx))) with va := s.txSeq (i + 1) }
    else s.ackLoop n (i + 1) ret := by
  simp only [Sock.ackLoop, H.txSlot, bind, Except.bind, H.stored_eq, storedAt, StoredSlot.waits]

/-- The loop over a range whose first `d` slots are those that wait. -/
theorem ackLoop_marks (H : s.HasSlots buf) (hn : n ≤ s.slots) (hd : d ≤ n)
    (hwaits : ∀ k, k < n → (s.stored (i + k)).waits = decide (k < d)) : ∃ buf',
    s.ackLoop n i ret =
        .ok (ret + d, { s with txSlots := some buf', va := if d = 0 then s.va else s.txSeq (i + d) }) ∧
      ∀ va j, j < s.slots → { s with txSlots := some buf', va }.stored j =
        if ∃ k < d, s.txSeq (i + k) = j then (s.stored j).marked else s.stored j := by
  induction n generalizing s buf i ret d with
  | zero =>
    obtain rfl : d = 0 := by omega
    refine ⟨buf, ?_, fun va j _ => ?_⟩
    · rw [← H.array]
      rfl
    · rw [if_neg (by simp), ← H.array]
      rfl
  | succ n ih =>
    rw [H.ackLoop_eq_ite, show s.stored i = s.stored (i + 0) from rfl, hwaits 0 (Nat.succ_pos n)]
    cases d with
    | zero =>
      rw [if_neg (by simp)]
      exact ih H (by omega) (Nat.zero_le n) fun k hk => by
        rw [show i + 1 + k = i + (k + 1) by omega, hwaits (k + 1) (by omega)]
        simp
    | succ d =>
      obtain ⟨buf₁, heq, H₁, hmark⟩ := H.mark i (s.txSeq (i + 1))
      rw [if_pos (by simp), heq]
      -- the numbers that follow have other slots
      have hother (k : Nat) (hk : k < n) : s.txSeq (i + 1 + k) ≠ s.txSeq i := by
        intro he
        have := Ring.eq_of_mod_eq he.symm (by omega) (by omega)
        omega
      have hwaits₁ (k : Nat) (hk : k < n) : (Sock.stored { s with
          txSlots := some buf₁, va := s.txSeq (i + 1) } (i + 1 + k)).waits = decide (k < d) := by
        have hslot := hmark (s.txSeq (i + 1 + k)) (s.txSeq_lt _)
        rw [if_neg (hother k hk), stored_congr (s.txSeq_txSeq _)] at hslot
        rw [← stored_congr (Sock.txSeq_txSeq { s with txSlots := some buf₁, va := s.txSeq (i + 1) } _)]
        refine (congrArg StoredSlot.waits hslot).trans ?_
        rw [show i + 1 + k = i + (k + 1) by omega, hwaits (k + 1) (by omega)]
        simp
      obtain ⟨buf₂, hrun, hmarks⟩ := ih H₁ (show n ≤ s.slots by omega) (show d ≤ n by omega) hwaits₁
      refine ⟨buf₂, hrun.trans ?_, fun va j hj => ?_⟩
      · have hva : (if d = 0 then s.txSeq (i + 1) else s.txSeq (i + 1 + d)) = s.txSeq (i + (d + 1)) := by
          split
          · subst d
            rfl
          · rw [show i + 1 + d = i + (d + 1) by omega]
        rw [if_neg (Nat.succ_ne_zero d), ← hva, show ret + (d + 1) = ret + 1 + d by omega]
        rfl
      · have hnext : (∃ k < d + 1, s.txSeq (i + k) = j) ↔
            (∃ k < d, s.txSeq (i + 1 + k) = j) ∨ j = s.txSeq i := by
          constructor
          · rintro ⟨k, hk, he⟩
            cases k with
            | zero => exact .inr he.symm
            | succ k => exact .inl ⟨k, by omega, by rw [← he, show i + 1 + k = i + (k + 1) by omega]⟩
          · rintro (⟨k, hk, he⟩ | he)
            · exact ⟨k + 1, by omega, by rw [← he, show i + 1 + k = i + (k + 1) by omega]⟩
            · exact ⟨0, Nat.succ_pos d, he.symm⟩
        refine (hmarks va j hj).trans ?_
        by_cases hlater : ∃ k < d, s.txSeq (i + 1 + k) = j
        · rw [if_pos (hnext.mpr (.inl hlater))]
          refine (if_pos hlater).trans ?_
          rw [hmark j hj]
          split <;> rfl
        · refine (if_neg hlater).trans ((hmark j hj).trans ?_)
          exact if_congr (hnext.trans (or_iff_right hlater)).symm rfl rfl

end HasSlots

/-! ## Acknowledging -/

namespace InFlight

theorem add_acks (H : s.InFlight buf) (hnr : nr < s.slots) : s.txSeq (s.va + s.acks nr) = nr :=
  Ring.add_dist H.va hnr

theorem acks_add (H : s.InFlight buf) {k : Nat} (hk : k < s.slots) : s.acks (s.txSeq (s.va + k)) = k :=
  Ring.dist_add H.va hk

/-- The numbers up to `d` are those of the slots that are no further from V(A). -/
theorem exists_iff (H : s.InFlight buf) {j : Nat} (hd : d ≤ s.slots) (hj : j < s.slots) :
    (∃ k < d, s.txSeq (s.va + k) = j) ↔ s.acks j < d := by
  constructor
  · rintro ⟨k, hk, rfl⟩
    rwa [H.acks_add (by omega)]
  · exact fun hlt => ⟨s.acks j, hlt, H.add_acks hj⟩

theorem eq_zero_iff (H : s.InFlight buf) : s.inFlight = 0 ↔ s.va = s.vs := by
  constructor
  · intro hzero
    have hvs := H.add_acks H.vs
    rwa [show s.acks s.vs = 0 from hzero, Nat.add_zero, txSeq_of_lt H.va] at hvs
  · intro heq
    have hzero := H.acks_add s.slots_pos
    rw [Nat.add_zero, txSeq_of_lt H.va, heq] at hzero
    rw [← hzero, inFlight, acks, heq]

/-- As many are acknowledged as wait, up to N(R), and V(A) is set behind them. -/
theorem ack (H : s.InFlight buf) (hnr : nr < s.slots) : ∃ ret s', s.ack nr = .ok (ret, s') ∧
    s'.va = s.txSeq (s.va + min s.inFlight (s.acks nr)) ∧ ∀ j, j < s.slots →
      s'.stored j = if s.acks j < min s.inFlight (s.acks nr) then (s.stored j).marked else s.stored j := by
  have hle := s.acks_le nr
  by_cases he : s.va = nr
  · have hzero : s.acks nr = 0 := by
      rw [← he, ← txSeq_of_lt H.va]
      exact H.acks_add s.slots_pos
    refine ⟨1, s, by rw [Sock.ack, if_pos he], ?_, fun j _ => ?_⟩
    · rw [hzero, Nat.min_zero, Nat.add_zero, txSeq_of_lt H.va]
    · rw [hzero, Nat.min_zero, if_neg (Nat.not_lt_zero _)]
  · have hn : (if nr < s.va then nr + s.slots else nr) - s.va = s.acks nr := ack_length H.va hnr
    have hwaits (k : Nat) (hk : k < s.acks nr) :
        (s.stored (s.va + k)).waits = decide (k < min s.inFlight (s.acks nr)) := by
      have hwait := H.waits _ (s.txSeq_lt (s.va + k))
      rw [H.acks_add (by omega), HasSlots.stored_congr (s.txSeq_txSeq _)] at hwait
      simp [hwait, hk]
    obtain ⟨buf', hrun, hmarks⟩ := @HasSlots.ackLoop_marks s buf _ _ s.va 0 H.slots hle.le (Nat.min_le_right ..) hwaits
    have hloop : s.ack nr = s.ackLoop (s.acks nr) s.va 0 := by
      rw [Sock.ack, if_neg he]
      simp only [slots_eq, hn]
    refine ⟨_, _, hloop.trans hrun, ?_, fun j hj => ?_⟩
    · dsimp only
      split
      · rename_i hzero
        rw [hzero, Nat.add_zero, txSeq_of_lt H.va]
      · rfl
    · rw [hmarks _ j hj]
      exact if_congr (H.exists_iff ((Nat.min_le_right ..).trans hle.le) hj) rfl rfl

end InFlight

/-- An acknowledgement is exact if and only if its N(R) is between V(A) and V(S), or nothing is
outstanding. -/
theorem ackExact_iff (s : Sock) (buf : Buf) (nr : Nat) (H : s.InFlight buf) (hnr : nr < s.slots) :
    s.AckExact nr ↔ s.acks nr ≤ s.inFlight ∨ s.va = s.vs := by
  obtain ⟨ret, s', hrun, hva, hstored⟩ := H.ack hnr
  have hsame (j : Nat) (hj : j < s.slots) :
      (s'.stored j).len = (s.stored j).len ∧ (s'.stored j).data = (s.stored j).data := by
    rw [hstored j hj]
    split <;> exact ⟨rfl, rfl⟩
  have hack (j : Nat) (hj : j < s.slots) : (s'.stored j).ack =
      (decide (s.acks j < min s.inFlight (s.acks nr)) || (s.stored j).ack) := by
    rw [hstored j hj]
    by_cases hlt : s.acks j < min s.inFlight (s.acks nr)
    · rw [if_pos hlt, decide_eq_true hlt]
      rfl
    · rw [if_neg hlt, decide_eq_false hlt, Bool.false_or]
  by_cases hle : s.acks nr ≤ s.inFlight
  · rw [Nat.min_eq_right hle] at hva hack
    rw [H.add_acks hnr] at hva
    refine iff_of_true ⟨ret, s', hrun, hsame, ?_⟩ (.inl hle)
    rw [if_pos hle]
    exact ⟨hva, hack⟩
  · have hvs : s.inFlight = s.acks s.vs := rfl
    rw [Nat.min_eq_left (by omega)] at hva hack
    rw [hvs, H.add_acks H.vs] at hva
    rw [or_iff_right hle]
    constructor
    · rintro ⟨ret', s'', hrun', -, hcase⟩
      cases hrun.symm.trans hrun'
      rw [if_neg hle, hva] at hcase
      exact hcase.1.symm
    · intro heq
      refine ⟨ret, s', hrun, hsame, ?_⟩
      rw [if_neg hle]
      refine ⟨hva.trans heq.symm, fun j hj => ?_⟩
      rw [hack j hj, H.eq_zero_iff.mpr heq]
      simp

/-! ## A stale acknowledgement -/

/-- A socket that has sent the frames 2 and 3. -/
def sentSock : Sock :=
  { acceptedSock with
    va := 2
    vs := 4
    txSlots := some ⟨8 * 143, fun a => if a = 2 * 143 ∨ a = 3 * 143 then 1 else 0⟩ }

theorem sentSock_inFlight :
    sentSock.InFlight ⟨8 * 143, fun a => if a = 2 * 143 ∨ a = 3 * 143 then 1 else 0⟩ where
  type := rfl
  mode := .inl rfl
  slots := ⟨⟨rfl, by decide, by decide⟩, by decide⟩
  va := by decide
  vs := by decide
  waits := by decide

/-- The first of the two frames is acknowledged. -/
theorem ackExact_first : sentSock.AckExact 3 ↔ sentSock.acks 3 ≤ sentSock.inFlight ∨ sentSock.va = sentSock.vs :=
  ackExact_iff sentSock _ 3 sentSock_inFlight (by decide)

/-- The acknowledgement of a frame before those that are outstanding acknowledges all of them. -/
theorem not_ackExact_stale : ¬∀ (s : Sock) (buf : Buf) (nr : Nat), s.InFlight buf → nr < s.slots →
    s.AckExact nr := by
  intro h
  obtain ⟨ret, s', hrun, -, hcase⟩ := h sentSock _ 1 sentSock_inFlight (by decide)
  have hva : (sentSock.ack 1).toOption.map (·.2.va) = some 4 := by decide
  rw [hrun] at hva
  rw [if_neg (show ¬sentSock.acks 1 ≤ sentSock.inFlight by decide)] at hcase
  cases hcase.1.symm.trans (Option.some.inj hva)

end Sock

end Patty
