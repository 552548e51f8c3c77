import Patty.Lib.Ring
import Patty.Sock

/-! # The transmit slots as cells

`payload seq` is what waits in the slot of a sequence number to be acknowledged. While the array has
room for all the slots of the mode (`HasSlots`), the operations on the slots act on these cells one
by one: saving fills the cell of V(S), acknowledging empties the cells of a range, and clearing
empties all of them. -/

namespace Patty.Sock

/-! ## A slot in memory -/

/-- The payload in the slot at `off`, unless the slot is empty or acknowledged. -/
def cell (m : Mem) (off : Nat) : Option Bytes :=
  if 0 < slotLen m off && !slotAck m off then some (slotData m off) else none

variable {m m' : Mem} {off n i j : Nat} {bs : Bytes}

theorem slotLen_congr (h : ∀ a, off ≤ a → a < off + 16 → m' a = m a) :
    slotLen m' off = slotLen m off := by
  rw [slotLen, slotLen, Mem.read_congr fun a h1 h2 => h a h1 (by omega)]

theorem cell_congr (hlen : slotLen m off ≤ n) (h : ∀ a, off ≤ a → a < off + (16 + n) → m' a = m a) :
    cell m' off = cell m off := by
  have hl : slotLen m' off = slotLen m off := slotLen_congr fun a h1 h2 => h a h1 (by omega)
  have ha : slotAck m' off = slotAck m off := by
    rw [slotAck, slotAck, Mem.read_congr fun a h1 h2 => h a (by omega) (by omega)]
  have hd : slotData m' off = slotData m off := by
    rw [slotData, slotData, hl, Mem.read_congr fun a h1 h2 => h a (by omega) (by omega)]
  rw [cell, cell, hl, ha, hd]

/-- Stores into a slot do not reach beyond it. -/
theorem slotClear_apply {len a : Nat} (h : a < off ∨ off + 16 ≤ a) :
    slotClear m off len a = m a := by
  rw [slotClear, Mem.store, if_neg (by simp; omega), Mem.store, if_neg (by simp; omega)]

theorem slotMark_apply {a : Nat} (h : a < off ∨ off + 16 ≤ a) : slotMark m off a = m a := by
  rw [slotMark, Mem.store, if_neg (by simp; omega)]

theorem slotLen_clear {len : Nat} (h : len < 2 ^ 64) : slotLen (slotClear m off len) off = len := by
  rw [slotLen, slotClear, Mem.read_store_disjoint (by simp), Mem.read_store_same' (by simp),
    leValue_leBytes_of_lt (by omega)]

theorem slotAck_clear {len : Nat} : slotAck (slotClear m off len) off = false := by
  rw [slotAck, slotClear, Mem.read_store_same' (by simp), leValue_leBytes_of_lt (by omega)]
  rfl

theorem slotLen_mark : slotLen (slotMark m off) off = slotLen m off := by
  rw [slotLen, slotMark, Mem.read_store_disjoint (by simp), slotLen]

theorem slotAck_mark : slotAck (slotMark m off) off = true := by
  rw [slotAck, slotMark, Mem.read_store_same' (by simp), leValue_leBytes_of_lt (by omega)]
  rfl

theorem cell_of_slotLen (h : slotLen m off = 0) : cell m off = none := by
  simp [cell, h]

theorem cell_mark : cell (slotMark m off) off = none := by
  simp [cell, slotAck_mark]

theorem slotLen_save (h : bs.length < 2 ^ 64) :
    slotLen ((slotClear m off bs.length).store (off + 16) bs) off = bs.length := by
  refine (slotLen_congr fun a h1 h2 => ?_).trans (slotLen_clear (m := m) h)
  rw [Mem.store, if_neg (by omega)]

theorem cell_save (h : bs.length < 2 ^ 64) (hne : bs ≠ []) :
    cell ((slotClear m off bs.length).store (off + 16) bs) off = some bs := by
  have hack : slotAck ((slotClear m off bs.length).store (off + 16) bs) off = false := by
    rw [slotAck, Mem.read_store_disjoint (by omega)]
    exact slotAck_clear
  have hpos := List.length_pos_iff.mpr hne
  rw [cell, slotLen_save h, hack, slotData, slotLen_save h, Mem.read_store_same]
  simp [hpos]

/-! ## The array -/

/-- The array last allocated has room for all the slots. -/
structure HasRoom (s : Sock) (buf : Buf) : Prop where
  array : s.txSlots = some buf
  small : 16 + s.nMaxlenTx < 2 ^ 64
  size : s.slots * (16 + s.nMaxlenTx) ≤ buf.size

/-- The array has room, and no slot holds more than fits. -/
structure HasSlots (s : Sock) (buf : Buf) : Prop extends s.HasRoom buf where
  short : ∀ i, i < s.slots → slotLen buf.mem (i * (16 + s.nMaxlenTx)) ≤ s.nMaxlenTx

/-- The payload that waits to be acknowledged in the slot for a sequence number. -/
def payload (s : Sock) (seq : Nat) : Option Bytes :=
  match s.txSlots with
  | none => none
  | some buf => cell buf.mem (s.txSeq seq * s.txSlotSize)

variable {s : Sock} {buf : Buf} {seq : Nat}

theorem slots_pos (s : Sock) : 0 < s.slots := by
  unfold slots; split <;> omega

theorem txSeq_lt (s : Sock) (seq : Nat) : s.txSeq seq < s.slots := Nat.mod_lt _ s.slots_pos

theorem txSeq_of_lt (h : seq < s.slots) : s.txSeq seq = seq := Nat.mod_eq_of_lt h

@[simp] theorem txSeq_txSeq (s : Sock) (seq : Nat) : s.txSeq (s.txSeq seq) = s.txSeq seq :=
  Nat.mod_mod _ _

theorem payload_txSeq (s : Sock) (seq : Nat) : s.payload (s.txSeq seq) = s.payload seq := by
  simp only [payload, txSeq_txSeq]

/-- Offsets of different slots are a slot apart. -/
theorem slot_disjoint {z : Nat} (h : i ≠ j) : i * z + z ≤ j * z ∨ j * z + z ≤ i * z := by
  obtain hij | hij := Nat.lt_or_gt_of_ne h
  · left
    calc i * z + z = (i + 1) * z := (Nat.succ_mul i z).symm
      _ ≤ j * z := Nat.mul_le_mul_right z hij
  · right
    calc j * z + z = (j + 1) * z := (Nat.succ_mul j z).symm
      _ ≤ i * z := Nat.mul_le_mul_right z hij

theorem slot_within {z k size : Nat} (hi : i < k) (hsize : k * z ≤ size) : i * z + z ≤ size :=
  calc i * z + z = (i + 1) * z := (Nat.succ_mul i z).symm
    _ ≤ k * z := Nat.mul_le_mul_right z hi
    _ ≤ size := hsize

namespace HasRoom

theorem txSlotSize (H : s.HasRoom buf) : s.txSlotSize = 16 + s.nMaxlenTx := by
  rw [Sock.txSlotSize, sizeAdd, Nat.mod_eq_of_lt H.small]

/-- Every access is inside the array. -/
theorem txSlot (H : s.HasRoom buf) (seq : Nat) :
    s.txSlot seq = .ok (buf, s.txSeq seq * (16 + s.nMaxlenTx)) := by
  have hin := slot_within (s.txSeq_lt seq) H.size
  have hmul : (s.txSeq seq + 1) * (16 + s.nMaxlenTx) =
      s.txSeq seq * (16 + s.nMaxlenTx) + (16 + s.nMaxlenTx) := Nat.succ_mul _ _
  simp only [Sock.txSlot, H.array, H.txSlotSize]
  rw [if_pos ⟨by omega, by omega⟩]

theorem payload_eq (H : s.HasRoom buf) (seq : Nat) :
    s.payload seq = cell buf.mem (s.txSeq seq * (16 + s.nMaxlenTx)) := by
  simp only [payload, H.array, H.txSlotSize]

end HasRoom

namespace HasSlots

theorem payload_length (H : s.HasSlots buf) {d : Bytes} (h : s.payload seq = some d) :
    d ≠ [] ∧ d.length ≤ s.nMaxlenTx := by
  rw [H.payload_eq, cell] at h
  split at h
  · rename_i hc
    have hshort := H.short _ (s.txSeq_lt seq)
    have hlen := congrArg List.length (Option.some.inj h)
    simp only [Bool.and_eq_true, decide_eq_true_eq] at hc
    simp only [slotData, Mem.length_read] at hlen
    exact ⟨List.length_pos_iff.mp (by omega), by omega⟩
  · exact nomatch h

/-- Whether a slot waits to be acknowledged, as the code tests it. -/
theorem pending_iff (H : s.HasSlots buf) (seq : Nat) :
    (0 < slotLen buf.mem (s.txSeq seq * (16 + s.nMaxlenTx)) &&
      !slotAck buf.mem (s.txSeq seq * (16 + s.nMaxlenTx))) = (s.payload seq).isSome := by
  rw [H.payload_eq, cell]
  split <;> simp_all

/-- A change inside one slot changes its cell only. -/
theorem update (H : s.HasSlots buf) (m' : Mem) (hi : i < s.slots)
    (hout : ∀ a, a < i * (16 + s.nMaxlenTx) ∨ i * (16 + s.nMaxlenTx) + (16 + s.nMaxlenTx) ≤ a →
      m' a = buf.mem a)
    (hlen : slotLen m' (i * (16 + s.nMaxlenTx)) ≤ s.nMaxlenTx) :
    (s.setSlots buf m').HasSlots { buf with mem := m' } ∧ ∀ j, j < s.slots →
      (s.setSlots buf m').payload j =
        if j = i then cell m' (i * (16 + s.nMaxlenTx)) else s.payload j := by
  have hother : ∀ j, j ≠ i → ∀ a, j * (16 + s.nMaxlenTx) ≤ a →
      a < j * (16 + s.nMaxlenTx) + (16 + s.nMaxlenTx) → m' a = buf.mem a := by
    intro j hj a h1 h2
    have := slot_disjoint (z := 16 + s.nMaxlenTx) hj
    exact hout a (by omega)
  have H' : (s.setSlots buf m').HasSlots { buf with mem := m' } := by
    refine ⟨⟨rfl, H.small, H.size⟩, fun j hj => ?_⟩
    by_cases he : j = i
    · subst he; exact hlen
    · exact (slotLen_congr fun a h1 h2 => hother j he a h1 (by omega)).trans_le (H.short j hj)
  refine ⟨H', fun j hj => ?_⟩
  have hseq : (s.setSlots buf m').txSeq j = j := txSeq_of_lt (s := s) hj
  rw [H'.payload_eq, H.payload_eq, hseq, txSeq_of_lt hj]
  split
  · subst_vars; rfl
  · exact cell_congr (H.short j hj) (hother j ‹_›)

end HasSlots

/-! ## Saving -/

/-- The slots `buf` are those of `s` with `bs` saved under V(S). -/
structure Saves (s : Sock) (bs : Bytes) (buf : Buf) : Prop where
  slots : { s with txSlots := some buf }.HasSlots buf
  payload : ∀ j, j < s.slots → { s with txSlots := some buf }.payload j =
    if j = s.txSeq s.vs then some bs else s.payload j

/-- Saving a payload fills the cell of V(S). -/
theorem HasSlots.txSlotSave (H : s.HasSlots buf) (hne : bs ≠ []) (hlen : bs.length ≤ s.nMaxlenTx) :
    ∃ buf', s.txSlotSave bs = .ok { s with txSlots := some buf' } ∧ s.Saves bs buf' := by
  have hsmall := H.small
  have hin := slot_within (s.txSeq_lt s.vs) H.size
  set off := s.txSeq s.vs * (16 + s.nMaxlenTx) with hoff
  obtain ⟨H', hpay⟩ := H.update ((slotClear buf.mem off bs.length).store (off + 16) bs)
    (s.txSeq_lt s.vs) (fun a ha => by
      rw [Mem.store, if_neg (by omega), slotClear_apply (by omega)])
    (by rw [slotLen_save (by omega)]; exact hlen)
  refine ⟨_, ?_, H', fun j hj => ?_⟩
  · simp only [Sock.txSlotSave, H.txSlot, bind, Except.bind]
    rw [if_neg (by omega)]
    rfl
  · have hcell : cell ((slotClear buf.mem off bs.length).store (off + 16) bs) off = some bs :=
      cell_save (by omega) hne
    exact hcell ▸ hpay j hj

theorem txSlotSave_eq {s' : Sock} {bs : Bytes} (h : s.txSlotSave bs = .ok s') :
    ∃ buf, s' = { s with txSlots := some buf } := by
  rw [Sock.txSlotSave] at h
  cases hslot : s.txSlot s.vs with
  | error e =>
    rw [hslot] at h
    cases h
  | ok r =>
    rw [hslot] at h
    simp only [bind, Except.bind] at h
    split at h
    · cases h
    · cases h
      exact ⟨_, rfl⟩

/-- `s'` is `s` but for its transmit slots and V(S). -/
def Differs (s s' : Sock) : Prop := ∃ slots vs, s' = { s with txSlots := slots, vs }

theorem Differs.type {s s' : Sock} (h : s.Differs s') : s'.type = s.type := by
  obtain ⟨slots, vs, rfl⟩ := h
  rfl

theorem Differs.txSlotSave {s s' s'' : Sock} {bs : Bytes} (h : s.Differs s') (hsave : s'.txSlotSave bs = .ok s'') :
    s.Differs s'' := by
  obtain ⟨slots, vs, rfl⟩ := h
  obtain ⟨slots', rfl⟩ := txSlotSave_eq hsave
  exact ⟨_, _, rfl⟩

theorem Differs.vsIncr {s s' : Sock} (h : s.Differs s') : s.Differs s'.vsIncr := by
  obtain ⟨slots, vs, rfl⟩ := h
  exact ⟨_, _, rfl⟩

/-! ## Acknowledging -/

/-- `s'` is `s` with the cells of the `n` numbers from `i` on emptied. -/
structure Releases (s : Sock) (i n : Nat) (s' : Sock) : Prop where
  slots : ∃ buf, s'.HasSlots buf
  gone : ∀ k, k < n → s'.payload (i + k) = none
  kept : ∀ j, j < s.slots → (∀ k, k < n → s.txSeq (i + k) ≠ j) → s'.payload j = s.payload j

/-- The step of the loop: the cell of `i` is emptied if something waits in it. -/
theorem HasSlots.ackLoop_succ (H : s.HasSlots buf) (n i ret : Nat) :
    (s.payload i = none ∧ s.ackLoop (n + 1) i ret = s.ackLoop n (i + 1) ret) ∨
    (s.payload i ≠ none ∧ ∃ buf', { s with txSlots := some buf', va := s.txSeq (i + 1) }.HasSlots buf' ∧
      s.ackLoop (n + 1) i ret =
        { s with txSlots := some buf', va := s.txSeq (i + 1) }.ackLoop n (i + 1) (ret + 1) ∧
      ∀ j, j < s.slots → { s with txSlots := some buf', va := s.txSeq (i + 1) }.payload j =
        if j = s.txSeq i then none else s.payload j) := by
  have hloop (n i ret : Nat) : s.ackLoop (n + 1) i ret =
      if (s.payload i).isSome then ackLoop n (i + 1) (ret + 1)
        { s.setSlots buf (slotMark buf.mem (s.txSeq i * (16 + s.nMaxlenTx))) with
          va := s.txSeq (i + 1) }
      else ackLoop n (i + 1) ret s := by
    simp only [Sock.ackLoop, H.txSlot, bind, Except.bind, H.pending_iff]
  rw [hloop]
  cases hp : s.payload i with
  | none => exact .inl ⟨rfl, rfl⟩
  | some d =>
    obtain ⟨H', hpay⟩ := H.update (slotMark buf.mem (s.txSeq i * (16 + s.nMaxlenTx)))
      (s.txSeq_lt i) (fun a ha => slotMark_apply (by omega))
      (by rw [slotLen_mark]; exact H.short _ (s.txSeq_lt i))
    refine .inr ⟨nofun, _, ⟨⟨rfl, H'.small, H'.size⟩, H'.short⟩, rfl, fun j hj => ?_⟩
    have hcell : cell (slotMark buf.mem (s.txSeq i * (16 + s.nMaxlenTx)))
        (s.txSeq i * (16 + s.nMaxlenTx)) = none := cell_mark
    exact hcell ▸ hpay j hj

theorem payload_congr (h : s.txSeq i = s.txSeq j) : s.payload i = s.payload j := by
  rw [← payload_txSeq, h, payload_txSeq]

/-- Emptying a range after its first cell is empty empties the range with that cell. -/
theorem Releases.cons {s₁ s' : Sock} (h : s₁.Releases (i + 1) n s') (hslots : s₁.slots = s.slots)
    (hslots' : s'.slots = s.slots)
    (hpay : ∀ j, j < s.slots → s₁.payload j = if j = s.txSeq i then none else s.payload j) :
    s.Releases i (n + 1) s' where
  slots := h.slots
  gone k hk := by
    cases k with
    | succ k => exact (by omega : i + 1 + k = i + (k + 1)) ▸ h.gone k (by omega)
    | zero =>
      have hseq (j : Nat) : s₁.txSeq j = s.txSeq j := by rw [txSeq, txSeq, hslots]
      have hseq' (j : Nat) : s'.txSeq j = s.txSeq j := by rw [txSeq, txSeq, hslots']
      by_cases hlater : ∀ k, k < n → s.txSeq (i + 1 + k) ≠ s.txSeq i
      · have hkept := h.kept (s.txSeq i) (hslots ▸ s.txSeq_lt i) fun k hk => by
          rw [hseq]; exact hlater k hk
        rw [hpay _ (s.txSeq_lt i), if_pos rfl, ← hseq' i, payload_txSeq] at hkept
        exact hkept
      · push Not at hlater
        obtain ⟨k, hk, he⟩ := hlater
        rw [← h.gone k hk]
        exact payload_congr (by rw [hseq', hseq', he]; rfl)
  kept j hj hne := by
    have hseq (j : Nat) : s₁.txSeq j = s.txSeq j := by rw [txSeq, txSeq, hslots]
    rw [h.kept j (hslots ▸ hj) fun k hk => by
      rw [hseq]; exact (by omega : i + (k + 1) = i + 1 + k) ▸ hne (k + 1) (by omega), hpay j hj,
      if_neg fun he => hne 0 (by omega) he.symm]

/-- Acknowledging a range empties its cells, and V(A) moves only if something waited in them. -/
theorem HasSlots.ackLoop (H : s.HasSlots buf) (n i ret : Nat) :
    ∃ ret' buf' va, s.ackLoop n i ret = .ok (ret', { s with txSlots := some buf', va }) ∧
      s.Releases i n { s with txSlots := some buf', va } ∧ ret ≤ ret' ∧
      (s.va < s.slots → va < s.slots) ∧
      ((∀ k, k < n → s.payload (i + k) = none) → ret' = ret ∧ va = s.va) ∧
      (0 < n → n ≤ s.slots → s.payload (i + (n - 1)) ≠ none →
        ret < ret' ∧ va = s.txSeq (i + n)) := by
  induction n generalizing i ret s buf with
  | zero =>
    refine ⟨ret, buf, s.va, ?_, ⟨⟨buf, ⟨rfl, H.small, H.size⟩, H.short⟩, nofun, fun j _ _ => ?_⟩,
      le_rfl, id, fun _ => ⟨rfl, rfl⟩, nofun⟩
    · rw [← H.array]; rfl
    · rw [← H.array]
  | succ n ih =>
    obtain ⟨hp, hstep⟩ | ⟨hp, buf₁, H₁, hstep, hpay⟩ := H.ackLoop_succ n i ret
    · obtain ⟨ret', buf', va, hrun, hrel, hle, hlt, hnone, hlast⟩ := ih H (i + 1) ret
      refine ⟨ret', buf', va, hstep.trans hrun, hrel.cons rfl rfl fun j hj => ?_, hle, hlt,
        fun h => hnone fun k hk => ?_, fun _ hn hl => ?_⟩
      · split
        · subst_vars; rw [payload_txSeq, hp]
        · rfl
      · exact (by omega : i + (k + 1) = i + 1 + k) ▸ h (k + 1) (by omega)
      · cases n with
        | zero => exact absurd hp hl
        | succ n =>
          have := hlast (by omega) (by omega) ((by omega : i + (n + 1 + 1 - 1) = i + 1 + (n + 1 - 1)) ▸ hl)
          exact (by omega : i + 1 + (n + 1) = i + (n + 1 + 1)) ▸ this
    · obtain ⟨ret', buf', va, hrun, hrel, hle, hlt, hnone, hlast⟩ := ih H₁ (i + 1) (ret + 1)
      refine ⟨ret', buf', va, hstep.trans hrun, hrel.cons rfl rfl hpay, by omega,
        fun _ => hlt (s.txSeq_lt (i + 1)), fun h => absurd (h 0 (by omega)) hp, fun _ hn hl => ?_⟩
      cases n with
      | zero =>
        obtain ⟨rfl, rfl⟩ := hnone nofun
        exact ⟨by omega, rfl⟩
      | succ n =>
        -- the last number of the range has another cell than the first
        have hne : s.txSeq (i + (n + 1 + 1 - 1)) ≠ s.txSeq i := by
          intro he
          have := Ring.eq_of_mod_eq he.symm (by omega) (by omega)
          omega
        have hl' : Sock.payload { s with txSlots := some buf₁, va := s.txSeq (i + 1) }
            (i + 1 + (n + 1 - 1)) ≠ none := by
          rw [(by omega : i + 1 + (n + 1 - 1) = i + (n + 1 + 1 - 1)), ← payload_txSeq]
          have := hpay (s.txSeq (i + (n + 1 + 1 - 1))) (s.txSeq_lt _)
          rw [if_neg hne, payload_txSeq] at this
          exact this.trans_ne hl
        obtain ⟨hret, hva⟩ := hlast (by omega) (show n + 1 ≤ s.slots by omega) hl'
        exact ⟨by omega, hva.trans ((by omega : i + 1 + (n + 1) = i + (n + 1 + 1)) ▸ rfl)⟩

/-- How many numbers N(R) acknowledges from V(A) on. -/
def acks (s : Sock) (nr : Nat) : Nat := Ring.dist s.slots s.va nr

theorem acks_le (s : Sock) (nr : Nat) : s.acks nr < s.slots := Nat.mod_lt _ s.slots_pos

theorem slots_eq (s : Sock) : (if s.mode = .sabme then 128 else 8) = s.slots := rfl

/-- The loop of `patty_ax25_sock_ack` takes as many rounds. -/
theorem ack_length {nr : Nat} (hva : s.va < s.slots) (hnr : nr < s.slots) :
    (if nr < s.va then nr + s.slots else nr) - s.va = s.acks nr := by
  rw [acks, Ring.dist]
  split
  · rw [Nat.mod_eq_of_lt (by omega)]
    omega
  · rw [show nr + (s.slots - s.va) = (nr - s.va) + s.slots by omega, Nat.add_mod_right,
      Nat.mod_eq_of_lt (by omega)]

/-- `patty_ax25_sock_ack` empties the cells from V(A) up to N(R), and sets V(A) to N(R) if something
waited in the last one. -/
theorem HasSlots.ack {nr : Nat} (H : s.HasSlots buf) (hva : s.va < s.slots) (hnr : nr < s.slots) :
    ∃ ret buf' va, s.ack nr = .ok (ret, { s with txSlots := some buf', va }) ∧
      s.Releases s.va (s.acks nr) { s with txSlots := some buf', va } ∧ va < s.slots ∧
      ((∀ k, k < s.acks nr → s.payload (s.va + k) = none) → va = s.va) ∧
      (0 < s.acks nr → s.payload (s.va + (s.acks nr - 1)) ≠ none → va = nr) := by
  by_cases he : s.va = nr
  · have hzero : s.acks nr = 0 := by
      rw [acks, Ring.dist, he, show nr + (s.slots - nr) = s.slots by omega, Nat.mod_self]
    refine ⟨1, buf, s.va, ?_, ⟨⟨buf, ⟨rfl, H.small, H.size⟩, H.short⟩, ?_, fun j _ _ => ?_⟩,
      hva, fun _ => rfl, ?_⟩
    · rw [Sock.ack, if_pos he, ← H.array]
    · rw [hzero]
      exact fun k hk => absurd hk (Nat.not_lt_zero k)
    · rw [← H.array]
    · rw [hzero]
      exact fun hpos => absurd hpos (Nat.lt_irrefl 0)
  · have hn := ack_length hva hnr
    obtain ⟨ret, buf', va, hrun, hrel, -, hva', hnone, hlast⟩ :=
      H.ackLoop (s.acks nr) s.va 0
    refine ⟨ret, buf', va, ?_, hrel, hva' hva, fun h => (hnone h).2, fun h1 h2 => ?_⟩
    · rw [Sock.ack, if_neg he]
      simp only [slots_eq, hn, hrun]
    · have hlt := s.acks_le nr
      rw [(hlast h1 hlt.le h2).2, txSeq, ← hn]
      split
      · rw [show s.va + (nr + s.slots - s.va) = nr + s.slots by omega, Nat.add_mod_right,
          Nat.mod_eq_of_lt hnr]
      · rw [show s.va + (nr - s.va) = nr by omega, Nat.mod_eq_of_lt hnr]

theorem HasRoom.ackPendingLoop (H : s.HasRoom buf) (n i ret : Nat) :
    ∃ ret', s.ackPendingLoop n i ret = .ok ret' := by
  induction n generalizing i ret with
  | zero => exact ⟨ret, rfl⟩
  | succ n ih =>
    obtain ⟨ret', h⟩ := ih (i + 1) (if 0 < slotLen buf.mem (s.txSeq i * (16 + s.nMaxlenTx)) &&
      !slotAck buf.mem (s.txSeq i * (16 + s.nMaxlenTx)) then ret + 1 else ret)
    exact ⟨ret', by simp only [Sock.ackPendingLoop, H.txSlot, bind, Except.bind, h]⟩

/-! ## Clearing -/

/-- Clearing the slots from `i` on empties them and leaves the array where it is. -/
theorem HasRoom.clearSlots (H : s.HasRoom buf) (n i : Nat) (hi : i + n ≤ s.slots) :
    ∃ m, s.clearSlots n i = .ok { s with txSlots := some { buf with mem := m } } ∧
      (∀ j, i ≤ j → j < i + n → slotLen m (j * (16 + s.nMaxlenTx)) = 0) ∧
      ∀ j, j < i → slotLen m (j * (16 + s.nMaxlenTx)) =
        slotLen buf.mem (j * (16 + s.nMaxlenTx)) := by
  induction n generalizing i s buf with
  | zero => exact ⟨buf.mem, by rw [Sock.clearSlots, ← H.array], by omega, fun _ _ => rfl⟩
  | succ n ih =>
    set m₁ := slotClear buf.mem (i * (16 + s.nMaxlenTx)) 0 with hm₁
    have H₁ : (s.setSlots buf m₁).HasRoom { buf with mem := m₁ } := ⟨rfl, H.small, H.size⟩
    obtain ⟨m, hrun, hclear, hkept⟩ := ih H₁ (i + 1) (show i + 1 + n ≤ s.slots by omega)
    refine ⟨m, ?_, fun j h1 h2 => ?_, fun j hj => ?_⟩
    · simp only [Sock.clearSlots, H.txSlot, bind, Except.bind, txSeq_of_lt (by omega : i < s.slots)]
      exact hrun
    · by_cases he : j = i
      · subst he
        exact (hkept j (by omega)).trans (slotLen_clear (by omega))
      · exact hclear j (by omega) (by omega)
    · have := slot_disjoint (z := 16 + s.nMaxlenTx) (by omega : j ≠ i)
      have hlen : slotLen m₁ (j * (16 + s.nMaxlenTx)) = slotLen buf.mem (j * (16 + s.nMaxlenTx)) :=
        slotLen_congr fun a h1 h2 => slotClear_apply (by omega)
      exact (hkept j (by omega)).trans hlen

/-- After all the slots are cleared nothing waits in them. -/
theorem HasRoom.clear (H : s.HasRoom buf) : ∃ buf',
    s.clearSlots s.slots 0 = .ok { s with txSlots := some buf' } ∧
      { s with txSlots := some buf' }.HasSlots buf' ∧ buf'.size = buf.size ∧
      ∀ j, { s with txSlots := some buf' }.payload j = none := by
  obtain ⟨m, hrun, hclear, -⟩ := H.clearSlots s.slots 0 (by omega)
  have H' : { s with txSlots := some { buf with mem := m } }.HasSlots { buf with mem := m } :=
    ⟨⟨rfl, H.small, H.size⟩, fun i hi => by
      have := hclear i (by omega) (by rw [Nat.zero_add]; exact hi)
      exact (show slotLen m (i * (16 + s.nMaxlenTx)) ≤ s.nMaxlenTx by omega)⟩
  refine ⟨_, hrun, H', rfl, fun j => ?_⟩
  have hzero : slotLen m (s.txSeq j * (16 + s.nMaxlenTx)) = 0 :=
    hclear _ (by omega) (by rw [Nat.zero_add]; exact s.txSeq_lt j)
  rw [H'.payload_eq]
  exact cell_of_slotLen hzero

/-- The last slot that was cleared is inside the array. -/
theorem clearSlots_last {n i : Nat} {s s' : Sock} (h : s.clearSlots (n + 1) i = .ok s')
    (hi : i + n < s.slots) : ∃ buf, s.txSlots = some buf ∧
      (i + n + 1) * s.txSlotSize ≤ buf.size ∧ (i + n) * s.txSlotSize + 16 ≤ buf.size := by
  induction n generalizing i s with
  | zero =>
    rw [Sock.clearSlots] at h
    cases hslot : s.txSlot i with
    | error e => rw [hslot] at h; cases h
    | ok r =>
      simp only [Sock.txSlot, txSeq_of_lt (show i < s.slots by omega)] at hslot
      split at hslot
      · cases hslot
      · split at hslot
        · exact ⟨_, ‹_›, ‹_›⟩
        · cases hslot
  | succ n ih =>
    rw [Sock.clearSlots] at h
    cases hslot : s.txSlot i with
    | error e => rw [hslot] at h; cases h
    | ok r =>
      obtain ⟨buf, off⟩ := r
      rw [hslot] at h
      have harray : s.txSlots = some buf := by
        simp only [Sock.txSlot] at hslot
        split at hslot
        · cases hslot
        · split at hslot
          · cases hslot
            assumption
          · cases hslot
      obtain ⟨buf₁, hbuf, hle⟩ := ih h (show i + 1 + n < s.slots by omega)
      cases hbuf
      rw [show i + (n + 1) = i + 1 + n by omega]
      exact ⟨buf, harray, hle⟩

/-- An array of the size that is asked for, all of whose slots could be cleared, has room: the size
was not wrapped. -/
theorem clearSlots_room {s s' : Sock} {buf : Buf} (h : s.clearSlots s.slots 0 = .ok s')
    (harray : s.txSlots = some buf) (hsize : buf.size = s.txSlotsSize) (hn : s.nMaxlenTx < 2 ^ 64) :
    s.HasRoom buf := by
  have hpos := s.slots_pos
  obtain ⟨k, hk⟩ : ∃ k, s.slots = k + 1 := ⟨s.slots - 1, by omega⟩
  rw [hk] at h
  obtain ⟨buf₁, hbuf, hle, hlast⟩ := clearSlots_last h (by omega)
  rw [harray] at hbuf
  cases hbuf
  rw [Nat.zero_add] at hle hlast
  have hwrap : buf.size ≤ (k + 1) * s.txSlotSize := by
    rw [hsize, txSlotsSize, sizeMul, hk]
    exact Nat.mod_le _ _
  -- a slot has at least the 16 bytes of its header
  have h16 : 16 ≤ s.txSlotSize := by
    rw [Nat.succ_mul] at hwrap
    omega
  have hsmall : 16 + s.nMaxlenTx < 2 ^ 64 := by
    rw [txSlotSize, sizeAdd] at h16
    by_contra hge
    rw [Nat.mod_eq_sub_mod (by omega), Nat.mod_eq_of_lt (by omega)] at h16
    omega
  have hz : s.txSlotSize = 16 + s.nMaxlenTx := by
    rw [txSlotSize, sizeAdd, Nat.mod_eq_of_lt hsmall]
  exact ⟨harray, hsmall, by rw [hk, ← hz]; exact hle⟩

end Patty.Sock
