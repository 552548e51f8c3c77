import Patty.Upkeep.Outstanding
import Patty.Slots
import Patty.Wire.Xid

/-! # T1 runs while a connection is made or ended

T1 runs for every STREAM socket whose connection is being made or ended, as long as no acknowledgement quits
it (`Quits`) and each XID of a `connect` is sent (`supervised_run`). -/

namespace Patty

open Prog

namespace Sock

/-- T1 runs if the connection of the STREAM socket is being made or ended. -/
def Supervised (s : Sock) : Prop := s.type = .stream → s.state.pending → s.timerT1.running

/-- The slot for a sequence number holds a frame that was sent and is not acknowledged. -/
def Waits (s : Sock) (seq : Nat) : Prop := (s.payload seq).isSome

/-- How many numbers there are from V(A) to N(R). -/
def span (s : Sock) (nr : Nat) : Nat := (if nr < s.va then nr + s.slots else nr) - s.va

/-- N(R) is V(A) or acknowledges a frame, and no frame is left that waits. -/
structure Quits (s : Sock) (nr : Nat) : Prop where
  acks : s.va = nr ∨ ∃ k < s.span nr, s.Waits (s.va + k)
  rest : ∀ j < s.slots, s.Waits j → ∃ k < s.span nr, s.txSeq (s.va + k) = j

variable {s s' : Sock} {buf : Buf} {off n i j nr ret ret' m : Nat} {frame : Frame}

/-! ## The slots that wait -/

theorem waits_congr (h : s.txSeq i = s.txSeq j) : s.Waits i ↔ s.Waits j := by
  simp only [Waits, payload, h]

theorem waits_iff (h : s.txSlot i = .ok (buf, off)) :
    s.Waits i ↔ (0 < slotLen buf.mem off && !slotAck buf.mem off) = true := by
  obtain ⟨harray, rfl⟩ := txSlot_array h
  simp only [Waits, payload, harray, cell]
  split <;> simp [*]

/-- A mark does not reach another header. -/
theorem cell_mark_apart {mem : Mem} {off' : Nat} (h : off + 16 ≤ off' ∨ off' + 16 ≤ off) :
    (cell (slotMark mem off) off').isSome = (cell mem off').isSome := by
  have hsame (a : Nat) (h1 : off' ≤ a) (h2 : a < off' + 16) : slotMark mem off a = mem a :=
    slotMark_apply (by omega)
  have hack : slotAck (slotMark mem off) off' = slotAck mem off' := by
    rw [slotAck, slotAck, Mem.read_congr fun a h1 h2 => hsame a (by omega) (by omega)]
  rw [cell, cell, slotLen_congr hsame, hack]
  simp only [apply_ite Option.isSome, Option.isSome_some, Option.isSome_none]

/-- Marking a slot leaves the others. -/
theorem waits_mark (hsmall : s.Small) (h : s.txSlot i = .ok (buf, off)) (va : Nat) :
    { s.setSlots buf (slotMark buf.mem off) with va }.Waits j ↔ s.Waits j ∧ s.txSeq i ≠ s.txSeq j := by
  obtain ⟨harray, rfl⟩ := txSlot_array h
  have hsize : s.txSlotSize = 16 + s.nMaxlenTx := by rw [txSlotSize, sizeAdd, Nat.mod_eq_of_lt hsmall]
  have hnew : { s.setSlots buf (slotMark buf.mem (s.txSeq i * s.txSlotSize)) with va }.payload j =
      cell (slotMark buf.mem (s.txSeq i * s.txSlotSize)) (s.txSeq j * s.txSlotSize) := rfl
  have hold : s.payload j = cell buf.mem (s.txSeq j * s.txSlotSize) := by simp only [payload, harray]
  rw [Waits, Waits, hnew, hold]
  by_cases he : s.txSeq i = s.txSeq j
  · rw [he, cell_mark]
    simp
  · have hapart := slot_disjoint (z := s.txSlotSize) he
    rw [cell_mark_apart (by omega), and_iff_left he]

/-- The loop acknowledges what waits from `i` on. -/
theorem ackLoop_waits (hsmall : s.Small) (h : s.ackLoop n i ret = .ok (ret', s')) :
    (ret < ret' ↔ ∃ k < n, s.Waits (i + k)) ∧
      ∀ j, s'.Waits j ↔ s.Waits j ∧ ∀ k < n, s.txSeq (i + k) ≠ s.txSeq j := by
  induction n generalizing s i ret with
  | zero =>
    cases h
    simp
  | succ n ih =>
    have hnext {P : Nat → Prop} : (∃ k < n + 1, P (i + k)) ↔ P i ∨ ∃ k < n, P (i + 1 + k) := by
      constructor
      · rintro ⟨k, hk, hp⟩
        cases k with
        | zero => exact .inl hp
        | succ k => exact .inr ⟨k, by omega, by rwa [show i + 1 + k = i + (k + 1) by omega]⟩
      · rintro (hp | ⟨k, hk, hp⟩)
        · exact ⟨0, Nat.succ_pos n, hp⟩
        · exact ⟨k + 1, by omega, by rwa [show i + (k + 1) = i + 1 + k by omega]⟩
    rw [ackLoop] at h
    obtain ⟨⟨buf, off⟩, hslot, h⟩ := Except.bind_eq_ok h
    have hall (j : Nat) : (∀ k < n + 1, s.txSeq (i + k) ≠ s.txSeq j) ↔
        s.txSeq i ≠ s.txSeq j ∧ ∀ k < n, s.txSeq (i + 1 + k) ≠ s.txSeq j := by
      have := (hnext (P := fun x => s.txSeq x = s.txSeq j)).not
      simpa using this
    dsimp only at h
    split at h
    · rename_i hwait
      have hi : s.Waits i := (waits_iff hslot).mpr hwait
      obtain ⟨-, hrest⟩ := ih (by exact hsmall) h
      have hle := (ackLoop_same h).1
      refine ⟨iff_of_true (by omega) (hnext.mpr (.inl hi)), fun j => (hrest j).trans ?_⟩
      rw [waits_mark hsmall hslot, hall, and_assoc]
      rfl
    · rename_i hwait
      have hi : ¬s.Waits i := fun h => hwait ((waits_iff hslot).mp h)
      obtain ⟨hcount, hrest⟩ := ih hsmall h
      refine ⟨hcount.trans (Iff.trans (or_iff_right hi).symm hnext.symm), fun j => (hrest j).trans ?_⟩
      rw [hall]
      refine and_congr_right fun hj => (and_iff_right fun he => hi ?_).symm
      exact (waits_congr he).mpr hj

theorem ackPendingLoop_waits (h : s.ackPendingLoop n i ret = .ok m) :
    ret ≤ m ∧ (ret < m ↔ ∃ j, i ≤ j ∧ j < i + n ∧ s.Waits j) := by
  induction n generalizing i ret with
  | zero =>
    cases h
    refine ⟨le_rfl, iff_of_false (Nat.lt_irrefl _) ?_⟩
    rintro ⟨j, h1, h2, -⟩
    omega
  | succ n ih =>
    rw [ackPendingLoop] at h
    obtain ⟨⟨buf, off⟩, hslot, h⟩ := Except.bind_eq_ok h
    obtain ⟨hle, hcount⟩ := ih h
    split at hle
    · rename_i hwait
      exact ⟨by omega, iff_of_true (by omega) ⟨i, le_rfl, by omega, (waits_iff hslot).mpr hwait⟩⟩
    · rename_i hwait
      rw [if_neg hwait] at hcount
      refine ⟨hle, hcount.trans ⟨?_, ?_⟩⟩
      · rintro ⟨j, h1, h2, hj⟩
        exact ⟨j, by omega, by omega, hj⟩
      · rintro ⟨j, h1, h2, hj⟩
        have hne : j ≠ i := by
          rintro rfl
          exact hwait ((waits_iff hslot).mp hj)
        exact ⟨j, by omega, by omega, hj⟩

/-- Some slot waits if frames are outstanding. -/
theorem ackPending_waits (h : s.ackPending = .ok m) : 0 < m ↔ ∃ j < s.slots, s.Waits j := by
  refine (ackPendingLoop_waits h).2.trans (exists_congr fun j => ?_)
  simp

/-! ## What stops T1 -/

/-- T1 goes on running if and only if the N(R) does not quit the socket. -/
theorem frameAck_running (hsmall : s.Small) (h : s.frameAck frame = .ok s') (hrun : s.timerT1.running) :
    s'.timerT1.running ↔ ¬s.Quits frame.nr := by
  obtain ⟨⟨acked, s₁⟩, hack, h⟩ := Except.bind_eq_ok h
  obtain ⟨s₂, htimer, h⟩ := Except.bind_eq_ok h
  obtain ⟨vs, retries, hfinal⟩ := ackFinal_eq s₂ frame
  obtain rfl : s' = { s₂ with vs, retries } := (Except.ok.inj h).symm.trans hfinal
  -- what is acknowledged, and what is left
  have hloop : (0 < acked ↔ s.va = frame.nr ∨ ∃ k < s.span frame.nr, s.Waits (s.va + k)) ∧
      s₁.slots = s.slots ∧ s₁.timerT1 = s.timerT1 ∧
      ∀ j, s₁.Waits j ↔ s.Waits j ∧ ∀ k < s.span frame.nr, s.txSeq (s.va + k) ≠ s.txSeq j := by
    rw [ack] at hack
    split at hack
    · rename_i hva
      cases hack
      have hspan : s.span frame.nr = 0 := by
        rw [span, ← hva, if_neg (Nat.lt_irrefl _), Nat.sub_self]
      refine ⟨iff_of_true Nat.one_pos (.inl hva), rfl, rfl, fun j => ?_⟩
      rw [hspan]
      exact ⟨fun hj => ⟨hj, fun k hk => absurd hk (Nat.not_lt_zero k)⟩, fun hj => hj.1⟩
    · rename_i hva
      obtain ⟨slots, va, rfl⟩ := ackLoop_eq hack
      obtain ⟨hcount, hrest⟩ := ackLoop_waits (s := { s with rxPending := 0, timerT3 := s.timerT3.start })
        hsmall hack
      exact ⟨hcount.trans (or_iff_right hva).symm, rfl, rfl, hrest⟩
  obtain ⟨hacked, hslots, hsame, hleft⟩ := hloop
  have hwaits (j : Nat) (hj : j < s.slots) : s₁.Waits j ↔
      ¬(s.Waits j → ∃ k < s.span frame.nr, s.txSeq (s.va + k) = j) := by
    rw [hleft, txSeq_of_lt hj, Classical.not_imp]
    simp
  simp only [ackTimer] at htimer
  split at htimer
  · rename_i hpos
    obtain ⟨m, hm, htimer⟩ := Except.bind_eq_ok htimer
    have hm := (ackPending_waits hm).trans (exists_congr fun j => show _ ↔ j < s₁.slots ∧ s₁.Waits j from .rfl)
    rw [hslots] at hm
    have hquits : s.Quits frame.nr ↔ ¬0 < m := by
      rw [hm]
      constructor
      · rintro ⟨-, hrest⟩ ⟨j, hj, hwait⟩
        exact (hwaits j hj).mp hwait (hrest j hj)
      · intro hnone
        refine ⟨hacked.mp hpos, fun j hj => ?_⟩
        by_contra hwait
        exact hnone ⟨j, hj, (hwaits j hj).mpr hwait⟩
    rw [hquits, not_not]
    split at htimer
    · cases htimer
      exact iff_of_true rfl ‹_›
    · cases htimer
      exact iff_of_false (by simp [Timer.stop]) ‹_›
  · rename_i hzero
    cases htimer
    refine iff_of_true ?_ fun hquits => hzero (hacked.mpr hquits.acks)
    rw [← hrun]
    exact congrArg Timer.running hsame

/-! ## What is kept -/

/-- A slot has room for its header, and T1 runs if it has to. -/
def Attended (s : Sock) : Prop := s.Small ∧ s.Supervised

theorem Attended.moves (h : s.Attended) (hm : Moves s s') : s'.Attended := by
  refine ⟨hm.small h.1, fun htype hpend => ?_⟩
  rcases hm.pending hpend with hrun | ⟨hstate, hrun⟩
  · exact hrun
  · rw [← hrun]
    exact h.2 (hm.type ▸ htype) (hstate ▸ hpend)

theorem Attended.frameAck (h : s.Attended) (hs' : s.frameAck frame = .ok s')
    (hquits : s.type = .stream → s.state.pending → ¬s.Quits frame.nr) : s'.Attended := by
  obtain ⟨hsmall, hsup⟩ := h
  have hplace := frameAck_place hs'
  have htype : s'.type = s.type := congrArg Place.type hplace
  have hstate : s'.state = s.state := congrArg Place.state hplace
  have hsmall' : s'.Small := by
    obtain ⟨slots, va, vs, t1, retries, rfl⟩ := frameAck_eq hs'
    exact hsmall
  refine ⟨hsmall', fun ht hp => ?_⟩
  rw [htype] at ht
  rw [hstate] at hp
  exact (frameAck_running hsmall hs' (hsup ht hp)).mpr (hquits ht hp)

/-! ## The XID of a `connect` -/

/-- How many octets the XID information field has. -/
def xidLength (s : Sock) : Nat := 24 + needbytes (s.nAck % 2 ^ 32) + needbytes (s.nRetry % 2 ^ 32)

/-- `frame_send` has no error for the XID to the station `peer`. -/
structure Offers (s : Sock) (peer : Addr) : Prop where
  remote : peer.isSet
  info : ¬s.toobig s.xidLength
  hops : ¬s.txBufsz < (2 + s.hops) * 7

instance {peer : Addr} : Decidable (s.Offers peer) :=
  decidable_of_iff (peer.isSet ∧ ¬s.toobig s.xidLength ∧ ¬s.txBufsz < (2 + s.hops) * 7)
    ⟨fun ⟨h₁, h₂, h₃⟩ => ⟨h₁, h₂, h₃⟩, fun ⟨h₁, h₂, h₃⟩ => ⟨h₁, h₂, h₃⟩⟩

/-- All that is offered is sent. -/
theorem encodeXid_xidParams (s : Sock) :
    encodeXid (M.xidParams s) 256 = some (xidGroup (xidValues (M.xidParams s))) ∧
      (xidGroup (xidValues (M.xidParams s))).length = s.xidLength := by
  have hall : (xidValues (M.xidParams s)).filter (fun v => (M.xidParams s).flags &&& 1 <<< v.1 != 0) =
      xidValues (M.xidParams s) := by
    refine List.filter_eq_self.mpr fun v hv => ?_
    have htypes : v.1 ∈ xidTypes := List.mem_map_of_mem (f := Prod.fst) hv
    have hflags : ∀ type ∈ xidTypes, (0x74c &&& 1 <<< type != 0) = true := by decide
    exact hflags v.1 htypes
  have hlen : (xidBody (xidValues (M.xidParams s))).length =
      20 + needbytes (s.nAck % 2 ^ 32) + needbytes (s.nRetry % 2 ^ 32) := by
    have hinfo : needbytes (PATTY_AX25_SOCK_2_2_MAX_I_LEN <<< 3 % 2 ^ 32) = 2 := by decide
    simp only [xidBody, xidValues, M.xidParams, List.flatMap_cons, List.flatMap_nil, List.length_append,
      length_encodeXidParam, List.length_nil, hinfo]
    omega
  have hack := needbytes_le (s.nAck % 2 ^ 32)
  have hretry := needbytes_le (s.nRetry % 2 ^ 32)
  have hroom : ¬256 < 4 + (xidBody (xidValues (M.xidParams s))).length := by omega
  constructor
  · unfold encodeXid
    dsimp only
    rw [hall]
    exact if_neg hroom
  · rw [xidLength, show (xidGroup (xidValues (M.xidParams s))).length =
      (xidBody (xidValues (M.xidParams s))).length + 4 from rfl, hlen]
    omega

end Sock

theorem attended_lasting : Lasting (fun _ => Sock.Attended) 0 where
  moves h hm := h.moves hm
  fresh _ hs hsmall := by
    refine ⟨hsmall, fun htype hpend => ?_⟩
    obtain ⟨hnew, hclosed, -⟩ := Place.mk.inj hs
    rw [← hnew, if_neg (by rw [htype]; decide)] at hclosed
    rw [hclosed] at hpend
    cases hpend

theorem attended_born {p : Ptr} : BornGood (fun _ => Sock.Attended) p :=
  fun _ _ hs _ _ hsmall hrun => ⟨hsmall hs.1, fun _ _ => hrun⟩

/-- No driver and no pty fails in the step, the XID of a `connect` is sent unless T1 runs already, and no N(R)
quits a socket whose connection is being made or ended. -/
structure Attends (w : World) (inp : Input) : Prop where
  willing : inp.sys.Willing
  connect : ∀ c m w', inp.event = .client c →
    World.asks { w with sys := inp.sys } c = some (PATTY_CLIENT_CONNECT, m, w') →
    ∀ p s, w'.socksByFd.lookup (ConnectRequest.ofMem m).fd = some p → w'.heap p = some s → s.type = .stream →
      s.state ≠ .listening → s.state ≠ .established → (connectRoute w'.routes s).isSome →
      s.timerT1.running ∨ s.Offers (ConnectRequest.ofMem m).peer
  frame : ∀ i buf len, inp.event = .frame i buf len → ∀ f ∈ w.frameOf buf len, f.type.acknowledges →
    f.type ≠ .i → ∀ p s, w.frameSock buf len = some p → w.heap p = some s → s.type = .stream →
      s.state.pending → ¬s.Quits f.nr

namespace M

variable {w w' : World} {p : Ptr} {s : Sock} {c : Nat} {m : Mem}

/-- The XID of a socket is sent that is bound to an interface and a station. -/
theorem sendXid_willing {cr : FrameCr} (hiface : s.iface.isSome) (hoffers : s.Offers s.remote)
    (hw : w.sys.Willing) : wp (sendXid s cr) (fun r _ => 0 ≤ r) (fun _ => True) w := by
  obtain ⟨henc, hlen⟩ := s.encodeXid_xidParams
  rw [sendXid, if_neg (by simpa [Option.isSome_iff_ne_none] using hiface), henc]
  have hpass : s.Passes s.xidLength := ⟨hiface, hoffers.remote, hoffers.info, hoffers.hops⟩
  exact (frameSend_willing hpass hlen.le hw).post fun _ _ h => h.1

/-- `connect` starts T1, or T1 runs already. -/
theorem lasts_connect {A : List (Nat × Nat) → Prop} (hw : Kept (fun _ => Sock.Attended) A 0 w)
    (hwilling : w.sys.Willing) (hoffers : ∀ p s, w.socksByFd.lookup (ConnectRequest.ofMem m).fd = some p →
      w.heap p = some s → s.type = .stream → s.state ≠ .listening → s.state ≠ .established →
      (connectRoute w.routes s).isSome → s.timerT1.running ∨ s.Offers (ConnectRequest.ofMem m).peer) :
    wp (connectRequest c m) (fun r w' => Kept (fun _ => Sock.Attended) A 0 w' ∨ Left A 0 w' ∧ r < 0)
      (fun _ => True) w := by
  rw [connectRequest, wp_bind, wp_sockByFd]
  cases hfd : w.socksByFd.lookup (ConnectRequest.ofMem m).fd with
  | none => exact kept_respond.lasts w hw
  | some p =>
    dsimp only
    rw [wp_bind, wp_deref]
    refine ⟨fun s hheap => ?_, fun _ => trivial⟩
    rw [wp_ite]
    refine ⟨fun _ => kept_respond.lasts w hw, fun _ => ?_⟩
    rw [wp_ite]
    refine ⟨fun _ => kept_respond.lasts w hw, fun hlisten => ?_⟩
    rw [wp_ite]
    refine ⟨fun _ => kept_respond.lasts w hw, fun hopen => ?_⟩
    rw [wp_bind, wp_get]
    cases hroute : connectRoute w.routes s with
    | none => exact kept_respond.lasts w hw
    | some route =>
      have hs : s.Attended := hw.socks p s hheap
      refine (kept_connectVia attended_lasting hs (fun htype => ?_) hw).post fun _ _ h => .inl h
      have hoffer := hoffers p s hfd hheap htype hlisten hopen (by rw [hroute]; rfl)
      refine hoffer.imp (fun hrun => ⟨hs.1, fun _ _ => hrun⟩) fun hoffer s' w' hbinds hack hretry hsend hpty => ?_
      have hlen : s'.nMaxlenTx = s.nMaxlenTx := congrArg Duty.nMaxlenTx hbinds.duty
      have hxid : s'.xidLength = s.xidLength := by rw [Sock.xidLength, hack, hretry, Sock.xidLength]
      refine sendXid_willing (s := { s' with state := .pendingConnect }) ?_ ⟨?_, ?_, ?_⟩
        (hwilling.congr hsend hpty)
      · exact hbinds.iface ▸ rfl
      · exact hbinds.remote ▸ hoffer.remote
      · have hinfo : s'.toobig s'.xidLength = s.toobig s.xidLength := by
          rw [hxid, Sock.toobig, Sock.toobig, hlen]
        exact hinfo ▸ hoffer.info
      · have hsize : s'.txBufsz = s.txBufsz := by rw [Sock.txBufsz, Sock.txBufsz, hlen]
        have hhops := hoffer.hops
        rw [← hsize, ← hbinds.hops] at hhops
        exact hhops

theorem attended_allows {inp : Input} (h : Attends w inp)
    (hw : Kept (fun _ => Sock.Attended) (fun _ => True) 0 { w with sys := inp.sys }) :
    Allows (fun _ => Sock.Attended) (fun _ => True) 0 (Kept (fun _ => Sock.Attended) (fun _ => True) 0)
      { w with sys := inp.sys } inp.event where
  turn _ _ _ _ p _ _ := by
    refine ⟨_, _, Held.none p, fun s w bs data _ hs _ _ _ _ => ?_, trivial⟩
    refine sockWrite_differs.post fun r _ hd _ => ?_
    obtain ⟨slots, vs, hd⟩ := hd
    rw [hd]
    exact hs
  connect c m w' he hasks hw' := by
    have hsys : (w'.sys.send, w'.sys.ptyWrite) = (inp.sys.send, inp.sys.ptyWrite) :=
      offline_readCall _ _ _ (asks_eq_some hasks)
    obtain ⟨hsend, hpty⟩ := Prod.mk.inj hsys
    exact lasts_connect hw' (h.willing.congr hsend hpty) (h.connect c m w' he hasks)
  frame i buf len he := by
    have hloose := fun p (_ : True) => attended_lasting.canLoose (A := fun _ => True) p
    refine keeps_handleFrame attended_lasting.upkeep hloose (fun _ h => h)
      (listens_of_born attended_lasting.upkeep hloose attended_born) (fun _ _ => trivial) ?_
      (fun _ _ _ _ _ _ _ => kept_notifyAccept) hw
    intro f hf hacks p hp s s' hheap hs hi hs'
    refine hs.frameAck hs' fun htype hpend => ?_
    refine h.frame i buf len he f hf hacks (fun hfi => ?_) p s hp hheap htype hpend
    rw [hi hfi] at hpend
    cases hpend

end M

/-- A server with one interface and the default route over it. -/
def routedInterface : Config :=
  { oneInterface with routes := (∅ : Dict UInt32 Route).insert (hashAddr .zero) ⟨0, .zero, fun _ => .zero, 0⟩ }

/-- A client asks for a socket, and for a connection of it. -/
def connectInputs : List Input :=
  [⟨.accept 5, .allOk⟩,
   ⟨.write 5 (Request.socket 0xf0 0).bytes, .allOk⟩, ⟨.client 5, .allOk⟩,
   ⟨.write 5 (Request.connect 3 ⟨fun _ => 0x84, 0x60⟩).bytes, .allOk⟩, ⟨.client 5, .allOk⟩]

theorem attends_client {w : World} {c : Nat}
    (h : ∀ x ∈ World.asks { w with sys := .allOk } c, x.1 = PATTY_CLIENT_CONNECT →
      ∀ p ∈ x.2.2.socksByFd.lookup (ConnectRequest.ofMem x.2.1).fd, ∀ s ∈ x.2.2.heap p,
        s.Offers (ConnectRequest.ofMem x.2.1).peer) : Attends w ⟨.client c, .allOk⟩ where
  willing := Sys.willing_allOk
  connect := by
    rintro _ m w' ⟨⟩ hasks p s hp hs - - - -
    exact .inr (h _ hasks rfl p hp s hs)
  frame _ _ _ he := nomatch he

theorem attends_write {w : World} {c : Nat} {bs : Bytes} : Attends w ⟨.write c bs, .allOk⟩ where
  willing := Sys.willing_allOk
  connect _ _ _ he := nomatch he
  frame _ _ _ he := nomatch he

theorem attends_accept {w : World} {c : Nat} : Attends w ⟨.accept c, .allOk⟩ where
  willing := Sys.willing_allOk
  connect _ _ _ he := nomatch he
  frame _ _ _ he := nomatch he

theorem run_connect : Run World.Step Attends (.start routedInterface)
    ((World.start routedInterface).after connectInputs) := by
  have hsocket : Run World.Step Attends (.start routedInterface)
      ((World.start routedInterface).after (connectInputs.take 3)) :=
    .tail (.tail (.tail .refl attends_accept (World.step_after [] (by decide +kernel)))
      attends_write (World.step_after (connectInputs.take 1) (by decide +kernel)))
      (attends_client (by decide +kernel)) (World.step_after (connectInputs.take 2) (by decide +kernel))
  exact .tail (.tail hsocket attends_write (World.step_after (connectInputs.take 3) (by decide +kernel)))
    (attends_client (by decide +kernel)) (World.step_after (connectInputs.take 4) (by decide +kernel))

/-- An RR response of the station, with the N(R) 0. -/
def rrFrame : Bytes := List.replicate 6 0x82 ++ [0x60] ++ List.replicate 6 0x84 ++ [0xe1, 0x01]

/-- The RR response arrives. -/
def rrInput : Input := ⟨.frame 0 (.ofBytes rrFrame fun _ => 0) rrFrame.length, .allOk⟩

end Patty
