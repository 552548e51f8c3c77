import Patty.Link.Side

/-! # Frames for a connection

A frame received for an established connection acknowledges what its N(R) says (`Acked`), resets the
link, closes the connection, or leaves its transmitting side alone (`handleType_spec`). -/

namespace Patty

open Prog

/-! ## Acknowledgement -/

namespace Sock

variable {s s₁ s₂ : Sock} {buf : Buf} {frame : Frame}

/-- `s₁` is `s` once `frame` has acknowledged: the numbers from V(A) up to N(R) are released, V(A) is
N(R) if the last of them was waiting, and an S frame with P/F set has V(S) go back to N(R). -/
structure Acked (s : Sock) (frame : Frame) (s₁ : Sock) : Prop where
  link : s₁.link = { s.link with txSlots := s₁.txSlots, va := s₁.va, vs := s₁.vs }
  releases : s.Releases s.va (s.acks frame.nr) s₁
  va_lt : s₁.va < s.slots
  va_same : (∀ k, k < s.acks frame.nr → s.payload (s.va + k) = none) → s₁.va = s.va
  va_last : 0 < s.acks frame.nr → s.payload (s.va + (s.acks frame.nr - 1)) ≠ none →
    s₁.va = frame.nr
  vs : s₁.vs = s.vs ∨ (Patty.controlS frame.control ∧ frame.pf ≠ 0) ∧ s₁.vs = frame.nr
  final : Patty.controlS frame.control ∧ frame.pf ≠ 0 → s₁.va = frame.nr → s₁.vs = frame.nr

theorem ackTimer_link (acked : Nat) (H : s.HasSlots buf) :
    ∃ s₁, s.ackTimer acked = .ok s₁ ∧ s₁.link = s.link := by
  rw [ackTimer]
  split
  · have H₁ : { s with timerT1 := s.timerT1.stop }.HasSlots buf := H.link rfl
    obtain ⟨n, hn⟩ := H₁.ackPendingLoop s.slots 0 0
    have hpending : { s with timerT1 := s.timerT1.stop }.ackPending = .ok n := hn
    refine ⟨_, by simp only [bind, Except.bind, hpending]; rfl, ?_⟩
    split <;> rfl
  · exact ⟨s, rfl, rfl⟩

theorem ackFinal_link (s : Sock) (frame : Frame) :
    (s.ackFinal frame).link = { s.link with vs := (s.ackFinal frame).vs } := by
  obtain ⟨vs, retries, h⟩ := ackFinal_eq s frame
  rw [h]
  rfl

theorem ackFinal_vs (s : Sock) (frame : Frame) : (s.ackFinal frame).vs = s.vs ∨
    (Patty.controlS frame.control ∧ frame.pf ≠ 0) ∧ (s.ackFinal frame).vs = frame.nr := by
  unfold ackFinal
  dsimp only
  generalize (if s.vs < s.va then s.vs + (if s.mode = .sabme then 128 else 8) else s.vs) = max
  by_cases hfinal : Patty.controlS frame.control ∧ frame.pf ≠ 0
  · rw [if_pos hfinal]
    split
    · exact .inr ⟨hfinal, rfl⟩
    · exact .inl rfl
  · rw [if_neg hfinal]
    exact .inl rfl

theorem ackFinal_of_va (hnr : frame.nr < s.slots)
    (hfinal : Patty.controlS frame.control ∧ frame.pf ≠ 0) (hva : s.va = frame.nr) :
    (s.ackFinal frame).vs = frame.nr := by
  unfold ackFinal
  dsimp only
  rw [if_pos hfinal]
  have hslots : (if s.mode = .sabme then 128 else 8) = s.slots := rfl
  have hle : frame.nr ≤ if s.vs < s.va then s.vs + (if s.mode = .sabme then 128 else 8) else s.vs := by
    rw [hslots]
    split <;> omega
  rw [if_pos ⟨hva.le, hle⟩]

/-- `frame_ack` does not leave the slots, and acknowledges. -/
theorem HasSlots.frameAck (H : s.HasSlots buf) (hva : s.va < s.slots) (hnr : frame.nr < s.slots) :
    ∃ s₁, s.frameAck frame = .ok s₁ ∧ s.Acked frame s₁ := by
  have H₀ : { s with rxPending := 0, timerT3 := s.timerT3.start }.HasSlots buf := H.link rfl
  obtain ⟨ret, buf', va, hack, hrel, hva', hsame, hlast⟩ := H₀.ack hva hnr
  obtain ⟨buf₁, H₁⟩ := hrel.slots
  obtain ⟨s₂, htimer, hl₂⟩ := ackTimer_link ret H₁
  have hfl := ackFinal_link s₂ frame
  have hslots₂ : s₂.txSlots = some buf' := congrArg Link.txSlots hl₂
  have hva₂ : s₂.va = va := congrArg Link.va hl₂
  have hvs₂ : s₂.vs = s.vs := congrArg Link.vs hl₂
  have hslots₃ : (s₂.ackFinal frame).txSlots = some buf' := (congrArg Link.txSlots hfl).trans hslots₂
  have hva₃ : (s₂.ackFinal frame).va = va := (congrArg Link.va hfl).trans hva₂
  -- what waits in the slots is as after the acknowledgement itself
  have hl₃ : (s₂.ackFinal frame).link =
      { { s with txSlots := some buf', va }.link with vs := (s₂.ackFinal frame).vs } := by
    rw [hfl, hl₂]
    rfl
  have hpay : ∀ j, (s₂.ackFinal frame).payload j = { s with txSlots := some buf', va }.payload j :=
    fun j => link_payload (s := { s with txSlots := some buf', va, vs := (s₂.ackFinal frame).vs }) hl₃ j
  have hslots' : ({ s with txSlots := some buf', va, vs := (s₂.ackFinal frame).vs } : Sock).HasSlots buf₁ :=
    ⟨⟨H₁.array, H₁.small, H₁.size⟩, H₁.short⟩
  refine ⟨s₂.ackFinal frame, ?_, ?_, ⟨⟨buf₁, hslots'.link hl₃⟩, fun k hk => ?_, fun j hj hne => ?_⟩,
    hva₃.trans_lt hva', fun h => hva₃.trans (hsame h), fun h1 h2 => hva₃.trans (hlast h1 h2), ?_, fun hf h => ?_⟩
  · simp only [Sock.frameAck, bind, Except.bind, hack, htimer]
    rfl
  · rw [hl₃, hslots₃, hva₃]
    rfl
  · rw [hpay]; exact hrel.gone k hk
  · rw [hpay]; exact hrel.kept j hj hne
  · rw [← hvs₂]; exact ackFinal_vs s₂ frame
  · have hmode : s₂.slots = s.slots := slots_congr (congrArg Link.mode hl₂)
    exact ackFinal_of_va (hmode ▸ hnr) hf (hva₂.trans (hva₃.symm.trans h))

/-- `s₁` is `s` with its slots emptied and the sequence variables at zero. -/
structure Cleared (s s₁ : Sock) : Prop where
  link : s₁.link = { s.link with txSlots := s₁.txSlots, va := 0, vs := 0 }
  slots : ∃ buf, s₁.HasSlots buf
  empty : ∀ j, s₁.payload j = none

/-- `patty_ax25_sock_reset` does not leave the slots. -/
theorem HasSlots.reset (H : s.HasSlots buf) : ∃ s₁, s.reset = .ok s₁ ∧ s.Cleared s₁ := by
  have H₀ : { s with flow := .ready, vs := 0, vr := 0, va := 0, retries := s.nRetry
                     rxPending := 0 }.HasRoom buf := ⟨H.array, H.small, H.size⟩
  obtain ⟨buf', hclear, H₁, -, hempty⟩ := H₀.clear
  refine ⟨{ s with
    flow := .ready, vs := 0, vr := 0, va := 0, retries := s.nRetry, rxPending := 0
    txSlots := some buf', timerT1 := s.timerT1.start, timerT2 := s.timerT2.clear
    timerT3 := s.timerT3.clear }, ?_, rfl, ⟨buf', ⟨H₁.array, H₁.small, H₁.size⟩, H₁.short⟩, hempty⟩
  simp only [Sock.reset, bind, Except.bind]
  rw [hclear]
  rfl

end Sock

/-! ## Handlers -/

/-- A frame of this type acknowledges. -/
def FrameType.acks : FrameType → Bool
  | i | rr | rnr | rej | srej => true
  | _ => false

/-- A frame of this type resets an established connection. -/
def FrameType.resets : FrameType → Bool
  | sabm | sabme | frmr => true
  | _ => false

/-- What a frame does to the transmitting side of an established connection. -/
inductive FrameEffect (s : Sock) (frame : Frame) : Link → Prop
  | nothing : frame.type.acks = false → FrameEffect s frame s.link
  | acked {s₁ : Sock} : frame.type.acks → s.Acked frame s₁ → FrameEffect s frame s₁.link
  | reset {s₁ : Sock} : frame.type.resets → s.Cleared s₁ → FrameEffect s frame s₁.link

namespace M

variable {α : Type} {w : World} {p : Ptr} {s : Sock} {l : Link} {buf : Buf} {frame : Frame} {i : Nat}
  {P : Link → Prop}

theorem linked_sockFlowStop : Keeps (Linked p l) (fun _ => True) (sockFlowStop p) :=
  linked_deref fun _ hs => quiet_fdClear.linked.bind fun _ => linked_store hs

theorem linked_sockFlowStart : Keeps (Linked p l) (fun _ => True) (sockFlowStart p) :=
  linked_deref fun _ _ => quiet_fdWatch.linked

theorem linked_iAnswer : Keeps (Linked p l) (fun _ => True) (iAnswer p frame) :=
  linked_deref fun _ hs => .ite
    (fun _ => Keeps.bind (linked_store hs) fun _ => quiet_sendRr.linked)
    fun _ => .ite (fun _ => Keeps.bind (linked_store hs) fun _ => .pure)
      fun _ => Keeps.bind (linked_store hs) fun _ => .pure

theorem assemblerSave_link {bs : Bytes} {s₁ : Sock} (h : s.assemblerSave bs = .ok (.ok s₁)) :
    s₁.link = s.link := by
  unfold Sock.assemblerSave at h
  split at h
  · cases h
  split at h
  · cases h
  split at h
  · cases h
  split at h
  · cases h
  · cases h
    rfl

theorem linked_segmentSave {remaining : Nat} (hs : s.link = l) :
    Keeps (Linked p l) (fun _ => True) (segmentSave p s frame remaining) := by
  refine .ite (fun _ => Keeps.bind (linked_store hs) fun _ => quiet_sendSrej.linked) fun _ => ?_
  refine .lift_bind (fun _ _ => trivial) fun r hr => ?_
  rcases r with e | s₁
  · exact quiet_setErrno.linked.bind fun _ => .pure
  have hs₁ : s₁.link = l := (assemblerSave_link hr).trans hs
  refine Keeps.bind (linked_store hs₁) fun _ => .ite (fun _ => .pure) fun _ => ?_
  cases s₁.assemblerRead with
  | none => exact .pure
  | some bs =>
    refine (quiet_writePty rfl).linked.bind fun _ => .ite (fun _ => ?_) fun _ => .pure
    exact Keeps.bind (linked_store hs₁) fun _ => .pure

theorem linked_handleSegment : Keeps (Linked p l) (fun _ => True) (handleSegment p frame) := by
  refine linked_deref fun s hs => .ite (fun _ => quiet_sendSrej.linked) fun _ => .ite (fun _ => ?_)
    fun _ => .ite (fun _ => quiet_sendSrej.linked) fun _ => .ite (fun _ => quiet_sendSrej.linked)
    fun _ => linked_segmentSave hs
  refine .ite (fun _ => quiet_sendSrej.linked) fun _ => ?_
  -- starting the assembler only changes the assembler
  have hinit : ∀ total w, wp (assemblerInit s total) (fun r _ => r.2.link = l) (fun _ => True) w := by
    intro total w
    rw [assemblerInit, wp_ite]
    refine ⟨fun _ => hs, fun _ => ?_⟩
    rw [wp_ite]
    refine ⟨fun _ => ?_, fun _ => hs⟩
    rw [wp_bind]
    refine wp_intro fun ok w₁ _ => ?_
    rw [wp_ite]
    exact ⟨fun _ => wp_bind.mpr (wp_intro fun _ _ _ => hs), fun _ => hs⟩
  intro w hw
  rw [wp_bind]
  refine ((hinit _ w).and (quiet_assemblerInit.linked w hw)).post ?_
  rintro ⟨ok, s₁⟩ w₁ ⟨hs₁, hw₁⟩
  refine Keeps.bind (linked_store hs₁) (fun _ => ?_) w₁ hw₁
  exact .ite (fun _ => linked_segmentSave hs₁) fun _ => .pure

theorem linked_iDeliver : Keeps (Linked p l) (fun _ => True) (iDeliver p frame) := by
  refine .ite (fun _ => linked_handleSegment.bind fun _ => .ite (fun _ => .pure)
    fun _ => linked_iAnswer) fun _ => linked_deref fun s _ => ?_
  exact (quiet_writePty rfl).linked.bind fun _ => .ite (fun _ => linked_iAnswer) fun _ => .pure

theorem linked_iReceive : Keeps (Linked p l) (fun _ => True) (iReceive p frame) :=
  linked_deref fun _ hs => .ite
    (fun _ => Keeps.bind (linked_store hs) fun _ => linked_iDeliver)
    fun _ => .ite (fun _ => quiet_sendSrej.linked)
      fun _ => .ite (fun _ => quiet_sendRej.linked) fun _ => linked_iDeliver

/-- The part of a handler that follows the acknowledgement. -/
theorem acked_spec {m : Sock → M Int} (H : s.HasSlots buf)
    (hva : s.va < s.slots) (hnr : frame.nr < s.slots) (hacks : frame.type.acks)
    (hm : ∀ s₁, Keeps (Linked p s₁.link) (fun _ => True) (m s₁)) :
    wp (do let s₁ ← lift (s.frameAck frame); store p s₁; m s₁)
      (fun _ w' => WhileOpen p (FrameEffect s frame) w') (fun _ => True) w := by
  obtain ⟨s₁, hack, hs₁⟩ := H.frameAck hva hnr
  rw [wp_bind, hack, wp_lift_ok, wp_bind, wp_store]
  refine (hm s₁ _ (linked_setSock rfl)).post ?_
  rintro _ w' ⟨s₂, hp₂, hl₂⟩
  exact .of_heap hp₂ (hl₂ ▸ .acked hacks hs₁)

theorem handleS_spec {flow : Ptr → M Unit} (hflow : ∀ l, Keeps (Linked p l) (fun _ => True) (flow p))
    (hp : w.heap p = some s) (H : s.HasSlots buf) (hva : s.va < s.slots)
    (hnr : frame.nr < s.slots) (hacks : frame.type.acks) : wp (handleS flow (some p) frame)
      (fun _ w' => WhileOpen p (FrameEffect s frame) w') (fun _ => True) w := by
  rw [handleS, wp_bind]
  refine wp_deref_some hp (acked_spec H hva hnr hacks fun s₁ => ?_)
  split
  · exact .ite (fun _ => quiet_sendRr.linked) fun _ => .pure
  · exact (hflow _).bind fun _ => .pure
  · exact .pure

/-- What a frame that acknowledges does to an established connection. -/
theorem acks_spec {m : Mem} {offset len : Nat} (hp : w.heap p = some s) (H : s.HasSlots buf)
    (hstate : s.state = .established) (hva : s.va < s.slots) (hnr : frame.nr < s.slots)
    (hacks : frame.type.acks) : wp (handleType i (some p) frame m offset len)
      (fun _ w' => WhileOpen p (FrameEffect s frame) w') (fun _ => True) w := by
  have htype := hacks
  unfold handleType
  unfold FrameType.acks at htype
  split at htype
  · rename_i ht
    rw [ht]
    dsimp only
    rw [handleI, wp_bind]
    refine wp_deref_some hp ?_
    rw [if_neg (by simp [hstate])]
    exact acked_spec H hva hnr hacks fun s₁ => linked_iReceive
  · rename_i ht
    rw [ht]
    exact handleS_spec (fun _ => linked_sockFlowStart) hp H hva hnr hacks
  · rename_i ht
    rw [ht]
    exact handleS_spec (fun _ => linked_sockFlowStop) hp H hva hnr hacks
  · rename_i ht
    rw [ht]
    exact handleS_spec (fun _ => linked_sockFlowStart) hp H hva hnr hacks
  · rename_i ht
    rw [ht]
    dsimp only
    rw [handleSrej, wp_bind]
    refine wp_deref_some hp (acked_spec H hva hnr hacks fun s₁ => ?_)
    exact quiet_sockResend.linked.bind fun _ => .ite (fun _ => .pure) fun _ => .pure
  · cases htype

/-! ## Frames that do not acknowledge -/

/-- A handler that only answers leaves the connection alone. -/
theorem nothing_spec {m : M α} (hm : Quiet m) (hp : w.heap p = some s)
    (hacks : frame.type.acks = false) :
    wp m (fun _ w' => WhileOpen p (FrameEffect s frame) w') (fun _ => True) w :=
  WhileOpen.quiet hm hp (.nothing hacks)

theorem reset_spec {m : M Int} (hm : Quiet m) (H : s.HasSlots buf) (hresets : frame.type.resets) :
    wp (do store p (← lift s.reset); m)
      (fun _ w' => WhileOpen p (FrameEffect s frame) w') (fun _ => True) w := by
  obtain ⟨s₁, hreset, hs₁⟩ := H.reset
  rw [wp_bind, hreset, wp_lift_ok, wp_bind, wp_store]
  exact WhileOpen.quiet hm heap_setSock (.reset hresets hs₁)

theorem handleSabm_spec (hp : w.heap p = some s) (H : s.HasSlots buf)
    (hstate : s.state = .established) (hresets : frame.type.resets)
    (hacks : frame.type.acks = false)
    (hlook : w.socksRemote.lookup (hashAddrpair frame.dest frame.src) = some p) :
    wp (handleSabm i frame) (fun _ w' => WhileOpen p (FrameEffect s frame) w') (fun _ => True) w := by
  have hdm : wp (replyDm i frame PATTY_AX25_FRAME_FINAL)
      (fun _ w' => WhileOpen p (FrameEffect s frame) w') (fun _ => True) w :=
    nothing_spec quiet_replyDm hp hacks
  rw [handleSabm, wp_bind, wp_sockByAddr]
  split
  · exact hdm
  rw [wp_bind, wp_deref]
  refine ⟨fun listener _ => ?_, fun _ => trivial⟩
  rw [wp_ite]
  refine ⟨fun _ => hdm, fun _ => ?_⟩
  rw [wp_bind, wp_clientBySock]
  split
  · exact .of_heap hp (.nothing hacks)
  rw [wp_bind, wp_sockByAddrpair, hlook]
  dsimp only
  rw [wp_bind]
  refine wp_deref_some hp ?_
  simp only [hstate]
  exact reset_spec (.ite quiet_replyUa .pure) H hresets

theorem handleXid_spec {m : Mem} {offset len : Nat} (hp : w.heap p = some s)
    (hstate : s.state = .established) (hacks : frame.type.acks = false)
    (hlook : w.socksRemote.lookup (hashAddrpair frame.dest frame.src) = some p) :
    wp (handleXid i frame m offset len) (fun _ w' => WhileOpen p (FrameEffect s frame) w')
      (fun _ => True) w := by
  rw [handleXid, wp_bind, wp_getIface]
  refine ⟨fun iface _ => ?_, fun _ => trivial⟩
  rw [wp_ite]
  refine ⟨fun _ => .of_heap hp (.nothing hacks), fun _ => ?_⟩
  rw [wp_bind]
  refine quiet_junk.core.wp (fun junk w₁ hcore => ?_) fun _ => trivial
  have hp₁ : w₁.heap p = some s := (congrFun (congrArg Core.heap hcore) p).trans hp
  have hremote : w₁.socksRemote = w.socksRemote := congrArg Core.socksRemote hcore
  split
  · exact .of_heap hp₁ (.nothing hacks)
  rw [wp_bind, wp_setErrno, wp_bind, wp_sockByAddrpair]
  simp only [hremote, hlook]
  rw [wp_bind]
  refine wp_deref_some hp₁ ?_
  rw [if_pos (by simp [hstate])]
  exact nothing_spec quiet_replyDm hp₁ hacks

/-- What a frame does to the transmitting side of the established connection it is for. -/
theorem handleType_spec {m : Mem} {offset len : Nat} (hp : w.heap p = some s) (H : s.HasSlots buf)
    (htype : s.type = .stream) (hstate : s.state = .established) (hva : s.va < s.slots)
    (hnr : frame.nr < s.slots)
    (hlook : w.socksRemote.lookup (hashAddrpair frame.dest frame.src) = some p) :
    wp (handleType i (some p) frame m offset len)
      (fun _ w' => WhileOpen p (FrameEffect s frame) w') (fun _ => True) w := by
  cases hacks : frame.type.acks with
  | true => exact acks_spec hp H hstate hva hnr hacks
  | false =>
  unfold handleType
  cases hft : frame.type with
  | i | rr | rnr | rej | srej => simp [FrameType.acks, hft] at hacks
  | ui =>
    dsimp only
    rw [handleUi, wp_bind]
    refine wp_deref_some hp ?_
    rw [if_pos (by simp [htype])]
    exact .of_heap hp (.nothing hacks)
  | xid => exact handleXid_spec hp hstate hacks hlook
  | sabm | sabme =>
    exact handleSabm_spec hp H hstate (by simp [FrameType.resets, hft]) hacks hlook
  | test =>
    exact nothing_spec (quiet_getIface.bind fun _ => .ite .pure quiet_replyTest) hp hacks
  | ua =>
    dsimp only
    rw [handleUa, wp_bind, wp_getIface]
    refine ⟨fun iface _ => ?_, fun _ => trivial⟩
    rw [wp_ite]
    refine ⟨fun _ => .of_heap hp (.nothing hacks), fun _ => ?_⟩
    rw [wp_bind]
    refine wp_deref_some hp ?_
    simp only [hstate]
    exact .of_heap hp (.nothing hacks)
  | dm =>
    dsimp only
    rw [handleDm, wp_bind]
    refine wp_deref_some hp ?_
    simp only [hstate]
    exact .of_heap hp (.nothing hacks)
  | disc =>
    dsimp only
    rw [handleDisc, wp_bind]
    refine wp_deref_some hp ?_
    simp only [hstate]
    rw [wp_bind]
    refine (sockClose_spec hp).post fun _ w₁ h => ?_
    obtain hnone | hsome := h
    · refine wp_intro fun _ w₂ hr => .of_none ?_
      exact (congrFun (quiet_replyUa.heap hr) p).trans hnone
    · exact nothing_spec quiet_replyUa hsome hacks
  | frmr =>
    dsimp only
    rw [handleFrmr, wp_bind]
    refine wp_deref_some hp ?_
    simp only [hstate]
    exact reset_spec .pure H (by simp [FrameType.resets, hft])
  | unknown => exact .of_heap hp (.nothing hacks)

end M

end Patty
