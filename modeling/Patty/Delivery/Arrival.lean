import Patty.Delivery.Turn

/-! # What an open connection does with the frames of the other end

An I frame may move V(R) and be written to the pty, and is answered by an S frame; an S frame is answered by RR, or, if
it is SREJ, by what is in the slot of its number. All else that the frames of the connection depend on stays
(`handleType_answered`). -/

namespace Patty

open Prog

/-- What SREJ has sent again, with what is then in the slots of the socket: what waits under its number. -/
def Sock.SrejData (s : Sock) (f : Frame) (seq : Nat) (bs : Bytes) : Prop :=
  f.type = .srej ∧ seq = f.nr ∧ bs ≠ [] ∧ bs.length ≤ s.nMaxlenTx ∧ ∀ d, s.payload seq = some d → bs = d

/-- The frame is the I frame that the socket expects. -/
def Sock.Expects (s : Sock) (f : Frame) : Prop := f.type = .i ∧ f.ns = s.vr

instance (s : Sock) (f : Frame) : Decidable (s.Expects f) := inferInstanceAs (Decidable (_ ∧ _))

/-- What is written to the pty of a frame: its information, also if its number is below V(R). -/
def Sock.toPty (s : Sock) (f : Frame) : List (Nat × Bytes) :=
  if f.type = .i ∧ f.ns ≤ s.vr then [(s.fd, f.infoBytes)] else []

/-- What an open connection has done with an I or S frame, whose writes to its pty do not fail. -/
structure Answered (s : Sock) (f : Frame) (w : World) (s' : Sock) (w' : World) : Prop where
  face : s'.face = { s.face with vr := if s.Expects f then (s.vr + 1) % s.slots else s.vr }
  written : w'.written = w.written ++ s.toPty f
  speaks : Speaks s'.face (s'.SrejData f) w w'

namespace M

variable {w w₀ : World} {p : Ptr} {s : Sock} {buf : Buf} {f : Frame} {i : Nat} {data : Nat → Bytes → Prop}

/-! ## I frames -/

/-- The socket `p` has the face `c`, this was written to ptys, and what was sent since `w₀` are its frames. -/
structure Took (p : Ptr) (c : Face) (data : Nat → Bytes → Prop) (written : List (Nat × Bytes))
    (w₀ w : World) : Prop where
  sock : ∃ s, w.heap p = some s ∧ s.face = c
  written : w.written = written
  speaks : Speaks c data w₀ w

namespace Took

variable {c : Face} {written : List (Nat × Bytes)}

theorem start (hp : w.heap p = some s) (hface : s.face = c) : Took p c data w.written w w :=
  ⟨⟨s, hp, hface⟩, rfl, .of_eq rfl⟩

theorem store (h : Took p c data written w₀ w) (hface : s.face = c) :
    Took p c data written w₀ (w.setSock p s) :=
  ⟨⟨s, heap_setSock, hface⟩, h.written, h.speaks⟩

/-- The rule for a call that sends. -/
theorem sends {α : Type} {m : M α} (h : Took p c data written w₀ w) (hq : Quiet m) (hm : Mute m)
    (hs : wp m (fun _ w' => Speaks c data w w') (fun _ => True) w) :
    wp m (fun _ w' => Took p c data written w₀ w') (fun _ => True) w := by
  obtain ⟨s, hp, hface⟩ := h.sock
  exact wp_intro fun _ w' hr => ⟨⟨s, (congrFun (hq.heap hr) p).trans hp, hface⟩, (hm _ _ _ hr).trans h.written,
    h.speaks.trans (hs.ok hr)⟩

/-- The rule for a call that sends an S frame. -/
theorem sendS {type : FrameType} {cr : FrameCr} {pf : Nat} (h : Took p c data written w₀ w) (hface : s.face = c)
    (htype : type.isS) (hpf : pf ≤ 1) :
    wp (sendS type s cr pf) (fun _ w' => Took p c data written w₀ w') (fun _ => True) w :=
  h.sends quiet_sendS mute_frameSend (sendS_speaks hface htype hpf)

theorem sendRr {cr : FrameCr} (h : Took p c data written w₀ w) (hface : s.face = c) :
    wp (sendRr s cr 1) (fun _ w' => Took p c data written w₀ w') (fun _ => True) w :=
  h.sendS hface rfl le_rfl

end Took

theorem iAnswer_took {written : List (Nat × Bytes)} (h : Took p s.face data written w₀ w)
    (hp : w.heap p = some s) :
    wp (iAnswer p f) (fun _ w' => Took p s.face data written w₀ w') (fun _ => True) w := by
  rw [iAnswer, wp_bind]
  refine wp_deref_some hp ?_
  rw [wp_ite, wp_ite]
  refine ⟨fun _ => ?_, fun _ => ⟨fun _ => ?_, fun _ => ?_⟩⟩
  · rw [wp_bind, wp_store]
    refine (h.store ?_).sendRr ?_
    · rfl
    · rfl
  · exact h.store rfl
  · exact h.store rfl

theorem silent_writePty {fd : Nat} {bs : Bytes} : Silent (writePty (.ptyWrite fd bs)) :=
  hides_unseen.writePty rfl

/-- The information of a frame that is delivered is written to the pty. -/
theorem iDeliver_took {written : List (Nat × Bytes)} (h : Took p s.face data written w₀ w)
    (hp : w.heap p = some s) (hproto : f.proto ≠ PATTY_AX25_PROTO_FRAGMENT) (hpty : ¬w.sys.refuses) :
    wp (iDeliver p f) (fun _ w' => Took p s.face data (written ++ [(s.fd, f.infoBytes)]) w₀ w')
      (fun _ => True) w := by
  rw [iDeliver, if_neg hproto, wp_bind]
  refine wp_deref_some hp ?_
  rw [wp_bind]
  refine (writePty_spec.and (silent_writePty.wp (fun _ _ h => h) fun _ => trivial)).post fun ok w₁ => ?_
  rintro ⟨⟨hcore, rfl, hlog⟩, hsent⟩
  rw [if_neg hpty] at hlog
  have hp₁ : w₁.heap p = some s := (congrFun (congrArg Core.heap hcore) p).trans hp
  have h₁ : Took p s.face data (written ++ [(s.fd, f.infoBytes)]) w₀ w₁ := by
    refine ⟨⟨s, hp₁, rfl⟩, ?_, h.speaks.trans (.of_eq hsent)⟩
    rw [World.written, hlog, List.filterMap_append, ← World.written, h.written]
    rfl
  rw [wp_ite]
  exact ⟨fun _ => iAnswer_took h₁ hp₁, fun h => absurd h (by simp [hpty])⟩

theorem face_vrIncr (h : s.mode ≠ .dm) : s.vrIncr.face = { s.face with vr := (s.vr + 1) % s.slots } := by
  have hvr := Sock.vrIncr_vr h
  unfold Sock.vrIncr at hvr ⊢
  exact congrArg (fun vr => { s.face with vr }) hvr

/-- An I frame of an open connection, once it has acknowledged. -/
theorem iReceive_took (hp : w.heap p = some s) (hw : w.written = w₀.written) (hsent : w.sent = w₀.sent)
    (hmode : s.mode ≠ .dm) (htype : f.type = .i) (hproto : f.proto ≠ PATTY_AX25_PROTO_FRAGMENT)
    (hpty : ¬w.sys.refuses) :
    wp (iReceive p f) (fun _ w' => Took p { s.face with vr := if s.Expects f then (s.vr + 1) % s.slots else s.vr }
      data (w₀.written ++ s.toPty f) w₀ w') (fun _ => True) w := by
  simp only [Sock.Expects, Sock.toPty, htype, true_and]
  rw [iReceive, wp_bind]
  refine wp_deref_some hp ?_
  rw [wp_ite, wp_ite, wp_ite]
  refine ⟨fun heq => ?_, fun hne => ⟨fun _ => ?_, fun _ => ⟨fun hgt => ?_, fun hle => ?_⟩⟩⟩
  · rw [wp_bind, wp_store, if_pos heq, if_pos heq.le, ← face_vrIncr hmode]
    have hfd : s.vrIncr.fd = s.fd := congrArg (Place.fd ∘ Face.place) (face_vrIncr hmode)
    rw [← hfd]
    exact iDeliver_took ⟨⟨_, heap_setSock, rfl⟩, hw, .of_eq hsent⟩ heap_setSock hproto hpty
  · rw [if_neg hne, if_neg (by omega), List.append_nil]
    exact Took.sendS ⟨⟨_, hp, rfl⟩, hw, .of_eq hsent⟩ rfl rfl le_rfl
  · rw [if_neg hne, if_neg (by omega), List.append_nil]
    exact Took.sendS ⟨⟨_, hp, rfl⟩, hw, .of_eq hsent⟩ rfl rfl le_rfl
  · rw [if_neg hne, if_pos (by omega)]
    exact iDeliver_took ⟨⟨_, hp, rfl⟩, hw, .of_eq hsent⟩ hp hproto hpty

theorem face_frameAck {s₁ : Sock} (h : s.frameAck f = .ok s₁) : s₁.face = s.face := by
  obtain ⟨slots, va, vs, t1, retries, rfl⟩ := Sock.frameAck_eq h
  rfl

/-- What is expected and taken depends on the face. -/
theorem expects_congr {s₁ : Sock} (h : s₁.face = s.face) : s₁.Expects f ↔ s.Expects f := by
  rw [Sock.Expects, Sock.Expects, show s₁.vr = s.vr from congrArg Face.vr h]

theorem toPty_congr {s₁ : Sock} (h : s₁.face = s.face) : s₁.toPty f = s.toPty f := by
  rw [Sock.toPty, Sock.toPty, show s₁.vr = s.vr from congrArg Face.vr h,
    show s₁.fd = s.fd from congrArg (Place.fd ∘ Face.place) h]

/-! ## S frames -/

/-- What is in a slot is sent again, also if it was acknowledged; it is what waits there, if something does. -/
theorem sockResend_speaks {seq : Nat} (H : s.HasSlots buf) : wp (sockResend s seq) (fun _ w' => Speaks s.face
    (fun q bs => q = seq ∧ bs ≠ [] ∧ bs.length ≤ s.nMaxlenTx ∧ ∀ d, s.payload q = some d → bs = d) w w')
    (fun _ => True) w := by
  rw [sockResend, wp_bind, H.txSlot, wp_lift_ok]
  dsimp only
  rw [wp_ite]
  refine ⟨fun hpos => frameSend_i rfl ⟨rfl, fun hnil => ?_, ?_, fun d hd => ?_⟩, fun _ => .of_eq rfl⟩
  · have hlen : (Sock.slotData buf.mem (s.txSeq seq * (16 + s.nMaxlenTx))).length = _ := Mem.length_read
    rw [hnil, List.length_nil] at hlen
    omega
  · exact (Mem.length_read (m := buf.mem)).trans_le (H.short _ (s.txSeq_lt seq))
  · rw [H.payload_eq, Sock.cell] at hd
    split at hd
    · exact Option.some.inj hd
    · cases hd

/-- A frame that is not an I frame leaves V(R), and is not written to the pty. -/
theorem Took.answered {w' : World} (htype : f.type ≠ .i) (hdata : ∀ s', w'.heap p = some s' → ∀ q bs, data q bs →
    s'.SrejData f q bs) (h : Took p s.face data w.written w w') :
    ∃ s', w'.heap p = some s' ∧ Answered s f w s' w' := by
  obtain ⟨s', hp', hface⟩ := h.sock
  have hE : ¬s.Expects f := fun h => htype h.1
  refine ⟨s', hp', ?_, ?_, ?_⟩
  · rw [if_neg hE]
    exact hface
  · rw [Sock.toPty, if_neg fun h => htype h.1, List.append_nil]
    exact h.written
  · rw [hface]
    exact h.speaks.mono (hdata s' hp')

theorem Took.leaves {α : Type} {c : Face} {written : List (Nat × Bytes)} {m : M α}
    (h : Took p c data written w₀ w) (hm : Leaves (fun w => (w.heap, w.log)) m) :
    wp m (fun _ w' => Took p c data written w₀ w') (fun _ => True) w := by
  refine hm.wp (fun _ w' hw' => ?_) fun _ => trivial
  obtain ⟨hheap, hlog⟩ := Prod.mk.inj hw'
  obtain ⟨s, hp, hface⟩ := h.sock
  refine ⟨⟨s, (congrFun hheap p).trans hp, hface⟩, ?_, h.speaks.trans (.of_eq ?_)⟩
  · rw [World.written, hlog]
    exact h.written
  · rw [World.sent, hlog]
    rfl

theorem sockFlowStart_took {c : Face} {written : List (Nat × Bytes)} (h : Took p c data written w₀ w) :
    wp (sockFlowStart p) (fun _ w' => Took p c data written w₀ w') (fun _ => True) w :=
  h.leaves (leaves_deref.bind fun _ => .modify fun _ => rfl)

theorem sockFlowStop_took {c : Face} {written : List (Nat × Bytes)} (h : Took p c data written w₀ w) :
    wp (sockFlowStop p) (fun _ w' => Took p c data written w₀ w') (fun _ => True) w := by
  obtain ⟨s, hp, hface⟩ := h.sock
  rw [sockFlowStop, wp_bind]
  refine wp_deref_some hp ?_
  rw [wp_bind]
  have hclear : Leaves (fun w => (w.heap, w.log)) (fdClear s.fd) := .modify fun _ => rfl
  refine (h.leaves hclear).post fun _ w₁ h₁ => ?_
  rw [wp_store]
  refine h₁.store ?_
  exact hface

/-- RR, RNR and REJ are answered by RR, if they ask for an answer. -/
theorem handleS_answered {flow : Ptr → M Unit} (hflow : ∀ {w}, Took p s.face (fun _ _ => False) w₀.written w₀ w →
      wp (flow p) (fun _ w' => Took p s.face (fun _ _ => False) w₀.written w₀ w') (fun _ => True) w)
    (hp : w₀.heap p = some s) (htype : f.type ≠ .i) :
    wp (handleS flow (some p) f) (fun _ w' => ∃ s', w'.heap p = some s' ∧ Answered s f w₀ s' w')
      (fun _ => True) w₀ := by
  rw [handleS, wp_bind]
  refine wp_deref_some hp ?_
  rw [wp_bind, wp_lift]
  refine ⟨fun s₁ hack => ?_, fun _ _ => trivial⟩
  have hface := face_frameAck hack
  have h : Took p s.face (fun _ _ => False) w₀.written w₀ (w₀.setSock p s₁) := (Took.start hp rfl).store hface
  have hend {w' : World} (h' : Took p s.face (fun _ _ => False) w₀.written w₀ w') :
      ∃ s', w'.heap p = some s' ∧ Answered s f w₀ s' w' := h'.answered htype fun _ _ _ _ h => h.elim
  rw [wp_bind, wp_store]
  cases f.cr with
  | command =>
    dsimp only
    rw [wp_ite]
    exact ⟨fun _ => (h.sendRr hface).post fun _ w' => hend, fun _ => hend h⟩
  | response =>
    dsimp only
    rw [wp_bind]
    exact (hflow h).post fun _ w' => hend
  | old => exact hend h

/-- SREJ is answered by what is in the slot of its number. -/
theorem handleSrej_answered (hp : w.heap p = some s) (H : s.HasSlots buf) (hva : s.va < s.slots) (hnr : f.nr < s.slots)
    (htype : f.type = .srej) : wp (handleSrej (some p) f)
      (fun _ w' => ∃ s', w'.heap p = some s' ∧ Answered s f w s' w') (fun _ => True) w := by
  obtain ⟨s₁, hack, hacked⟩ := H.frameAck hva hnr
  obtain ⟨buf₁, H₁⟩ := hacked.releases.slots
  have hface := face_frameAck hack
  have h : Took p s.face (s₁.SrejData f) w.written w (w.setSock p s₁) := (Took.start hp rfl).store hface
  have hspeaks : wp (sockResend s₁ f.nr) (fun _ w' => Speaks s.face (s₁.SrejData f) (w.setSock p s₁) w')
      (fun _ => True) (w.setSock p s₁) := by
    refine (hface ▸ sockResend_speaks H₁).post fun _ w' h => h.mono fun q bs hq => ?_
    obtain ⟨rfl, hne, hlen, hpay⟩ := hq
    exact ⟨htype, rfl, hne, hlen, hpay⟩
  rw [handleSrej, wp_bind]
  refine wp_deref_some hp ?_
  rw [wp_bind, hack, wp_lift_ok, wp_bind, wp_store, wp_bind]
  refine ((h.sends quiet_sockResend mute_sockResend hspeaks).and
    (quiet_sockResend.core.wp (fun _ _ h => h) fun _ => trivial)).post ?_
  rintro r w' ⟨h', hcore⟩
  have hend : ∃ s', w'.heap p = some s' ∧ Answered s f w s' w' := by
    refine h'.answered (by simp [htype]) fun s' hp' q bs hq => ?_
    have hp₁ : w'.heap p = some s₁ := (congrFun (congrArg Core.heap hcore) p).trans heap_setSock
    obtain rfl := Option.some.inj (hp₁.symm.trans hp')
    exact hq
  rw [wp_ite]
  exact ⟨fun _ => hend, fun _ => hend⟩

/-! ## Any frame of an open connection -/

theorem handleI_answered (hp : w.heap p = some s) (H : s.HasSlots buf) (hmode : s.mode ≠ .dm)
    (hstate : s.state = .established) (hva : s.va < s.slots) (hnr : f.nr < s.slots) (htype : f.type = .i)
    (hproto : f.proto ≠ PATTY_AX25_PROTO_FRAGMENT) (hpty : ¬w.sys.refuses) : wp (handleI i (some p) f)
      (fun _ w' => ∃ s', w'.heap p = some s' ∧ Answered s f w s' w') (fun _ => True) w := by
  obtain ⟨s₁, hack, -⟩ := H.frameAck hva hnr
  have hface := face_frameAck hack
  have hmode₁ : s₁.mode = s.mode := congrArg (Place.mode ∘ Face.place) hface
  rw [handleI, wp_bind]
  refine wp_deref_some hp ?_
  rw [if_neg (by simp [hstate]), wp_bind, hack, wp_lift_ok, wp_bind, wp_store]
  have hreceive : wp (iReceive p f) (fun _ w' => Took p
      { s₁.face with vr := if s₁.Expects f then (s₁.vr + 1) % s₁.slots else s₁.vr } (fun _ _ => False)
      (w.written ++ s₁.toPty f) w w') (fun _ => True) (w.setSock p s₁) :=
    iReceive_took heap_setSock rfl rfl (hmode₁ ▸ hmode) htype hproto hpty
  have hvr : s₁.vr = s.vr := congrArg Face.vr hface
  simp only [expects_congr hface, toPty_congr hface, hface, hvr, Sock.slots_congr hmode₁] at hreceive
  refine hreceive.post fun _ w' h => ?_
  obtain ⟨s', hp', hface'⟩ := h.sock
  refine ⟨s', hp', hface', h.written, ?_⟩
  rw [hface']
  exact h.speaks.mono fun _ _ h => h.elim

theorem handleType_answered {m : Mem} {offset len : Nat} (hp : w.heap p = some s) (H : s.HasSlots buf)
    (hmode : s.mode ≠ .dm) (hstate : s.state = .established) (hva : s.va < s.slots) (hnr : f.nr < s.slots)
    (htype : f.type = .i ∧ f.proto ≠ PATTY_AX25_PROTO_FRAGMENT ∨ f.type.isS) (hpty : ¬w.sys.refuses) :
    wp (handleType i (some p) f m offset len)
      (fun _ w' => ∃ s', w'.heap p = some s' ∧ Answered s f w s' w') (fun _ => True) w := by
  unfold handleType
  obtain ⟨hI, hproto⟩ | hS := htype
  · rw [hI]
    exact handleI_answered hp H hmode hstate hva hnr hI hproto hpty
  · obtain h | h | h | h := FrameType.isS_iff.mp hS
    · rw [h]
      exact handleS_answered sockFlowStart_took hp (by simp [h])
    · rw [h]
      exact handleS_answered sockFlowStop_took hp (by simp [h])
    · rw [h]
      exact handleS_answered sockFlowStart_took hp (by simp [h])
    · rw [h]
      exact handleSrej_answered hp H hva hnr h

end M

end Patty
