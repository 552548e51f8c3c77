import Patty.Link.Side

/-! # The turn of a connection

A turn of an established STREAM socket leaves its transmitting side alone, or sends the frame with
number V(S) again, or reads new data and sends it under V(S); the last may follow the second within
one turn if the driver does not pass the frame on (`handleSock_spec`). -/

namespace Patty

open Prog

namespace M

variable {w : World} {p : Ptr} {s : Sock} {buf : Buf}

/-! ## Sending -/

theorem ifSent_result {i : Nat} {iface : Iface} {bs : Bytes} :
    wp (ifSent i iface bs) (fun r _ => r = -1 ∨ r = bs.length) (fun _ => True) w := by
  rw [ifSent, wp_bind]
  refine wp_intro fun _ w₁ _ => ?_
  rw [wp_bind]
  refine wp_intro fun r w₂ _ => ?_
  rw [wp_ite]
  exact ⟨fun _ => .inl rfl, fun _ => .inr rfl⟩

/-- Only a driver that does not pass a frame on returns 0 for it. -/
theorem ifSend_zero {i : Nat} {frame : Bytes} (hne : frame ≠ []) :
    wp (ifSend i frame) (fun r _ => r = 0 → w.sys.ignores) (fun _ => True) w := by
  rw [ifSend, wp_bind, wp_getIface]
  refine ⟨fun iface _ => ?_, fun _ => trivial⟩
  have hsent {w' : World} : wp (do emit (.ifSend i frame); ifSent i iface frame)
      (fun r _ => r = 0 → w.sys.ignores) (fun _ => True) w' := by
    rw [wp_bind]
    refine wp_intro fun _ w₁ _ => ifSent_result.post fun r _ hr h0 => ?_
    have hpos := List.length_pos_iff.mpr hne
    omega
  rw [wp_bind, wp_answer]
  refine ⟨fun _ => hsent, ?_⟩
  rintro (_ | _ | e) as h
  · exact hsent
  · refine wp_intro fun _ _ _ _ => ?_
    simp [Sys.ignores, h]
  · simp

theorem encodeFrame_ne_nil {cr : FrameCr} {control : Nat} {proto : UInt8} {info frame : Bytes}
    (h : s.encodeFrame cr control proto info = .ok (.ok frame)) : frame ≠ [] := by
  rw [encodeFrame_ok h]
  simp [Sock.frameHeader]

theorem frameSend_zero {cr : FrameCr} {control : Nat} {proto : UInt8} {info : Bytes} :
    wp (frameSend s cr control proto info) (fun r _ => r = 0 → w.sys.ignores) (fun _ => True) w := by
  rw [frameSend, wp_bind, wp_lift]
  refine ⟨?_, fun _ _ => trivial⟩
  rintro ((_ | e) | frame) h
  · simp
  · simp
  · dsimp only
    split
    · exact ifSend_zero (encodeFrame_ne_nil h)
    · simp

/-- What `patty_ax25_sock_resend_pending` returns for the socket `s`, where `ignores` says that the
driver does not pass on what is sent. -/
inductive Resend (s : Sock) (ignores : Bool) : Int × Sock → Prop
  | nothing : s.payload s.vs = none → Resend s ignores (0, s)
  | failed {r : Int} : s.payload s.vs ≠ none → r < 0 → Resend s ignores (r, s)
  | sent {r : Int} : s.payload s.vs ≠ none → 0 ≤ r → (r = 0 → ignores) →
    Resend s ignores (r, { s with vs := s.txSeq (s.vs + 1) })

theorem sockResendPending_spec (H : s.HasSlots buf) : wp (sockResendPending s)
    (fun r w' => w'.core = w.core ∧ Resend s w.sys.ignores r) (fun _ => True) w := by
  rw [sockResendPending, wp_bind, H.txSlot, wp_lift_ok]
  dsimp only
  rw [H.pending_iff, wp_ite]
  constructor
  · intro hpay
    have hne : s.payload s.vs ≠ none := Option.isSome_iff_ne_none.mp hpay
    have hres : wp (sockResend s s.vs) (fun r w' => r = 0 → w.sys.ignores) (fun _ => True) w := by
      have hlen := H.pending_iff s.vs
      rw [hpay, Bool.and_eq_true, decide_eq_true_eq] at hlen
      rw [sockResend, wp_bind, H.txSlot, wp_lift_ok]
      dsimp only
      rw [if_pos hlen.1]
      exact frameSend_zero
    rw [wp_bind]
    refine wp_intro fun r w₁ h => ?_
    have hcore : w₁.core = w.core := quiet_sockResend.core _ _ _ h
    rw [wp_ite]
    refine ⟨fun _ => ⟨hcore, .failed hne (by decide)⟩, fun hr => ⟨hcore, ?_⟩⟩
    exact .sent hne (by omega) (hres.ok h)
  · intro hpay
    exact ⟨rfl, .nothing (by simpa using hpay)⟩

theorem vsIncr_eq (h : s.mode ≠ .dm) :
    s.vsIncr = { s with vs := s.txSeq (s.vs + 1) } := by
  have h8 : (s.vs + 1) &&& 0x07 = (s.vs + 1) % 8 := Nat.and_two_pow_sub_one_eq_mod _ 3
  have h128 : (s.vs + 1) &&& 0x7f = (s.vs + 1) % 128 := Nat.and_two_pow_sub_one_eq_mod _ 7
  cases hm : s.mode
  · exact absurd hm h
  · simp [Sock.vsIncr, Sock.txSeq, Sock.slots, hm, h8]
  · simp [Sock.vsIncr, Sock.txSeq, Sock.slots, hm, h128]

/-- What `patty_ax25_sock_write` returns for data that fits a frame. -/
theorem sockWriteBytes_spec {bs : Bytes} (H : s.HasSlots buf) (hmode : s.mode ≠ .dm)
    (htype : s.type = .stream) (hne : bs ≠ []) (hlen : bs.length ≤ s.nMaxlenTx) :
    wp (sockWriteBytes s bs) (fun r w' => w'.core = w.core ∧ ∃ buf', s.Saves bs buf' ∧
      (r.1 < 0 ∧ r.2.link = { s.link with txSlots := some buf' } ∨ 0 ≤ r.1 ∧ r.2.link =
        { s.link with txSlots := some buf', vs := s.txSeq (s.vs + 1) })) (fun _ => True) w := by
  obtain ⟨buf', hsave, hsaves⟩ := H.txSlotSave hne hlen
  have hread : (Mem.ofBytes bs fun _ => 0).read 0 bs.length = bs := Mem.read_ofBytes _
  rw [sockWriteBytes, sockWrite, if_neg hmode]
  simp only [htype]
  rw [if_neg (by omega), wp_bind, hread, hsave, wp_lift_ok, wp_bind]
  refine quiet_frameSend.core.wp (fun r w₁ h₁ => ?_) fun _ => trivial
  rw [wp_ite]
  refine ⟨fun _ => ⟨h₁, buf', hsaves, .inl ⟨by simp, rfl⟩⟩, fun _ => ⟨h₁, buf', hsaves, .inr ⟨by simp, ?_⟩⟩⟩
  have hincr := vsIncr_eq (s := { s with txSlots := some buf' }) hmode
  exact congrArg Sock.link hincr

/-- What reading from the pty returns. -/
theorem readPty_spec {inp : Except Errno Bytes} : wp (readPty s inp)
    (fun r w' => w'.core = w.core ∧ ∀ bs, r = .ok bs → bs ≠ [] →
      ∃ data, inp = .ok data ∧ bs = data.take s.nMaxlenTx) (fun _ => True) w := by
  refine wp_intro fun r w' h => ⟨quiet_readPty.core _ _ _ h, ?_⟩
  rintro bs rfl hne
  cases inp with
  | error e =>
    obtain ⟨_, _, _, h⟩ := bind_eq_ok.mp h
    cases h
  | ok data =>
    refine ⟨data, rfl, ?_⟩
    rw [readPty] at h
    by_cases hempty : (data.take s.nMaxlenTx).isEmpty
    · rw [if_pos hempty] at h
      cases h
      exact absurd rfl hne
    rw [if_neg hempty] at h
    cases hio : s.ioBuf with
    | none =>
      rw [hio] at h
      obtain ⟨_, _, _, h⟩ := bind_eq_ok.mp h
      cases h
    | some size =>
      rw [hio] at h
      dsimp only at h
      split at h
      · cases h
      · cases h
        rfl

end M

/-! ## A turn -/

/-- A turn of a socket: the time that has passed, whether the pty is ready, what reading from it
returns, and what the system answers. -/
structure Turn where
  elapsed : Timespec
  ready : Bool
  inp : Except Errno Bytes
  sys : Sys

/-- The bytes that reading from the pty gives. -/
def Turn.data (t : Turn) (s : Sock) : Bytes :=
  match t.inp with
  | .ok bs => bs.take s.nMaxlenTx
  | .error _ => []

/-- What reading new data does to the transmitting side of `s`, where `bs` is the data. -/
inductive ReadEffect (s : Sock) (bs : Bytes) : Link → Prop
  | nothing : ReadEffect s bs s.link
  /-- The data is in its slot, but could not be sent. -/
  | saved {buf : Buf} : bs ≠ [] → s.Saves bs buf →
    ReadEffect s bs { s.link with txSlots := some buf }
  | sent {buf : Buf} : bs ≠ [] → s.Saves bs buf →
    ReadEffect s bs { s.link with txSlots := some buf, vs := s.txSeq (s.vs + 1) }

theorem ReadEffect.congr {s s' : Sock} {bs : Bytes} {l : Link} (h : ReadEffect s bs l)
    (hl : s'.link = s.link) : ReadEffect s' bs l := by
  cases h with
  | nothing => exact hl ▸ .nothing
  | saved hne hsave => exact hl ▸ .saved hne (hsave.link hl)
  | sent hne hsave =>
    have hvs : s'.vs = s.vs := congrArg Link.vs hl
    rw [← hl, ← Sock.link_txSeq hl, ← hvs]
    exact .sent hne (hsave.link hl)

/-- No timer of the socket expires that its turn would handle. -/
structure Sock.QuietTimers (s : Sock) (elapsed : Timespec) : Prop where
  t1 : ¬(s.timerT1.tick elapsed).expired
  t2 : ¬((s.timerT2.tick elapsed).expired ∧ s.rxPending ≠ 0)
  t3 : ¬(s.timerT3.tick elapsed).expired

/-- In its turn the socket gets to read new data, and V(S) is then `v`: it is what it was, or a frame
was sent again that the driver did not pass on. -/
structure Sock.ReadsAt (s : Sock) (watched : Bool) (t : Turn) (v : Nat) : Prop where
  ready : t.ready && watched
  timers : s.QuietTimers t.elapsed
  data : t.data s ≠ []
  seq : s.payload s.vs = none ∧ v = s.vs ∨
    s.payload s.vs ≠ none ∧ t.sys.ignores ∧ v = s.txSeq (s.vs + 1)

/-- What a turn does to the transmitting side of `s`. -/
inductive TurnEffect (s : Sock) (watched : Bool) (t : Turn) : Link → Prop
  | idle : TurnEffect s watched t s.link
  /-- The frame with number V(S) was sent again. -/
  | resent : s.payload s.vs ≠ none →
    TurnEffect s watched t { s.link with vs := s.txSeq (s.vs + 1) }
  | read {v : Nat} {l : Link} : s.ReadsAt watched t v → ReadEffect { s with vs := v } (t.data s) l →
    TurnEffect s watched t l

namespace M

variable {w : World} {p : Ptr} {s : Sock} {buf : Buf}

theorem sockRead_spec {inp : Except Errno Bytes} (hp : w.heap p = some s) (H : s.HasSlots buf)
    (hmode : s.mode ≠ .dm) (htype : s.type = .stream) (hstate : s.state = .established) :
    wp (sockRead p inp) (fun _ w' => WhileOpen p
      (fun l => l = s.link ∨ ∃ data, inp = .ok data ∧ ReadEffect s (data.take s.nMaxlenTx) l) w')
      (fun _ => True) w := by
  rw [sockRead, wp_bind]
  refine wp_deref_some hp ?_
  rw [wp_bind]
  refine readPty_spec.post ?_
  rintro r w₁ ⟨hcore, hdata⟩
  have hp₁ : w₁.heap p = some s := (congrFun (congrArg Core.heap hcore) p).trans hp
  split
  · simpa only [wp_bind, wp_pure] using WhileOpen.shutdown hp₁ htype hstate
  · simpa only [wp_bind, wp_pure] using WhileOpen.shutdown hp₁ htype hstate
  · exact (wp_pure _).mpr (.of_heap hp₁ (.inl rfl))
  · rename_i bs hne
    have hbs : bs ≠ [] := fun h => hne (h ▸ rfl)
    obtain ⟨data, rfl, rfl⟩ := hdata bs rfl hbs
    rw [wp_bind]
    refine (sockWriteBytes_spec H hmode htype hbs (List.length_take_le ..)).post ?_
    rintro ⟨r, s₂⟩ w₂ ⟨hcore₂, buf', hsave, hr⟩
    simp only [wp_bind, wp_store, wp_ite, wp_pure] at hr ⊢
    obtain ⟨hneg, hl⟩ | ⟨hpos, hl⟩ := hr
    · refine ⟨fun _ => WhileOpen.close heap_setSock (.inr ⟨data, rfl, ?_⟩), fun h => absurd hneg h⟩
      rw [hl]
      exact .saved hbs hsave
    · refine ⟨fun h => absurd h (by omega), fun _ => .of_heap heap_setSock (.inr ⟨data, rfl, ?_⟩)⟩
      have hsent := ReadEffect.sent hbs hsave
      rw [← hl] at hsent
      exact hsent

theorem flowCheck_spec : wp (flowCheck p s)
    (fun _ w' => w'.sys = w.sys ∧ ∃ flow, w'.heap p = some { s with flow }) (fun _ => True) w := by
  rw [flowCheck, wp_bind, wp_store, wp_ite]
  refine ⟨fun _ => ?_, fun _ => ⟨rfl, _, heap_setSock⟩⟩
  rw [sockFlowStop, wp_bind]
  refine wp_deref_some heap_setSock ?_
  exact ⟨rfl, _, heap_setSock⟩

/-- Sending again, for a socket that has the transmitting side of `s`. -/
theorem resend_effect {s₁ s₂ : Sock} {t : Turn} {watched ign : Bool} {r : Int} (hl : s₁.link = s.link)
    (h : Resend s₁ ign (r, s₂)) : TurnEffect s watched t s₂.link ∧
      (r = 0 → ∃ v, s₂.link = { s with vs := v }.link ∧ (s.payload s.vs = none ∧ v = s.vs ∨
        s.payload s.vs ≠ none ∧ ign ∧ v = s.txSeq (s.vs + 1))) := by
  have hvs : s₁.vs = s.vs := congrArg Link.vs hl
  have hpay : s₁.payload s₁.vs = s.payload s.vs := by rw [Sock.link_payload hl, hvs]
  cases h with
  | nothing h =>
    rw [hpay] at h
    exact ⟨hl ▸ .idle, fun _ => ⟨s.vs, hl, .inl ⟨h, rfl⟩⟩⟩
  | failed h hneg => exact ⟨hl ▸ .idle, fun h => absurd h (by omega)⟩
  | sent h hpos hzero =>
    rw [hpay] at h
    have hl₂ : { s₁ with vs := s₁.txSeq (s₁.vs + 1) }.link = { s.link with vs := s.txSeq (s.vs + 1) } := by
      rw [← hl, ← Sock.link_txSeq hl, ← hvs]
      rfl
    rw [hl₂]
    exact ⟨.resent h, fun h0 => ⟨s.txSeq (s.vs + 1), rfl, .inr ⟨h, hzero h0, rfl⟩⟩⟩

theorem sockSend_spec {s₁ : Sock} {t : Turn} (hp : w.heap p = some s₁) (hl : s₁.link = s.link)
    (hquiet : s.QuietTimers t.elapsed) (H : s.HasSlots buf) (hmode : s.mode ≠ .dm)
    (htype : s.type = .stream) (hstate : s.state = .established) (hsys : w.sys = t.sys) :
    wp (sockSend p t.ready t.inp)
      (fun _ w' => WhileOpen p (TurnEffect s (w.fdsWatch s₁.fd) t) w') (fun _ => True) w := by
  rw [sockSend, wp_bind]
  refine wp_deref_some hp ?_
  rw [fdIsset, wp_bind, wp_gets, wp_ite]
  refine ⟨fun _ => .of_heap hp (hl ▸ .idle), fun hready => ?_⟩
  simp only [Bool.not_eq_true', Bool.not_eq_false] at hready
  rw [wp_bind]
  refine flowCheck_spec.post ?_
  rintro _ w₁ ⟨hsys₁, flow, hp₁⟩
  rw [wp_bind]
  refine wp_deref_some hp₁ ?_
  have hl₁ : { s₁ with flow }.link = s.link := hl
  rw [wp_bind]
  refine (sockResendPending_spec (H.link hl₁)).post ?_
  rintro ⟨r, s₂⟩ w₂ ⟨-, hr⟩
  obtain ⟨hstay, hseq⟩ := resend_effect hl₁ hr
  simp only [wp_bind, wp_store, wp_ite]
  refine ⟨fun _ => .of_heap heap_setSock hstay, fun _ => ⟨fun _ => .of_heap heap_setSock hstay, fun _ => ?_⟩⟩
  obtain ⟨v, hs₂, hv⟩ := hseq (by omega)
  rw [hsys₁, hsys] at hv
  have hm : s₂.mode = s.mode := congrArg Link.mode hs₂
  have ht : s₂.type = s.type := congrArg Link.type hs₂
  have hst : s₂.state = s.state := congrArg Link.state hs₂
  have hn : s₂.nMaxlenTx = s.nMaxlenTx := congrArg Link.nMaxlenTx hs₂
  refine (sockRead_spec heap_setSock ((H.vs v).link hs₂) (hm ▸ hmode) (ht ▸ htype)
    (hst ▸ hstate)).post fun _ w' h => h.mono fun l heff => ?_
  obtain rfl | ⟨data, hinp, heff⟩ := heff
  · exact hstay
  have hdata : t.data s = data.take s₂.nMaxlenTx := by rw [Turn.data, hinp, hn]
  rw [← hdata] at heff
  cases heff with
  | nothing => exact hstay
  | saved hne hsave =>
    exact .read ⟨hready, hquiet, hne, hv⟩ ((ReadEffect.saved hne hsave).congr hs₂.symm)
  | sent hne hsave =>
    exact .read ⟨hready, hquiet, hne, hv⟩ ((ReadEffect.sent hne hsave).congr hs₂.symm)

theorem link_retries (s : Sock) (retries : Nat) : { s with retries }.link = s.link := rfl

theorem link_timerT1 (s : Sock) (timerT1 : Timer) : { s with timerT1 }.link = s.link := rfl

theorem link_retriesDecr (s : Sock) : s.retriesDecr.link = s.link := by
  unfold Sock.retriesDecr
  exact link_retries s _

theorem link_retry (s : Sock) : (retry s).link = s.link := by
  unfold retry
  exact (link_timerT1 s.retriesDecr _).trans (link_retriesDecr s)

theorem handleSockT1_spec {s₁ : Sock} {t : Turn} {watched : Bool} (hl : s₁.link = s.link)
    (H : s.HasSlots buf) (htype : s.type = .stream) (hstate : s.state = .established) :
    wp (handleSockT1 p s₁) (fun _ w' => WhileOpen p (TurnEffect s watched t) w')
      (fun _ => True) w := by
  rw [handleSockT1, wp_ite]
  constructor
  · intro _
    have hl' : (retry s₁).link = s.link := (link_retry s₁).trans hl
    rw [wp_bind]
    refine (sockResendPending_spec (H.link hl')).post ?_
    rintro ⟨r, s₂⟩ w₁ ⟨-, hr⟩
    have hstay : TurnEffect s watched t s₂.link := (resend_effect hl' hr).1
    rw [wp_bind, wp_store, wp_ite]
    refine ⟨fun _ => .of_heap heap_setSock hstay, fun _ => ?_⟩
    rw [wp_bind]
    exact WhileOpen.quiet quiet_sendRr heap_setSock hstay
  · intro _
    have hl' : s₁.retriesDecr.link = s.link := (link_retriesDecr s₁).trans hl
    generalize s₁.retriesDecr = s₂ at hl' ⊢
    have ht : s₂.type = s.type := congrArg Link.type hl'
    have hst : s₂.state = s.state := congrArg Link.state hl'
    rw [wp_bind, wp_store, wp_bind]
    refine (sockShutdown_spec heap_setSock (ht.trans htype) (hst.trans hstate)).post ?_
    rintro _ w₁ ⟨s₂, hp₂, hs₂⟩
    refine (sockClose_spec hp₂).post fun _ w₂ h => ?_
    obtain hnone | hsome := h
    · exact .of_none hnone
    · exact .of_state hsome (by simp [hs₂])

/-- The turn of an established connection once the timers have ticked. -/
theorem handleSockEstablished_spec {s₁ : Sock} {t : Turn} (hl : s₁.link = s.link)
    (h₁ : s₁ = tickTimers s t.elapsed) (H : s.HasSlots buf) (hmode : s.mode ≠ .dm)
    (htype : s.type = .stream) (hstate : s.state = .established) (hsys : w.sys = t.sys) :
    wp (handleSockEstablished p s₁ t.ready t.inp)
      (fun _ w' => WhileOpen p (TurnEffect s (w.fdsWatch s.fd) t) w') (fun _ => True) w := by
  rw [handleSockEstablished, wp_ite]
  refine ⟨fun _ => handleSockT1_spec hl H htype hstate, fun hT1 => ?_⟩
  have hsend {s' : Sock} {m : M Int} (hm : Quiet m) (hs : s'.link = s.link) :
      wp m (fun _ w' => WhileOpen p (TurnEffect s (w.fdsWatch s.fd) t) w') (fun _ => True)
        (w.setSock p s') := WhileOpen.quiet hm heap_setSock (hs ▸ .idle)
  -- stopping T2 changes nothing else
  obtain ⟨s₂, hs₂, hl₂, hfd₂, hrx₂, hT3₂⟩ : ∃ s₂, s₂ = (if s₁.timerT2.expired then
      { s₁ with timerT2 := s₁.timerT2.stop } else s₁) ∧ s₂.link = s.link ∧ s₂.fd = s.fd ∧
      s₂.rxPending = s.rxPending ∧ s₂.timerT3 = s₁.timerT3 := by
    refine ⟨_, rfl, ?_⟩
    split
    · exact ⟨hl, by rw [h₁]; rfl, by rw [h₁]; rfl, rfl⟩
    · exact ⟨hl, by rw [h₁]; rfl, by rw [h₁]; rfl, rfl⟩
  dsimp only
  rw [← hs₂, wp_ite]
  refine ⟨fun _ => ?_, fun hT2 => ?_⟩
  · rw [wp_bind, wp_store]
    exact hsend quiet_sendRr hl₂
  rw [wp_ite]
  refine ⟨fun _ => ?_, fun hT3 => ?_⟩
  · rw [wp_bind, wp_store]
    exact hsend quiet_sendRr hl₂
  have hquiet : s.QuietTimers t.elapsed := by
    rw [hT3₂] at hT3
    rw [hrx₂] at hT2
    subst h₁
    exact ⟨hT1, hT2, hT3⟩
  rw [wp_bind, wp_store, ← hfd₂]
  exact sockSend_spec heap_setSock hl₂ hquiet H hmode htype hstate hsys

/-- What the turn of an established connection does to its transmitting side. -/
theorem handleSock_spec {t : Turn} (hp : w.heap p = some s) (H : s.HasSlots buf)
    (hmode : s.mode ≠ .dm) (htype : s.type = .stream) (hstate : s.state = .established)
    (hsys : w.sys = t.sys) : wp (handleSock p t.elapsed t.ready t.inp)
      (fun _ w' => WhileOpen p (TurnEffect s (w.fdsWatch s.fd) t) w') (fun _ => True) w := by
  rw [handleSock, wp_bind]
  refine wp_deref_some hp ?_
  have hst : (tickTimers s t.elapsed).state = .established := hstate
  simp only [htype, hst]
  rw [wp_bind, wp_store]
  exact handleSockEstablished_spec rfl rfl H hmode htype hstate hsys

end M

end Patty
