import Patty.Delivery.Heard
import Patty.Retransmit
import Patty.Upkeep.Socks

/-! # What a turn of an open connection says

The turn of an established STREAM socket sends the frame with number V(S) again, or data it has just read under V(S), or
S frames; V(R) and all else that its frames depend on stays, and nothing is written to its pty (`handleSock_turned`).
It reads new data exactly if its pty is ready, no timer has to be handled and nothing waits under V(S). -/

namespace Patty

open Prog

/-! ## What is said -/

/-- What was sent since `w` are frames that a connection with the face `c` may send. -/
def Speaks (c : Face) (data : Nat → Bytes → Prop) (w w' : World) : Prop :=
  ∃ new, w'.sent = w.sent ++ new ∧ ∀ x ∈ new, Utters c data x.2

namespace Speaks

variable {c : Face} {data data' : Nat → Bytes → Prop} {w w' w'' : World}

theorem of_eq (h : w'.sent = w.sent) : Speaks c data w w' :=
  ⟨[], h.trans (List.append_nil _).symm, fun _ hx => absurd hx List.not_mem_nil⟩

theorem one {i : Nat} {octets : Bytes} (h : w'.sent = w.sent ++ [(i, octets)]) (hu : Utters c data octets) :
    Speaks c data w w' :=
  ⟨[(i, octets)], h, fun x hx => by rw [List.mem_singleton.mp hx]; exact hu⟩

theorem trans (h : Speaks c data w w') (h' : Speaks c data w' w'') : Speaks c data w w'' := by
  obtain ⟨new, hsent, hnew⟩ := h
  obtain ⟨new', hsent', hnew'⟩ := h'
  refine ⟨new ++ new', by rw [hsent', hsent, List.append_assoc], fun x hx => ?_⟩
  exact (List.mem_append.mp hx).elim (hnew x) (hnew' x)

theorem mono (h : Speaks c data w w') (hdata : ∀ seq bs, data seq bs → data' seq bs) :
    Speaks c data' w w' := by
  obtain ⟨new, hsent, hnew⟩ := h
  exact ⟨new, hsent, fun x hx => (hnew x hx).mono hdata⟩

end Speaks

namespace M

variable {α : Type} {c : Face} {data : Nat → Bytes → Prop} {w w₀ : World} {s : Sock} {buf : Buf} {p : Ptr}

/-! ## Sending -/

theorem frameSend_i {seq : Nat} {bs : Bytes} (hface : s.face = c) (hdata : data seq bs) :
    wp (frameSend s .command (s.controlI seq) (UInt8.ofNat s.proto) bs) (fun _ w' => Speaks c data w w')
      (fun _ => True) w := by
  refine frameSend_sent.post fun _ w' h => ?_
  obtain h | ⟨i, h⟩ := h
  · exact .of_eq h
  · exact .one h (.info hface hdata)

theorem sendS_speaks {type : FrameType} {cr : FrameCr} {pf : Nat} (hface : s.face = c) (htype : type.isS)
    (hpf : pf ≤ 1) : wp (sendS type s cr pf) (fun _ w' => Speaks c data w w') (fun _ => True) w := by
  refine frameSend_sent.post fun _ w' h => ?_
  obtain h | ⟨i, h⟩ := h
  · exact .of_eq h
  · exact .one h (.super hface htype hpf)

theorem sendRr_speaks {cr : FrameCr} {pf : Nat} (hface : s.face = c) (hpf : pf ≤ 1) :
    wp (sendRr s cr pf) (fun _ w' => Speaks c data w w') (fun _ => True) w :=
  sendS_speaks hface rfl hpf

theorem mute_sockResend {seq : Nat} : Mute (sockResend s seq) :=
  Leaves.lift.bind fun _ => .ite mute_frameSend .pure

theorem mute_sockResendPending : Mute (sockResendPending s) :=
  Leaves.lift.bind fun _ => .ite (mute_sockResend.bind fun _ => .ite .pure .pure) .pure

/-- The frame with number V(S) is sent again as it was. -/
theorem sockResendPending_speaks (H : s.HasSlots buf) (hmode : s.mode ≠ .dm) (hvs : s.vs < s.slots) :
    wp (sockResendPending s) (fun _ w' => Speaks s.face (fun seq bs => seq = s.vs ∧ s.payload s.vs = some bs) w w')
      (fun _ => True) w := by
  rw [sockResendPending, wp_bind, H.txSlot, wp_lift_ok]
  dsimp only
  rw [H.pending_iff, wp_ite]
  refine ⟨fun hpay => ?_, fun _ => .of_eq rfl⟩
  obtain ⟨d, hd⟩ := Option.isSome_iff_exists.mp hpay
  have hstored : s.Stores ⟨s.vs, UInt8.ofNat s.proto, d⟩ := ⟨hvs, rfl, hd⟩
  have hsend : wp (frameSend s .command (s.controlI s.vs) (UInt8.ofNat s.proto) d)
      (fun _ w' => Speaks s.face (fun seq bs => seq = s.vs ∧ s.payload s.vs = some bs) w w') (fun _ => True) w :=
    frameSend_i rfl ⟨rfl, hd⟩
  rw [(H.retains hmode hstored).resend, wp_bind]
  refine hsend.post fun r w' h => ?_
  rw [wp_ite]
  exact ⟨fun _ => h, fun _ => h⟩

/-! ## Closing -/

theorem log_unseen : Unseen World.log fun _ => False where
  errno _ _ := rfl
  sys _ _ := rfl
  log _ _ h := h.elim
  stats _ _ _ := rfl

theorem log_sockClose : Leaves World.log (sockClose p) := by
  have hlisted : Unlisted World.log := fun _ _ _ _ _ _ => rfl
  have hdestroy : Leaves World.log (sockDestroy p) := by
    refine leaves_deref.bind fun s => Leaves.bind ?_ fun _ =>
      Leaves.bind (.ite (.modify fun _ => rfl) .pure) fun _ =>
        leaves_deref.bind fun _ => .modify fun _ => rfl
    refine .ite ?_ .pure
    cases s.iface with
    | none => exact .fault
    | some i => exact .modify fun _ => rfl
  refine leaves_deref.bind fun s => hlisted.deleteByState.bind fun _ => .ite (Leaves.get.bind fun _ => ?_) .pure
  split
  · exact .pure
  refine Leaves.get.bind fun w => ?_
  split
  · exact .pure
  exact .ite (Leaves.bind (.modify (by intro; rfl)) fun _ => Leaves.get.bind fun _ =>
    .ite (Leaves.bind (.modify (by intro; rfl)) fun _ => Leaves.bind (.modify fun _ => rfl) fun _ =>
      hdestroy.bind fun _ => .pure) .pure) .pure

end M

/-! ## While a connection is open -/

/-- If the socket `p` is still established, it satisfies `P`. -/
def OpenTo (p : Ptr) (P : Sock → World → Prop) (w : World) : Prop :=
  ∀ s, w.heap p = some s → s.state = .established → P s w

namespace OpenTo

open M

variable {α : Type} {p : Ptr} {P : Sock → World → Prop} {w : World} {s : Sock}

theorem of_heap (hp : w.heap p = some s) (h : P s w) : OpenTo p P w := by
  intro s' hs' _
  obtain rfl := Option.some.inj (hp.symm.trans hs')
  exact h

theorem of_state (hp : w.heap p = some s) (h : s.state ≠ .established) : OpenTo p P w := by
  intro s' hs' hstate
  obtain rfl := Option.some.inj (hp.symm.trans hs')
  exact absurd hstate h

theorem of_none (hp : w.heap p = none) : OpenTo p P w := by
  intro s' hs'
  rw [hp] at hs'
  cases hs'

/-- What becomes of a property of the log when the connection is closed. -/
theorem close (hp : w.heap p = some s) (h : ∀ w', w'.log = w.log → P s w') :
    wp (sockClose p) (fun _ w' => OpenTo p P w') (fun _ => True) w := by
  refine ((sockClose_spec hp).and (log_sockClose.wp (fun _ _ h => h) fun _ => trivial)).post ?_
  rintro _ w' ⟨hnone | hsome, hlog⟩
  · exact of_none hnone
  · exact of_heap hsome (h w' hlog)

theorem shutdown (hp : w.heap p = some s) (htype : s.type = .stream) (hstate : s.state = .established) :
    wp (sockShutdown p) (fun _ w' => OpenTo p P w') (fun _ => True) w := by
  refine (sockShutdown_spec hp htype hstate).post fun _ w' hw' => ?_
  obtain ⟨s', hp', hs'⟩ := hw'
  exact of_state hp' (by simp [hs'])

end OpenTo

/-! ## A turn -/

theorem Turn.data_length (t : Turn) (s : Sock) : (t.data s).length ≤ s.nMaxlenTx := by
  unfold Turn.data
  cases t.inp with
  | ok bs => exact List.length_take_le ..
  | error e => exact Nat.zero_le _

/-- In its turn the socket reads new data. -/
structure Sock.Reads (s : Sock) (watched : Bool) (t : Turn) : Prop where
  ready : t.ready && watched
  timers : s.QuietTimers t.elapsed
  empty : s.payload s.vs = none
  data : t.data s ≠ []

/-- What a turn may send under a number: what waits under V(S), or the data that it reads. -/
def Sock.TurnData (s : Sock) (watched : Bool) (t : Turn) (seq : Nat) (bs : Bytes) : Prop :=
  seq = s.vs ∧ (s.payload s.vs = some bs ∨ s.Reads watched t ∧ bs = t.data s)

/-- What a turn has done when the connection is still open. -/
structure Turned (s : Sock) (watched : Bool) (t : Turn) (w : World) (s' : Sock) (w' : World) : Prop where
  face : s'.face = s.face
  written : w'.written = w.written
  speaks : Speaks s.face (s.TurnData watched t) w w'
  /-- The data that it reads is in its slot. -/
  read : s.Reads watched t → ∃ buf, s.Saves (t.data s) buf ∧
    (s'.link = { s.link with txSlots := some buf } ∨
      s'.link = { s.link with txSlots := some buf, vs := s.txSeq (s.vs + 1) })

namespace M

variable {w w₀ : World} {p : Ptr} {s s₁ : Sock} {buf : Buf} {t : Turn} {watched : Bool}

/-- In a turn that began in `w₀` with the socket `s`: the socket is now `s₁`, and no more than what waits under V(S) has
been sent. -/
structure Mid (p : Ptr) (s : Sock) (w₀ : World) (s₁ : Sock) (w : World) : Prop where
  heap : w.heap p = some s₁
  face : s₁.face = s.face
  written : w.written = w₀.written
  speaks : Speaks s.face (fun seq bs => seq = s.vs ∧ s.payload s.vs = some bs) w₀ w

namespace Mid

/-- A turn that does not read only sends. -/
theorem turned (h : Mid p s w₀ s₁ w) (hread : ¬s.Reads watched t) : Turned s watched t w₀ s₁ w where
  face := h.face
  written := h.written
  speaks := h.speaks.mono fun _ _ h => ⟨h.1, .inl h.2⟩
  read h := absurd h hread

theorem done (h : Mid p s w₀ s₁ w) (hread : ¬s.Reads watched t) : OpenTo p (Turned s watched t w₀) w :=
  .of_heap h.heap (h.turned hread)

theorem store {s₂ : Sock} (h : Mid p s w₀ s₁ w) (hface : s₂.face = s.face) : Mid p s w₀ s₂ (w.setSock p s₂) :=
  ⟨heap_setSock, hface, h.written, h.speaks⟩

/-- The rule for a call that sends. -/
theorem sends {α : Type} {m : M α} (h : Mid p s w₀ s₁ w) (hq : Quiet m) (hm : Mute m)
    (hs : wp m (fun _ w' => Speaks s.face (fun seq bs => seq = s.vs ∧ s.payload s.vs = some bs) w w')
      (fun _ => True) w) : wp m (fun _ w' => Mid p s w₀ s₁ w') (fun _ => True) w := by
  refine wp_intro fun _ w' hr => ⟨?_, h.face, (hm _ _ _ hr).trans h.written, h.speaks.trans (hs.ok hr)⟩
  exact (congrFun (hq.heap hr) p).trans h.heap

theorem sendRr {cr : FrameCr} (h : Mid p s w₀ s₁ w) :
    wp (sendRr s₁ cr 1) (fun _ w' => Mid p s w₀ s₁ w') (fun _ => True) w :=
  h.sends quiet_sendRr mute_frameSend (sendRr_speaks h.face le_rfl)

end Mid

/-- What waits under V(S) is sent again. -/
theorem sockResendPending_mid {s₂ : Sock} (h : Mid p s w₀ s₁ w) (hl : s₂.link = s.link) (hface : s₂.face = s.face)
    (H : s.HasSlots buf) (hmode : s.mode ≠ .dm) (hvs : s.vs < s.slots) (hign : ¬w.sys.ignores) :
    wp (sockResendPending s₂) (fun r w' => Mid p s w₀ s₁ w' ∧ r.2.face = s.face ∧
      (r.1 = 0 → s.payload s.vs = none ∧ r.2 = s₂) ∧ (r.1 ≠ 0 → s.payload s.vs ≠ none)) (fun _ => True) w := by
  have hvs₂ : s₂.vs = s.vs := congrArg Link.vs hl
  have hpay : s₂.payload s₂.vs = s.payload s.vs := by rw [Sock.link_payload hl, hvs₂]
  have hmode₂ : s₂.mode = s.mode := congrArg Link.mode hl
  have hspeaks : wp (sockResendPending s₂)
      (fun _ w' => Speaks s.face (fun seq bs => seq = s.vs ∧ s.payload s.vs = some bs) w w')
      (fun _ => True) w := by
    have hsend : wp (sockResendPending s₂)
        (fun _ w' => Speaks s₂.face (fun seq bs => seq = s₂.vs ∧ s₂.payload s₂.vs = some bs) w w')
        (fun _ => True) w :=
      sockResendPending_speaks (H.link hl) (hmode₂ ▸ hmode) (by rw [hvs₂, Sock.link_slots hl]; exact hvs)
    rw [hface, hpay, hvs₂] at hsend
    exact hsend
  refine ((h.sends quiet_sockResendPending mute_sockResendPending hspeaks).and
    ((sockResendPending_spec (H.link hl)).and sockResendPending_vs)).post ?_
  rintro ⟨r, s₃⟩ w' ⟨hmid, ⟨-, hr⟩, vs, hs₃⟩
  dsimp only at hr hs₃ ⊢
  refine ⟨hmid, by rw [hs₃]; exact hface, ?_⟩
  rw [← hpay]
  cases hr with
  | nothing hnone => exact ⟨fun _ => ⟨hnone, rfl⟩, fun hne => absurd rfl hne⟩
  | failed hsome hneg => exact ⟨fun hzero => by omega, fun _ => hsome⟩
  | sent hsome _ hzero => exact ⟨fun h0 => absurd (hzero h0) hign, fun _ => hsome⟩

/-! ## The parts of a turn -/

theorem log_readPty {inp : Except Errno Bytes} : Leaves World.log (readPty s inp) := by
  cases inp with
  | error e => exact (log_unseen.setErrno).bind fun _ => .pure
  | ok bs =>
    refine .ite .pure ?_
    cases s.ioBuf with
    | none => exact (log_unseen.setErrno).bind fun _ => .pure
    | some n => exact .ite .fault .pure

/-- Data that fits a frame is sent under V(S). -/
theorem sockWriteBytes_speaks {data : Nat → Bytes → Prop} {bs : Bytes} (htype : s.type = .stream) (hmode : s.mode ≠ .dm)
    (hlen : bs.length ≤ s.nMaxlenTx) (hdata : data s.vs bs) : wp (sockWriteBytes s bs)
      (fun _ w' => w'.written = w.written ∧ Speaks s.face data w w') (fun _ => True) w := by
  have hread : (Mem.ofBytes bs fun _ => 0).read 0 bs.length = bs := Mem.read_ofBytes _
  rw [sockWriteBytes, sockWrite, if_neg hmode]
  simp only [htype]
  rw [if_neg (by omega), hread, wp_bind, wp_lift]
  refine ⟨fun s' h => ?_, fun _ _ => trivial⟩
  obtain ⟨slots, rfl⟩ := Sock.txSlotSave_eq h
  have hsend : wp (frameSend { s with txSlots := slots } .command (Sock.controlI { s with txSlots := slots } s.vs)
      (UInt8.ofNat s.proto) bs) (fun _ w' => Speaks s.face data w w') (fun _ => True) w := frameSend_i rfl hdata
  rw [wp_bind]
  refine (hsend.and (mute_frameSend.wp (fun _ _ h => h) fun _ => trivial)).post ?_
  rintro r w' ⟨hspeaks, hwritten⟩
  rw [wp_ite]
  exact ⟨fun _ => ⟨hwritten, hspeaks⟩, fun _ => ⟨hwritten, hspeaks⟩⟩

/-- Data is read where there is some, and a buffer for it. -/
theorem readPty_iff : wp (readPty s t.inp) (fun r _ => ∀ bs, bs ≠ [] → (r = .ok bs ↔ s.ioBuf ≠ none ∧ t.data s = bs))
    (fun _ => True) w := by
  refine wp_intro fun r w' h bs hne => ?_
  rw [Turn.data]
  cases hinp : t.inp with
  | error e =>
    rw [hinp] at h
    obtain ⟨_, _, _, h⟩ := bind_eq_ok.mp h
    cases h
    simp [hne.symm]
  | ok data =>
    rw [hinp, readPty] at h
    dsimp only
    by_cases hempty : (data.take s.nMaxlenTx).isEmpty
    · rw [if_pos hempty] at h
      cases h
      rw [List.isEmpty_iff.mp hempty]
      simp [hne.symm]
    rw [if_neg hempty] at h
    cases hio : s.ioBuf with
    | none =>
      rw [hio] at h
      obtain ⟨_, _, _, h⟩ := bind_eq_ok.mp h
      cases h
      simp
    | some size =>
      rw [hio] at h
      dsimp only at h
      split at h
      · cases h
      · cases h
        simp

/-- The end of a turn that gets to read new data. -/
theorem sockRead_turned {s₂ : Sock} (h : Mid p s w₀ s₂ w) (hl : s₂.link = s.link)
    (hbuf : s.ioBuf ≠ none) (hready : t.ready && watched) (hquiet : s.QuietTimers t.elapsed)
    (hempty : s.payload s.vs = none) (H : s.HasSlots buf) (hmode : s.mode ≠ .dm)
    (htype : s.type = .stream) (hstate : s.state = .established) :
    wp (sockRead p t.inp) (fun _ w' => OpenTo p (Turned s watched t w₀) w') (fun _ => True) w := by
  have hlen : s₂.nMaxlenTx = s.nMaxlenTx := congrArg Link.nMaxlenTx hl
  have hio : s₂.ioBuf = s.ioBuf := congrArg Face.ioBuf h.face
  have hvs : s₂.vs = s.vs := congrArg Link.vs hl
  have hmode₂ : s₂.mode ≠ .dm := (congrArg Link.mode hl).trans_ne hmode
  have htype₂ : s₂.type = .stream := (congrArg Link.type hl : s₂.type = s.type).trans htype
  have hstate₂ : s₂.state = .established := (congrArg Link.state hl : s₂.state = s.state).trans hstate
  have hsame : t.data s₂ = t.data s := by rw [Turn.data, Turn.data, hlen]
  rw [sockRead, wp_bind]
  refine wp_deref_some h.heap ?_
  rw [wp_bind]
  refine ((readPty_iff.and (quiet_readPty.core.wp (fun _ _ h => h) fun _ => trivial)).and
    (log_readPty.wp (fun _ _ h => h) fun _ => trivial)).post ?_
  rintro r w₁ ⟨⟨hiff, hcore⟩, hlog⟩
  rw [hio, hsame] at hiff
  have h₁ : Mid p s w₀ s₂ w₁ := by
    refine ⟨(congrFun (congrArg Core.heap hcore) p).trans h.heap, h.face, ?_, h.speaks.trans (.of_eq ?_)⟩
    · rw [World.written, hlog]
      exact h.written
    · rw [World.sent, hlog]
      rfl
  split
  · simpa only [wp_bind, wp_pure] using OpenTo.shutdown h₁.heap htype₂ hstate₂
  · simpa only [wp_bind, wp_pure] using OpenTo.shutdown h₁.heap htype₂ hstate₂
  · rw [wp_pure]
    refine h₁.done fun hreads => ?_
    cases (hiff _ hreads.data).mpr ⟨hbuf, rfl⟩
  · rename_i bs hne
    have hbs : bs ≠ [] := fun h => hne (h ▸ rfl)
    obtain ⟨-, hdata⟩ := (hiff bs hbs).mp rfl
    have hreads : s.Reads watched t := ⟨hready, hquiet, hempty, hdata ▸ hbs⟩
    have hfits : bs.length ≤ s₂.nMaxlenTx := by
      rw [← hdata, hlen]
      exact t.data_length s
    have hsaid : s.TurnData watched t s₂.vs bs := ⟨hvs, .inr ⟨hreads, hdata.symm⟩⟩
    rw [wp_bind]
    refine ((sockWriteBytes_spec (H.link hl) hmode₂ htype₂ hbs hfits).and
      ((sockWriteBytes_speaks htype₂ hmode₂ hfits hsaid).and sockWrite_differs)).post ?_
    rintro ⟨r, s₃⟩ w₂ ⟨⟨hcore₂, buf', hsave, hr⟩, ⟨hwritten, hspeaks⟩, slots, vs, hs₃⟩
    dsimp only at hr hs₃ ⊢
    have hsave' : s.Saves (t.data s) buf' := by
      rw [hdata]
      exact hsave.link hl.symm
    have hturned {s₄ : Sock} {w' : World} (hface : s₄.face = s₃.face) (hlog : w'.log = w₂.log)
        (hl₄ : s₄.link = { s.link with txSlots := some buf' } ∨
          s₄.link = { s.link with txSlots := some buf', vs := s.txSeq (s.vs + 1) }) :
        Turned s watched t w₀ s₄ w' := by
      refine ⟨hface.trans ?_, ?_, ?_, fun _ => ⟨buf', hsave', hl₄⟩⟩
      · rw [hs₃]
        exact h.face
      · rw [World.written, hlog]
        exact hwritten.trans h₁.written
      · rw [h.face] at hspeaks
        refine (h₁.speaks.mono fun _ _ h => ⟨h.1, .inl h.2⟩).trans (hspeaks.trans (.of_eq ?_))
        rw [World.sent, hlog]
        rfl
    rw [wp_bind, wp_store, wp_ite]
    obtain ⟨hneg, hl₃⟩ | ⟨hpos, hl₃⟩ := hr
    · refine ⟨fun _ => ?_, fun h => absurd hneg h⟩
      rw [hl] at hl₃
      rw [wp_bind]
      exact OpenTo.close heap_setSock fun w' hw' => hturned rfl hw' (.inl hl₃)
    · refine ⟨fun h => absurd h (by omega), fun _ => ?_⟩
      rw [hl, Sock.link_txSeq hl, hvs] at hl₃
      rw [wp_bind, wp_store]
      exact .of_heap heap_setSock (hturned rfl rfl (.inr hl₃))

theorem log_flowCheck : Leaves World.log (flowCheck p s) :=
  Leaves.bind (.modify fun _ => rfl) fun _ => .ite (leaves_deref.bind fun _ =>
    Leaves.bind (.modify fun _ => rfl) fun _ => .modify fun _ => rfl) .pure

theorem face_retries (s : Sock) (retries : Nat) : { s with retries }.face = s.face := rfl

theorem face_timerT1 (s : Sock) (timerT1 : Timer) : { s with timerT1 }.face = s.face := rfl

/-- A turn in which no timer is handled. -/
theorem sockSend_turned (h : Mid p s w₀ s₁ w) (hl : s₁.link = s.link) (hbuf : s.ioBuf ≠ none)
    (hquiet : s.QuietTimers t.elapsed) (hwatched : watched = w.fdsWatch s₁.fd) (H : s.HasSlots buf)
    (hmode : s.mode ≠ .dm) (hvs : s.vs < s.slots) (htype : s.type = .stream) (hstate : s.state = .established)
    (hign : ¬w.sys.ignores) :
    wp (sockSend p t.ready t.inp) (fun _ w' => OpenTo p (Turned s watched t w₀) w') (fun _ => True) w := by
  rw [sockSend, wp_bind]
  refine wp_deref_some h.heap ?_
  rw [fdIsset, wp_bind, wp_gets, wp_ite, ← hwatched]
  refine ⟨fun hready => h.done fun hreads => ?_, fun hready => ?_⟩
  · simp [hreads.ready] at hready
  simp only [Bool.not_eq_true', Bool.not_eq_false] at hready
  rw [wp_bind]
  refine (flowCheck_spec.and (log_flowCheck.wp (fun _ _ h => h) fun _ => trivial)).post ?_
  rintro _ w₁ ⟨⟨hsys, flow, hp₁⟩, hlog⟩
  have h₁ : Mid p s w₀ { s₁ with flow } w₁ := by
    refine ⟨hp₁, h.face, ?_, h.speaks.trans (.of_eq ?_)⟩
    · rw [World.written, hlog]
      exact h.written
    · rw [World.sent, hlog]
      rfl
  rw [wp_bind]
  refine wp_deref_some hp₁ ?_
  rw [wp_bind]
  have hl₁ : { s₁ with flow }.link = s.link := hl
  refine (sockResendPending_mid h₁ hl₁ h₁.face H hmode hvs (hsys ▸ hign)).post ?_
  rintro ⟨r, s₂⟩ w₂ ⟨h₂, hface, hzero, hpos⟩
  dsimp only at hface hzero hpos ⊢
  have hbusy (hr : r ≠ 0) : ¬s.Reads watched t := fun hreads => hpos hr hreads.empty
  simp only [wp_bind, wp_store, wp_ite]
  refine ⟨fun hneg => (h₂.store hface).done (hbusy (by omega)), fun _ => ⟨fun hr => ?_, fun hr => ?_⟩⟩
  · refine Mid.done ((h₂.store hface).store ?_) (hbusy (by omega))
    exact (face_timerT1 s₂ _).trans hface
  · obtain ⟨hempty, rfl⟩ := hzero (by omega)
    exact sockRead_turned (h₂.store hface) hl₁ hbuf hready hquiet hempty H hmode htype hstate

theorem face_retry (s : Sock) : (retry s).face = s.face := by
  unfold retry Sock.retriesDecr
  exact (face_timerT1 _ _).trans (face_retries s _)

/-- T1 has expired: what waits under V(S) is sent again, or the other end is asked. -/
theorem handleSockT1_turned (h : Mid p s w₀ s₁ w) (hl : s₁.link = s.link) (hread : ¬s.Reads watched t)
    (H : s.HasSlots buf) (hmode : s.mode ≠ .dm) (hvs : s.vs < s.slots) (htype : s.type = .stream)
    (hstate : s.state = .established) (hign : ¬w.sys.ignores) :
    wp (handleSockT1 p s₁) (fun _ w' => OpenTo p (Turned s watched t w₀) w') (fun _ => True) w := by
  rw [handleSockT1, wp_ite]
  refine ⟨fun _ => ?_, fun _ => ?_⟩
  · rw [wp_bind]
    refine (sockResendPending_mid h ((link_retry s₁).trans hl) ((face_retry s₁).trans h.face) H hmode hvs hign).post ?_
    rintro ⟨r, s₂⟩ w₁ ⟨h₁, hface, -⟩
    have h₂ := h₁.store hface
    rw [wp_bind, wp_store, wp_ite]
    refine ⟨fun _ => h₂.done hread, fun _ => ?_⟩
    rw [wp_bind]
    exact h₂.sendRr.post fun _ w' h' => h'.done hread
  · have hl' : s₁.retriesDecr.link = s.link := (link_retriesDecr s₁).trans hl
    generalize s₁.retriesDecr = s₂ at hl' ⊢
    have ht : s₂.type = s.type := congrArg Link.type hl'
    have hst : s₂.state = s.state := congrArg Link.state hl'
    rw [wp_bind, wp_store, wp_bind]
    refine (sockShutdown_spec heap_setSock (ht.trans htype) (hst.trans hstate)).post ?_
    rintro _ w₁ ⟨s₃, hp₃, hs₃⟩
    refine (sockClose_spec hp₃).post fun _ w₂ h => ?_
    obtain hnone | hsome := h
    · exact .of_none hnone
    · exact .of_state hsome (by simp [hs₃])

/-- The turn of an established connection. -/
theorem handleSock_turned (hp : w.heap p = some s) (H : s.HasSlots buf) (hmode : s.mode ≠ .dm)
    (hvs : s.vs < s.slots) (htype : s.type = .stream) (hstate : s.state = .established) (hbuf : s.ioBuf ≠ none)
    (hign : ¬w.sys.ignores) : wp (handleSock p t.elapsed t.ready t.inp)
      (fun _ w' => OpenTo p (Turned s (w.fdsWatch s.fd) t w) w') (fun _ => True) w := by
  have hst : (tickTimers s t.elapsed).state = .established := hstate
  rw [handleSock, wp_bind]
  refine wp_deref_some hp ?_
  simp only [htype, hst]
  rw [wp_bind, wp_store]
  have h : Mid p s w (tickTimers s t.elapsed) (w.setSock p (tickTimers s t.elapsed)) :=
    ⟨heap_setSock, rfl, rfl, .of_eq rfl⟩
  rw [handleSockEstablished, wp_ite]
  refine ⟨fun hT1 => ?_, fun hT1 => ?_⟩
  · exact handleSockT1_turned h rfl (fun hreads => hreads.timers.t1 hT1) H hmode hvs htype hstate hign
  -- stopping T2 changes nothing else
  obtain ⟨s₂, hs₂, hsame⟩ : ∃ s₂, s₂ = (if (tickTimers s t.elapsed).timerT2.expired then
      { tickTimers s t.elapsed with timerT2 := (tickTimers s t.elapsed).timerT2.stop } else tickTimers s t.elapsed) ∧
      ∃ t2, s₂ = { tickTimers s t.elapsed with timerT2 := t2 } := by
    refine ⟨_, rfl, ?_⟩
    split
    · exact ⟨_, rfl⟩
    · exact ⟨(tickTimers s t.elapsed).timerT2, rfl⟩
  dsimp only
  rw [← hs₂]
  obtain ⟨t2, rfl⟩ := hsame
  rw [wp_ite]
  refine ⟨fun hT2 => ?_, fun hT2 => ?_⟩
  · rw [wp_bind, wp_store]
    refine (Mid.sendRr (h.store ?_)).post fun _ w' h' => h'.done fun hreads => hreads.timers.t2 hT2
    rfl
  rw [wp_ite]
  refine ⟨fun hT3 => ?_, fun hT3 => ?_⟩
  · rw [wp_bind, wp_store]
    refine (Mid.sendRr (h.store ?_)).post fun _ w' h' => h'.done fun hreads => hreads.timers.t3 hT3
    rfl
  · rw [wp_bind, wp_store]
    refine sockSend_turned (h.store ?_) rfl hbuf ⟨hT1, hT2, hT3⟩ rfl H hmode hvs htype hstate hign
    rfl

end M

end Patty
