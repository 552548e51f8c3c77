import Patty.Upkeep.Rules

/-! # Received frames keep what can be kept

An invariant that allows what `Upkeep` says is kept by the handlers of all frames but XID, provided that the
acknowledgement of the frame leaves its socket good (`AcksWell`). -/

namespace Patty

open Prog

theorem Sock.assemblerSave_duty {s s' : Sock} {bs : Bytes} (h : s.assemblerSave bs = .ok (.ok s')) :
    s'.duty = s.duty := by
  unfold Sock.assemblerSave at h
  split at h
  · cases h
  split at h
  · cases h
  split at h
  · cases h
  split at h
  · cases h
  · cases h
    rfl

/-- The frames with an N(R). -/
def FrameType.acknowledges : FrameType → Bool
  | .i | .rr | .rnr | .rej | .srej => true
  | _ => false

/-- The socket of the frame is still good once the frame has acknowledged. -/
def AcksWell (Good : Ptr → Sock → Prop) (sock : Option Ptr) (frame : Frame) (w : World) : Prop :=
  ∀ p ∈ sock, ∀ s s', w.heap p = some s → Good p s → (frame.type = .i → s.state = .established) →
    s.frameAck frame = .ok s' → Good p s'

namespace M

variable {α : Type} {K K' : World → Prop} {Good Good' : Ptr → Sock → Prop} {Mine : Ptr → Prop}
  {Fails : World → Prop}
  (U : Upkeep K Good Mine) {p : Ptr} {s : Sock} {frame : Frame} {i : Nat} {sock : Option Ptr} {w : World}

theorem assemblerInit_duty {n : Nat} {w : World} :
    wp (assemblerInit s n) (fun r _ => r.2.duty = s.duty) (fun _ => True) w := by
  rw [assemblerInit, wp_ite]
  refine ⟨fun _ => rfl, fun _ => ?_⟩
  rw [wp_ite]
  refine ⟨fun _ => ?_, fun _ => rfl⟩
  rw [wp_bind]
  refine wp_intro fun ok w₁ _ => ?_
  rw [wp_ite]
  exact ⟨fun _ => wp_bind.mpr (wp_intro fun _ _ _ => rfl), fun _ => rfl⟩

include U

/-- A socket in memory is good. -/
theorem keeping_deref {g : Sock → M α} (hg : ∀ s, Good p s → Keeping K (g s)) :
    Keeping K (deref p >>= g) := by
  intro w hw
  rw [wp_bind, wp_deref]
  exact ⟨fun s hs => hg s (U.good hw hs) w hw, fun _ => trivial⟩

theorem keeping_move {s' : Sock} (hp : Mine p) (hs : Good p s) (h : Moves s s') : Keeping K (store p s') :=
  U.store hp (U.moves hs h)

/-- A store that leaves the duty of the socket alone. -/
theorem keeping_stay {s' : Sock} (hp : Mine p) (hs : Good p s) (h : s'.duty = s.duty) :
    Keeping K (store p s') := keeping_move U hp hs (.stay h)

/-! ## U frames -/

theorem keeping_handleFrmr (hmine : ∀ p ∈ sock, Mine p) : Keeping K (handleFrmr sock) := by
  cases sock with
  | none => exact .pure
  | some p =>
    have hp := hmine p rfl
    refine keeping_deref U fun s hs => ?_
    dsimp only
    split
    · refine (keeping_move U hp hs ?_).bind fun _ => U.quiet quiet_sendSabm
      exact .runs rfl rfl (fun h => h) (fun h => h) rfl
    · exact .lift_bind (fun _ _ => trivial) fun s' hs' =>
        (keeping_move U hp hs (Sock.reset_moves hs')).bind fun _ => .pure
    · exact .pure

/-- `handle_sabm` once the socket has its buffers. -/
theorem keeping_sabmBound (hp : Mine p) (hs : Good p s)
    (hnotify : ∀ a b peer path, Keeping K (notifyAccept a b peer path)) {c : Nat} {listener : Sock}
    {created : Bool} : Keeping K (do
      let remote ← sockBindIf s i
      store p remote
      if ← (if created then sockSave c p else pure true) then
        fdWatch remote.fd
        if ← notifyAccept listener.fd remote.fd remote.remote remote.pty then
          store p { remote with timerT3 := remote.timerT3.start }
          replyUa i frame PATTY_AX25_FRAME_FINAL
        else
          sockDestroy p
          pure (-1)
      else
        sockDestroy p
        pure (-1) : M Int) := by
  have hdestroy : Keeping K (do
      sockDestroy p
      pure (-1) : M Int) := (U.sockDestroy hp).bind fun _ => .pure
  refine (U.quiet quiet_sockBindIf).bind_of (fun _ => sockBindIf_duty) fun s₁ hduty => ?_
  have hs₁ : Good p s₁ := U.moves hs (.stay hduty)
  have hsave : Keeping K (if created then sockSave c p else pure true) :=
    .ite (fun _ => U.sockSave hp) fun _ => .pure
  refine (keeping_stay U hp hs hduty).bind fun _ => hsave.bind fun _ => .ite (fun _ => ?_) fun _ => hdestroy
  refine (U.quiet quiet_fdWatch).bind fun _ => (hnotify _ _ _ _).bind fun _ =>
    .ite (fun _ => ?_) fun _ => hdestroy
  exact (keeping_stay U hp hs₁ (by rfl)).bind fun _ => U.quiet quiet_replyUa

omit U

/-- `handle_sabm` for a socket that may be in any shape: in the end it is established, or gone. -/
theorem keeps_sabmAccept (U : Upkeep K Good Mine) (V : Upkeep K' Good' Mine)
    (L : Loose K K' Good Good' Fails p) (hp : Mine p)
    (hnotify : ∀ a b peer path, Keeping K (notifyAccept a b peer path)) {c : Nat} {listener s₀ : Sock}
    {created : Bool} (hs₀ : Good p s₀) (htype : s.type = s₀.type) (hfd : s.fd = s₀.fd)
    (hsmall : s₀.Small → s.Small) (hheap : w.heap p = some s) (hw : K' w) :
    wp (sabmAccept i frame listener c p created) (fun _ w' => K w') (fun _ => True) w := by
  have hs := V.good hw hheap
  rw [sabmAccept, wp_bind]
  refine wp_deref_some hheap ?_
  obtain ⟨s₁, hs₁⟩ : ∃ s₁, s₁ = if frame.type = .sabme then
      { ({ s with state := .established } : Sock).paramsUpgrade with mode := .sabme }
      else { s with state := .established, mode := .sabm } := ⟨_, rfl⟩
  have hplace := Sock.acceptMode_place (s := { s with state := .established }) frame.type
  have hsmall₁ : s.Small → s₁.Small := by
    rw [hs₁]
    split
    · intro h
      unfold Sock.paramsUpgrade
      split
      · exact h
      · exact Nat.lt_of_le_of_lt (Nat.le_refl (16 + PATTY_AX25_SOCK_2_2_DEFAULT_I_LEN)) (by decide)
    · exact fun h => h
  dsimp only
  rw [wp_bind]
  show wp (initBufs (if frame.type = .sabme then
      { ({ s with state := .established } : Sock).paramsUpgrade with mode := .sabme }
      else { s with state := .established, mode := .sabm })) _ _ _
  rw [← hs₁]
  rw [← hs₁] at hplace
  refine ((V.quiet quiet_initBufs w hw).and (initBufs_eq.and initBufs_owes)).post ?_
  rintro ⟨ok, s₂⟩ w₁ ⟨hw₁, ⟨tx, io, slots, hs₂⟩, howes⟩
  have hs₂ : s₂ = { s₁ with txBuf := tx, ioBuf := io, txSlots := slots } := hs₂
  have htype₂ : s₂.type = s.type := by rw [hs₂]; exact congrArg Place.type hplace
  have hfd₂ : s₂.fd = s.fd := by rw [hs₂]; exact congrArg Place.fd hplace
  have hstate₂ : s₂.state = .established := by rw [hs₂]; exact congrArg Place.state hplace
  have hsmall₂ : s.Small → s₂.Small := by rw [hs₂]; exact hsmall₁
  dsimp only
  rw [wp_bind, wp_store, wp_ite]
  refine ⟨fun hok => ?_, fun _ => ?_⟩
  · have hgood : Good p s₂ := by
      refine U.moves hs₀ (.settles (htype₂.trans htype) (hfd₂.trans hfd) (fun h => hsmall₂ (hsmall h)) ?_ ?_)
      · rw [hstate₂]
        rfl
      · exact fun _ _ => howes hok
    exact keeping_sabmBound U hp hgood hnotify _ (L.settle hw₁ hgood)
  · rw [wp_bind]
    exact L.destroy (V.store hp (L.any hs hfd₂) _ hw₁)

variable (F : ∀ p, Mine p → CanLoose K Good Mine Fails p)
include U F

theorem keeps_handleSabm (hmine : ∀ p ∈ w.socksRemote.lookup (hashAddrpair frame.dest frame.src), Mine p)
    (hnotify : ∀ a b peer path, Keeping K (notifyAccept a b peer path)) (hw : K w) :
    wp (handleSabm i frame) (fun _ w' => K w') (fun _ => True) w := by
  have hdm : wp (replyDm i frame PATTY_AX25_FRAME_FINAL) (fun _ w' => K w') (fun _ => True) w :=
    U.quiet quiet_replyDm w hw
  rw [handleSabm, wp_bind, wp_sockByAddr]
  split
  · exact hdm
  rw [wp_bind, wp_deref]
  refine ⟨fun listener _ => ?_, fun _ => trivial⟩
  rw [wp_ite]
  refine ⟨fun _ => hdm, fun _ => ?_⟩
  rw [wp_bind, wp_clientBySock]
  split
  · exact hw
  rw [wp_bind, wp_sockByAddrpair]
  cases hlook : w.socksRemote.lookup (hashAddrpair frame.dest frame.src) with
  | none =>
    dsimp only
    rw [wp_bind]
    refine (U.sockNew hw).post ?_
    rintro (_ | r) w₁ ⟨hw₁, hr⟩
    · exact hw₁
    · have hp := hr r rfl
      obtain ⟨K', Good', V, L⟩ := F r hp
      dsimp only
      rw [wp_bind, wp_deref]
      refine ⟨fun s₀ hheap => ?_, fun _ => trivial⟩
      have hs₀ := U.good hw₁ hheap
      have hloose := V.good (L.loosen hw₁) hheap
      obtain ⟨s, hs⟩ : ∃ s, s = Sock.saveReplyAddr { s₀ with state := .pendingAccept } frame := ⟨_, rfl⟩
      have htype : s.type = s₀.type := by rw [hs]; rfl
      have hfd : s.fd = s₀.fd := by rw [hs]; rfl
      have hsmall : s₀.Small → s.Small := by rw [hs]; exact fun h => h
      rw [wp_bind, wp_store, ← hs]
      exact keeps_sabmAccept U V L hp hnotify hs₀ htype hfd hsmall heap_setSock
        (V.store hp (L.any hloose hfd) _ (L.loosen hw₁))
  | some r =>
    have hp := hmine r hlook
    obtain ⟨K', Good', V, L⟩ := F r hp
    dsimp only
    rw [wp_bind, wp_deref]
    refine ⟨fun s hheap => ?_, fun _ => trivial⟩
    have hs := U.good hw hheap
    split
    · exact keeps_sabmAccept U V L hp hnotify hs rfl rfl (fun h => h) hheap (L.loosen hw)
    · refine Keeps.lift_bind (fun _ _ => trivial) (fun s' hs' => ?_) w hw
      exact (keeping_move U hp hs (Sock.reset_moves hs')).bind fun _ =>
        .ite (fun _ => U.quiet quiet_replyUa) fun _ => .pure
    · exact hdm

omit F

theorem keeping_uaConnect (hp : Mine p) (hs : Good p s) (hstate : s.state = .pendingConnect) :
    Keeping K (uaConnect p s) := by
  have hplace {w : World} : wp (initBufs s) (fun r _ => (∃ tx io slots, r.2 =
      { s with txBuf := tx, ioBuf := io, txSlots := slots }) ∧ (r.1 = true → ¬r.2.Owes)) (fun _ => True) w :=
    initBufs_eq.and initBufs_owes
  refine (U.quiet quiet_initBufs).bind_of (fun _ => hplace) ?_
  rintro ⟨ok, s₁⟩ ⟨⟨tx, io, slots, hs₁⟩, howes⟩
  have hs₁ : s₁ = { s with txBuf := tx, ioBuf := io, txSlots := slots } := hs₁
  have hstate₁ : s₁.state = s.state := by rw [hs₁]
  have hgood : Good p s₁ := by
    refine U.moves hs ?_
    rw [hs₁]
    refine .clears rfl rfl (fun h => h) rfl rfl fun h => ?_
    rw [show s.state = .established from h] at hstate
    cases hstate
  refine (U.store hp hgood).bind fun _ => .ite (fun hok => ?_) fun _ => .pure
  have hmade : Good p { s₁ with
      timerT1 := s₁.timerT1.stop, timerT3 := s₁.timerT3.start, state := .established } := by
    refine U.moves hgood (.settles rfl rfl (fun h => h) rfl fun _ _ ho => ?_)
    exact howes hok (ho.congr rfl rfl rfl rfl)
  refine (U.store hp hmade).bind fun _ => Keeps.gets.bind fun c => ?_
  cases c with
  | none => exact .pure
  | some c =>
    exact (U.sockSave hp).bind fun _ => .ite
      (fun _ => (U.quiet quiet_fdWatch).bind fun _ => U.quiet quiet_respond) fun _ => .pure

theorem keeping_handleUa (hmine : ∀ p ∈ sock, Mine p) : Keeping K (handleUa i sock frame) := by
  refine (U.quiet quiet_getIface).bind fun _ => .ite (fun _ => .pure) fun _ => ?_
  cases sock with
  | none => exact U.quiet quiet_replyDm
  | some p =>
    have hp := hmine p rfl
    refine keeping_deref U fun s hs => ?_
    cases hstate : s.state with
    | pendingConnect => exact keeping_uaConnect U hp hs hstate
    | pendingDisconnect => exact U.sockClose hp
    | established => exact .pure
    | _ => exact U.quiet quiet_replyDm

/-- `handle_dm` stops T1 of a socket that ends its connection, and closes it. -/
theorem keeps_handleDm (F : ∀ p, Mine p → CanLoose K Good Mine Fails p) (hmine : ∀ p ∈ sock, Mine p)
    (hw : K w) : wp (handleDm sock) (fun r w' => K w' ∨ Fails w' ∧ r < 0 ∧ w'.errno = w.errno) (fun _ => True) w := by
  cases sock with
  | none => exact .inl hw
  | some p =>
    have hp := hmine p rfl
    obtain ⟨K', Good', V, L⟩ := F p hp
    rw [handleDm, wp_bind, wp_deref]
    refine ⟨fun s hheap => ?_, fun _ => trivial⟩
    have hs := U.good hw hheap
    split
    · refine ((?_ : Keeping K _) w hw).post fun _ _ h => .inl h
      refine Keeps.gets.bind fun c => ?_
      cases c with
      | none => exact .pure
      | some c =>
        refine .lift_bind (fun _ _ => trivial) fun s' hs' => ?_
        exact (keeping_move U hp hs (Sock.reset_moves hs')).bind fun _ => U.quiet quiet_respond
    · have hloose : Good' p { s with timerT1 := s.timerT1.stop } :=
        L.any (V.good (L.loosen hw) hheap) rfl
      rw [wp_bind, wp_store]
      exact L.close (V.store hp hloose _ (L.loosen hw))
    · exact .inl hw

theorem keeping_handleDisc (hmine : ∀ p ∈ sock, Mine p) : Keeping K (handleDisc i sock frame) := by
  cases sock with
  | none => exact U.quiet quiet_replyDm
  | some p =>
    refine keeping_deref U fun s hs => ?_
    cases s.state with
    | established => exact (U.sockClose (hmine p rfl)).bind fun _ => U.quiet quiet_replyUa
    | pendingDisconnect => exact .pure
    | _ => exact U.quiet quiet_replyDm

theorem keeping_handleTest : Keeping K (handleTest i frame) :=
  (U.quiet quiet_getIface).bind fun _ => .ite (fun _ => .pure) fun _ => U.quiet quiet_replyTest

/-! ## Information -/

theorem keeping_segmentSave {remaining : Nat} (hp : Mine p) (hs : Good p s) :
    Keeping K (segmentSave p s frame remaining) := by
  refine .ite (fun _ => (keeping_stay U hp hs (by rfl)).bind fun _ => U.quiet quiet_sendSrej) fun _ => ?_
  refine .lift_bind (fun _ _ => trivial) fun r hr => ?_
  rcases r with e | s₁
  · exact (U.quiet quiet_setErrno).bind fun _ => .pure
  have hduty := Sock.assemblerSave_duty hr
  have hs₁ : Good p s₁ := U.moves hs (.stay hduty)
  refine (keeping_stay U hp hs hduty).bind fun _ => .ite (fun _ => .pure) fun _ => ?_
  cases s₁.assemblerRead with
  | none => exact .pure
  | some bs =>
    exact (U.quiet (quiet_writePty rfl)).bind fun _ =>
      .ite (fun _ => (keeping_stay U hp hs₁ (by rfl)).bind fun _ => .pure) fun _ => .pure

variable (hp : Mine p)
include hp

theorem keeping_handleSegment : Keeping K (handleSegment p frame) := by
  have hsrej {s : Sock} : Keeping K (sendSrej s .response) := U.quiet quiet_sendSrej
  refine keeping_deref U fun s hs => .ite (fun _ => hsrej) fun _ => .ite (fun _ => ?_)
    fun _ => .ite (fun _ => hsrej) fun _ => .ite (fun _ => hsrej) fun _ => keeping_segmentSave U hp hs
  refine .ite (fun _ => hsrej) fun _ => ?_
  refine (U.quiet quiet_assemblerInit).bind_of (fun _ => assemblerInit_duty) ?_
  rintro ⟨ok, s₁⟩ hduty
  have hs₁ : Good p s₁ := U.moves hs (.stay hduty)
  exact (U.store hp hs₁).bind fun _ => .ite (fun _ => keeping_segmentSave U hp hs₁) fun _ => .pure

theorem keeping_iAnswer : Keeping K (iAnswer p frame) :=
  keeping_deref U fun _ hs => .ite
    (fun _ => (keeping_stay U hp hs (by rfl)).bind fun _ => U.quiet quiet_sendRr)
    fun _ => .ite (fun _ => (keeping_stay U hp hs (by rfl)).bind fun _ => .pure)
      fun _ => (keeping_stay U hp hs (by rfl)).bind fun _ => .pure

theorem keeping_iDeliver : Keeping K (iDeliver p frame) :=
  .ite (fun _ => (keeping_handleSegment U hp).bind fun _ => .ite (fun _ => .pure)
    fun _ => keeping_iAnswer U hp) fun _ => keeping_deref U fun _ _ =>
      (U.quiet (quiet_writePty rfl)).bind fun _ => .ite (fun _ => keeping_iAnswer U hp) fun _ => .pure

theorem keeping_iReceive : Keeping K (iReceive p frame) :=
  keeping_deref U fun _ hs => .ite
    (fun _ => (keeping_stay U hp hs (by rfl)).bind fun _ => keeping_iDeliver U hp)
    fun _ => .ite (fun _ => U.quiet quiet_sendSrej)
      fun _ => .ite (fun _ => U.quiet quiet_sendRej) fun _ => keeping_iDeliver U hp

omit hp

theorem keeps_handleI (hmine : ∀ p ∈ sock, Mine p)
    (hack : AcksWell Good sock frame w) (hw : K w) :
    wp (handleI i sock frame) (fun _ w' => K w') (fun _ => True) w := by
  have hdm : Keeping K (if frame.pf ≠ 0 then replyDm i frame PATTY_AX25_FRAME_FINAL else pure 0) :=
    .ite (fun _ => U.quiet quiet_replyDm) fun _ => .pure
  cases sock with
  | none => exact hdm w hw
  | some p =>
    have hp := hmine p rfl
    rw [handleI, wp_bind, wp_deref]
    refine ⟨fun s hheap => ?_, fun _ => trivial⟩
    rw [wp_ite]
    refine ⟨fun _ => hdm w hw, fun hstate => ?_⟩
    refine Keeps.lift_bind (fun _ _ => trivial) (fun s' hs' => ?_) w hw
    have hs' : Good p s' := hack p rfl s s' hheap (U.good hw hheap) (fun _ => not_not.mp hstate) hs'
    exact (U.store hp hs').bind fun _ => keeping_iReceive U hp

theorem keeping_handleUi (hmine : ∀ p ∈ sock, Mine p) : Keeping K (handleUi sock frame) := by
  cases sock with
  | none => exact .pure
  | some p =>
    exact keeping_deref U fun s hs => .ite (fun _ => .pure) fun _ =>
      .ite (fun _ => keeping_handleSegment U (hmine p rfl)) fun _ =>
        (U.quiet (quiet_writePty rfl)).bind fun _ => .ite (fun _ => .pure) fun _ => .pure

/-! ## S frames -/

theorem keeping_sockFlowStop (hp : Mine p) : Keeping K (sockFlowStop p) :=
  keeping_deref U fun _ hs => (U.quiet quiet_fdClear).bind fun _ => keeping_stay U hp hs (by rfl)

theorem keeping_sockFlowStart : Keeping K (sockFlowStart p) :=
  keeping_deref U fun _ _ => U.quiet quiet_fdWatch

theorem keeps_handleS {flow : Ptr → M Unit} (hflow : ∀ p, Mine p → Keeping K (flow p))
    (hmine : ∀ p ∈ sock, Mine p) (htype : frame.type ≠ .i) (hack : AcksWell Good sock frame w) (hw : K w) :
    wp (handleS flow sock frame) (fun _ w' => K w') (fun _ => True) w := by
  cases sock with
  | none => exact hw
  | some p =>
    have hp := hmine p rfl
    rw [handleS, wp_bind, wp_deref]
    refine ⟨fun s hheap => ?_, fun _ => trivial⟩
    refine Keeps.lift_bind (fun _ _ => trivial) (fun s' hs' => ?_) w hw
    have hs' : Good p s' := hack p rfl s s' hheap (U.good hw hheap) (fun h => absurd h htype) hs'
    refine (U.store hp hs').bind fun _ => ?_
    cases frame.cr with
    | command => exact .ite (fun _ => U.quiet quiet_sendRr) fun _ => .pure
    | response => exact (hflow p hp).bind fun _ => .pure
    | old => exact .pure

theorem keeps_handleSrej (hmine : ∀ p ∈ sock, Mine p) (htype : frame.type ≠ .i)
    (hack : AcksWell Good sock frame w) (hw : K w) :
    wp (handleSrej sock frame) (fun _ w' => K w') (fun _ => True) w := by
  cases sock with
  | none => exact hw
  | some p =>
    have hp := hmine p rfl
    rw [handleSrej, wp_bind, wp_deref]
    refine ⟨fun s hheap => ?_, fun _ => trivial⟩
    refine Keeps.lift_bind (fun _ _ => trivial) (fun s' hs' => ?_) w hw
    have hs' : Good p s' := hack p rfl s s' hheap (U.good hw hheap) (fun h => absurd h htype) hs'
    exact (U.store hp hs').bind fun _ => (U.quiet quiet_sockResend).bind fun _ =>
      .ite (fun _ => .pure) fun _ => .pure

end M

end Patty
