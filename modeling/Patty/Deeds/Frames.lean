import Patty.Deeds.Socks
import Patty.Upkeep.Handle

/-! # The deeds of received frames

No frame makes the server do anything else, whatever its type and whatever it has. -/

namespace Patty

open Prog

theorem Sock.Same.of_place {s s' : Sock} (h : s'.place = s.place) : s.Same s' :=
  ⟨congrArg Place.fd h, congrArg Place.type h⟩

theorem Sock.Same.of_duty {s s' : Sock} (h : s'.duty = s.duty) : s.Same s' :=
  ⟨congrArg Duty.fd h, congrArg Duty.type h⟩

namespace M

variable {α β : Type} {p : Ptr} {s s' : Sock} {client i : Nat} {frame : Frame} {params : Params} {buf : Mem}
  {offset len : Nat}

/-- The rule for a computation that does not use the state. -/
theorem doesAt_lift {x : Except Fault α} {g : α → M β} (hg : ∀ a, x = .ok a → DoesAt p s (g a)) :
    DoesAt p s (lift x >>= g) :=
  doesAt_outer_of Walks.lift (fun _ => wp_lift.mpr ⟨fun _ h => h, fun _ _ => trivial⟩) hg

/-! ## U frames -/

theorem does_handleFrmr : ∀ {sock : Option Ptr}, Does (handleFrmr sock)
  | none => .pure
  | some p => by
    refine does_deref fun s => ?_
    cases s.state with
    | pendingConnect => exact doesAt_store ⟨rfl, rfl⟩ outer_sendSabm.does.anywhere
    | established => exact doesAt_lift fun s' h => doesAt_store (.of_place (Sock.reset_place h)) .pure
    | _ => exact .pure

theorem does_sabmAccept {listener : Sock} {created : Bool} :
    Does (sabmAccept i frame listener client p created) := by
  have hdestroy : Does (do
      sockDestroy p
      pure (-1) : M Int) := does_sockDestroy.bind fun _ => .pure
  have hsave : Outer (if created then sockSave client p else pure true : M Bool) := .ite outer_sockSave .pure
  have hnotify {a b : Nat} {peer : Addr} {path : Bytes} : Outer (notifyAccept a b peer path) :=
    outer_writePty fun _ => rfl
  refine does_deref fun s => doesAt_outer_of outer_initBufs (fun _ => initBufs_place) ?_
  rintro ⟨ok, s₁⟩ hplace
  have hmode := Sock.acceptMode_place (s := { s with state := SockState.established }) frame.type
  have hsame : s.Same s₁ :=
    ⟨(congrArg Place.fd (hplace.trans hmode)), congrArg Place.type (hplace.trans hmode)⟩
  refine doesAt_store hsame (.ite (doesAt_outer_of outer_sockBindIf (fun _ => sockBindIf_place) ?_)
    hdestroy.anywhere)
  intro s₂ hbind
  exact doesAt_store (.of_place hbind) (doesAt_outer hsave fun _ => .ite (doesAt_outer outer_fdWatch fun _ =>
    doesAt_outer hnotify fun _ => .ite (doesAt_store ⟨rfl, rfl⟩ outer_replyTo.does.anywhere) hdestroy.anywhere)
    hdestroy.anywhere)

theorem does_handleSabm : Does (handleSabm i frame) := by
  refine Walks.gets.bind fun l => ?_
  cases l with
  | none => exact outer_replyTo.does
  | some l =>
    refine outer_deref.does.bind fun listener => .ite outer_replyTo.does (Walks.gets.bind fun c => ?_)
    cases c with
    | none => exact .pure
    | some c =>
      refine Walks.gets.bind fun r => ?_
      cases r with
      | none =>
        refine does_sockNew.bind fun r => ?_
        cases r with
        | none => exact .pure
        | some r => exact does_deref fun _ => doesAt_store ⟨rfl, rfl⟩ does_sabmAccept.anywhere
      | some r =>
        refine does_deref fun s => ?_
        split
        · exact does_sabmAccept.anywhere
        · exact doesAt_lift fun s' h => doesAt_store (.of_place (Sock.reset_place h))
            (.ite outer_replyTo.does.anywhere .pure)
        · exact outer_replyTo.does.anywhere

theorem does_uaConnect : DoesAt p s (uaConnect p s) := by
  refine doesAt_outer_of outer_initBufs (fun _ => initBufs_place) ?_
  rintro ⟨ok, s₁⟩ hplace
  refine doesAt_store (.of_place hplace) (.ite (doesAt_store ⟨rfl, rfl⟩ (doesAt_outer Walks.gets fun c => ?_)) .pure)
  cases c with
  | none => exact .pure
  | some c =>
    exact doesAt_outer outer_sockSave fun _ => .ite (doesAt_outer outer_fdWatch fun _ =>
      outer_respondConnect.does.anywhere) .pure

theorem does_handleUa : ∀ {sock : Option Ptr}, Does (handleUa i sock frame)
  | none => outer_getIface.does.bind fun _ => .ite .pure outer_replyTo.does
  | some p => by
    refine outer_getIface.does.bind fun _ => .ite .pure (does_deref fun s => ?_)
    split
    · exact does_uaConnect
    · exact does_sockClose.anywhere
    · exact .pure
    · exact outer_replyTo.does.anywhere

theorem does_handleDm : ∀ {sock : Option Ptr}, Does (handleDm sock)
  | none => .pure
  | some p => by
    refine does_deref fun s => ?_
    split
    · refine doesAt_outer Walks.gets fun c => ?_
      cases c with
      | none => exact .pure
      | some c =>
        exact doesAt_lift fun s' h => doesAt_store (.of_place (Sock.reset_place h))
          outer_respondConnect.does.anywhere
    · exact doesAt_store ⟨rfl, rfl⟩ does_sockClose.anywhere
    · exact .pure

theorem does_handleDisc : ∀ {sock : Option Ptr}, Does (handleDisc i sock frame)
  | none => outer_replyTo.does
  | some p => by
    refine outer_deref.does.bind fun s => ?_
    split
    · exact does_sockClose.bind fun _ => outer_replyTo.does
    · exact .pure
    · exact outer_replyTo.does

/-! ## Information -/

theorem does_segmentSave {remaining : Nat} : DoesAt p s (segmentSave p s frame remaining) := by
  refine .ite (doesAt_store ⟨rfl, rfl⟩ outer_sendSrej.does.anywhere) (doesAt_lift fun r hr => ?_)
  cases r with
  | error e => exact doesAt_outer outer_setErrno fun _ => .pure
  | ok s₁ =>
    refine doesAt_store (.of_duty (Sock.assemblerSave_duty hr)) (.ite .pure ?_)
    cases s₁.assemblerRead with
    | none => exact .pure
    | some bs => exact doesAt_outer (outer_writePty fun _ => rfl) fun _ => .ite (doesAt_store ⟨rfl, rfl⟩ .pure) .pure

theorem does_handleSegment : Does (handleSegment p frame) := by
  have hsrej {s : Sock} : DoesAt p s (sendSrej s .response) := outer_sendSrej.does.anywhere
  refine does_deref fun s => .ite hsrej (.ite (.ite hsrej
    (doesAt_outer_of outer_assemblerInit (fun _ => assemblerInit_duty) ?_))
    (.ite hsrej (.ite hsrej does_segmentSave)))
  rintro ⟨ok, s₁⟩ hduty
  exact doesAt_store (.of_duty hduty) (.ite does_segmentSave .pure)

theorem does_iAnswer : Does (iAnswer p frame) :=
  does_deref fun _ => .ite (doesAt_store ⟨rfl, rfl⟩ outer_sendRr.does.anywhere)
    (.ite (doesAt_store ⟨rfl, rfl⟩ .pure) (doesAt_store ⟨rfl, rfl⟩ .pure))

theorem does_iDeliver : Does (iDeliver p frame) :=
  .ite (does_handleSegment.bind fun _ => .ite .pure does_iAnswer)
    (outer_deref.does.bind fun _ => (outer_writePty fun _ => rfl).does.bind fun _ => .ite does_iAnswer .pure)

theorem does_iReceive : Does (iReceive p frame) :=
  does_deref fun _ => .ite (doesAt_store ⟨rfl, rfl⟩ does_iDeliver.anywhere) (.ite outer_sendSrej.does.anywhere
    (.ite outer_sendRej.does.anywhere does_iDeliver.anywhere))

theorem does_handleI : ∀ {sock : Option Ptr}, Does (handleI i sock frame)
  | none => .ite outer_replyTo.does .pure
  | some _ => does_deref fun _ => .ite (.ite outer_replyTo.does.anywhere .pure)
      (doesAt_lift fun _ h => doesAt_store (.of_place (Sock.frameAck_place h)) does_iReceive.anywhere)

theorem does_handleUi : ∀ {sock : Option Ptr}, Does (handleUi sock frame)
  | none => .pure
  | some _ => outer_deref.does.bind fun _ => .ite .pure (.ite does_handleSegment
      ((outer_writePty fun _ => rfl).does.bind fun _ => .ite .pure .pure))

/-! ## S frames -/

theorem does_handleS {flow : Ptr → M Unit} (hflow : ∀ p, Does (flow p)) :
    ∀ {sock : Option Ptr}, Does (handleS flow sock frame)
  | none => .pure
  | some p => by
    refine does_deref fun s => doesAt_lift fun s₁ h => doesAt_store (.of_place (Sock.frameAck_place h)) ?_
    cases frame.cr with
    | command => exact .ite outer_sendRr.does.anywhere .pure
    | response => exact ((hflow p).bind fun _ => .pure).anywhere
    | old => exact .pure

theorem does_handleSrej : ∀ {sock : Option Ptr}, Does (handleSrej sock frame)
  | none => .pure
  | some _ => does_deref fun _ => doesAt_lift fun _ h => doesAt_store (.of_place (Sock.frameAck_place h))
      (doesAt_outer outer_sockResend fun _ => .ite .pure .pure)

/-! ## XID -/

theorem does_xidResponse : DoesAt p s (xidResponse p s params) := by
  unfold xidResponse
  have hplace := s.paramsNegotiate_place params
  revert hplace
  rcases s.paramsNegotiate params with ⟨_ | e, s₁, params₁⟩ <;> intro hplace
  · have hmode {c : Prop} [Decidable c] : s.Same (if c then { s₁ with mode := .sabme } else s₁) := by
      split
      · exact (Sock.Same.of_place hplace).trans ⟨rfl, rfl⟩
      · exact .of_place hplace
    exact doesAt_outer outer_sendSabm fun _ => doesAt_store (hmode.trans ⟨rfl, rfl⟩) .pure
  · refine doesAt_outer outer_setErrno fun _ => doesAt_store (.of_place hplace) (doesAt_outer Walks.gets fun c => ?_)
    cases c with
    | none => exact .pure
    | some c =>
      exact doesAt_store ⟨rfl, rfl⟩ (doesAt_lift fun s₂ h => doesAt_store (.of_place (Sock.reset_place h))
        (Walks.get.bind fun _ => outer_respondConnect.does).anywhere)

theorem does_xidListen {listener : Sock} : Does (xidListen i frame listener params) := by
  refine Walks.gets.bind fun c => ?_
  cases c with
  | none => exact .pure
  | some c =>
    refine does_sockNew.bind fun r => ?_
    cases r with
    | none => exact .pure
    | some r =>
      have hdestroy : Does (do
          sockDestroy r
          pure (-1) : M Int) := does_sockDestroy.bind fun _ => .pure
      refine does_deref fun s => doesAt_outer_of outer_sockBindIf (fun _ => sockBindIf_place) fun s₁ hbind => ?_
      have hmode : s.Same s₁ := by
        refine .trans ?_ (.of_place hbind)
        split
        · exact ⟨rfl, rfl⟩
        · exact ⟨rfl, rfl⟩
      have hmax : s.Same s₁.paramsMax := hmode.trans ⟨rfl, rfl⟩
      have hplace := s₁.paramsMax.paramsNegotiate_place params
      dsimp only
      revert hplace
      rcases s₁.paramsMax.paramsNegotiate params with ⟨_ | e, s₂, params₁⟩ <;> intro hplace
      · have hsame : s.Same (s₂.saveReplyAddr frame) := (hmax.trans (.of_place hplace)).trans ⟨rfl, rfl⟩
        exact doesAt_store hsame (doesAt_outer outer_sockSave fun _ => .ite
          (doesAt_outer outer_sendXid fun _ => doesAt_store ⟨rfl, rfl⟩ .pure) hdestroy.anywhere)
      · have hsame : s.Same s₂ := hmax.trans (.of_place hplace)
        exact doesAt_outer outer_setErrno fun _ => doesAt_store hsame hdestroy.anywhere

theorem does_handleXid : Does (handleXid i frame buf offset len) := by
  refine outer_getIface.does.bind fun _ => .ite .pure (outer_junk.does.bind fun m => ?_)
  cases decodeXid (.ofMem m) buf offset len with
  | none => exact outer_setErrno.does.bind fun _ => .pure
  | some params =>
    refine outer_setErrno.does.bind fun _ => Walks.gets.bind fun r => ?_
    cases r with
    | some p => exact does_deref fun _ => .ite outer_replyTo.does.anywhere does_xidResponse
    | none =>
      refine Walks.gets.bind fun l => ?_
      cases l with
      | none => exact outer_replyTo.does
      | some l => exact outer_deref.does.bind fun _ => .ite outer_replyTo.does does_xidListen

/-! ## Any frame -/

theorem does_handleType {sock : Option Ptr} : Does (handleType i sock frame buf offset len) := by
  unfold handleType
  cases frame.type with
  | i => exact does_handleI
  | ui => exact does_handleUi
  | rr | rej => exact does_handleS fun _ => does_sockFlowStart
  | rnr => exact does_handleS fun _ => does_sockFlowStop
  | srej => exact does_handleSrej
  | xid => exact does_handleXid
  | sabm | sabme => exact does_handleSabm
  | test => exact outer_getIface.does.bind fun _ => .ite .pure outer_replyTo.does
  | ua => exact does_handleUa
  | dm => exact does_handleDm
  | disc => exact does_handleDisc
  | frmr => exact does_handleFrmr
  | unknown => exact .pure

theorem outer_formatOf : ∀ {sock : Option Ptr}, Outer (formatOf sock)
  | none => .pure
  | some _ => outer_deref.bind fun _ => .pure

theorem does_handleFrame : Does (handleFrame i buf len) := by
  unfold handleFrame
  rcases decodeAddress .blank buf len with _ | ⟨frame, offset⟩
  · exact Walks.bind (outer_setIface (by intro; rfl)).does fun _ => .pure
  · refine Walks.gets.bind fun sock => outer_formatOf.does.bind fun format => ?_
    rcases decodeControl frame format buf offset len with _ | ⟨frame, offset⟩
    · exact Walks.bind (outer_setIface (by intro; rfl)).does fun _ => .pure
    · exact outer_setErrno.does.bind fun _ => does_handleType

theorem handleFrame_wiring : Leaves World.wiring (handleFrame i buf len) :=
  fun w r w' h => (older_deeds (does_handleFrame w r w' trivial h)).wiring

end M

/-- The interface is up, with this `mru`. -/
def World.Up (w : World) (i mru : Nat) : Prop :=
  ∃ iface, w.ifaces[i]? = some iface ∧ iface.mru = mru ∧ iface.status = .up

/-- The end of a step, which may take an interface down or stop the server. -/
structure World.Ends (w w' : World) : Prop where
  goods : w'.goods = w.goods
  up : ∀ i mru, w'.Up i mru → w.Up i mru

theorem World.Ends.rfl {w : World} : w.Ends w := ⟨Eq.refl _, fun _ _ h => h⟩

theorem World.Ends.trans {w w' w'' : World} (h : w.Ends w') (h' : w'.Ends w'') : w.Ends w'' :=
  ⟨h'.goods.trans h.goods, fun i mru hi => h.up i mru (h'.up i mru hi)⟩

theorem World.up_iff_wiring {w : World} {i mru : Nat} :
    w.Up i mru ↔ ∃ fd, w.wiring.2[i]? = some (fd, mru, .up) := by
  constructor
  · rintro ⟨iface, hi, rfl, hup⟩
    refine ⟨iface.fd, ?_⟩
    rw [wiring, List.getElem?_map, hi, Option.map_some, Iface.wired, hup]
  · rintro ⟨fd, h⟩
    rw [wiring, List.getElem?_map, Option.map_eq_some_iff] at h
    obtain ⟨iface, hi, h⟩ := h
    rw [Iface.wired, Prod.mk.injEq, Prod.mk.injEq] at h
    exact ⟨iface, hi, h.2⟩

theorem World.Older.up {w w' : World} {i mru : Nat} (h : w.Older w') : w'.Up i mru ↔ w.Up i mru := by
  rw [up_iff_wiring, up_iff_wiring, h.wiring]

/-- What takes no interface up. -/
theorem up_of_modify {w w' : World} {i j mru : Nat} {f : Iface → Iface} (hmru : ∀ iface, (f iface).mru = iface.mru)
    (hup : ∀ iface, (f iface).status = .up → iface.status = .up) (hw : w'.ifaces = w.ifaces.modify i f)
    (h : w'.Up j mru) : w.Up j mru := by
  obtain ⟨iface, hj, rfl, hstatus⟩ := h
  rw [hw, List.getElem?_modify] at hj
  obtain ⟨iface₀, hj₀, rfl⟩ := Option.map_eq_some_iff.mp hj
  refine ⟨iface₀, hj₀, ?_⟩
  split at hstatus
  · next heq =>
    rw [if_pos heq]
    exact ⟨(hmru iface₀).symm, hup iface₀ hstatus⟩
  · next hne =>
    rw [if_neg hne]
    exact ⟨rfl, hstatus⟩

theorem M.frameResult_ends {i : Nat} {r : Int} {w : World} :
    wp (frameResult i r) (fun _ w' => w.Ends w') (fun _ => True) w := by
  rw [frameResult, wp_bind, wp_get, wp_ite]
  refine ⟨fun _ => ?_, fun _ => .rfl⟩
  rw [wp_bind, wp_getIface]
  exact ⟨fun iface _ => ⟨Eq.refl _, fun j mru =>
    up_of_modify (by intro; rfl) (by intro _ h; cases h) (Eq.refl _)⟩, fun _ => trivial⟩

end Patty
