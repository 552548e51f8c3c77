import Patty.Rules

/-! # What leaves the bytes of the clients alone

Only the reads of the calls take bytes from a client: every function that reads nothing leaves what
the clients have written as it is (`Unread`). -/

namespace Patty.M

open Prog

variable {α β : Type} {p : Ptr} {s : Sock}

/-- `m` leaves what the clients have written alone. -/
abbrev Unread (m : M α) : Prop := Leaves World.inbox m

/-! ## Memory and tables -/

theorem unread_store : Unread (store p s) := .modify (by intro; rfl)

theorem unread_freeSock : Unread (freeSock p) :=
  quiet_deref.inbox.bind fun _ => .modify (by intro; rfl)

/-- Entering something in a dictionary, if there is room. -/
theorem unread_room {κ : Type} [DecidableEq κ] {d : World → Dict κ β} {key : κ} {b : Bool}
    {g : World → World} (h : ∀ w, (g w).inbox = w.inbox) :
    Unread (do
      if ← dictRoom (d (← get)) key then
        Prog.modify g
        pure b
      else pure false : M Bool) :=
  Leaves.get.bind fun _ => quiet_dictRoom.inbox.bind fun _ =>
    .ite ((Leaves.modify h).bind fun _ => .pure) .pure

theorem unread_sockSaveByFd : Unread (sockSaveByFd p s) := unread_room fun _ => rfl

theorem unread_sockSaveByClient {c : Nat} {d : Dict Nat Ptr} :
    Unread (sockSaveByClient c d p s) :=
  quiet_dictRoom.inbox.bind fun _ => .ite ((Leaves.modify (by intro; rfl)).bind fun _ => .pure) .pure

theorem unread_clientSaveBySock {c : Nat} : Unread (clientSaveBySock c s) :=
  unread_room fun _ => rfl

theorem unread_sockSaveLocal : Unread (sockSaveLocal p s) := unread_room fun _ => rfl

theorem unread_sockSaveRemote : Unread (sockSaveRemote p s) := unread_room fun _ => rfl

theorem unread_sockDeleteLocal : Unread (sockDeleteLocal s) :=
  Leaves.get.bind fun _ => .ite ((Leaves.modify (by intro; rfl)).bind fun _ => .pure) .pure

theorem unread_sockDeleteRemote : Unread (sockDeleteRemote s) :=
  Leaves.get.bind fun _ => .ite ((Leaves.modify (by intro; rfl)).bind fun _ => .pure) .pure

theorem unread_saveByState : Unread (saveByState p s) := by
  unfold saveByState
  cases s.state with
  | listening => exact unread_sockSaveLocal
  | pendingAccept | pendingConnect | established => exact unread_sockSaveRemote
  | pendingDisconnect | closed | promisc => exact .pure

theorem unread_deleteByState : Unread (deleteByState s) := by
  unfold deleteByState
  cases s.state with
  | listening => exact unread_sockDeleteLocal
  | pendingAccept | pendingConnect | pendingDisconnect | established =>
    exact unread_sockDeleteRemote
  | closed | promisc => exact .pure

theorem unread_sockSave {c : Nat} : Unread (sockSave c p) := by
  refine quiet_deref.inbox.bind fun s => unread_saveByState.bind fun _ => .ite
    (unread_clientSaveBySock.bind fun _ => .ite (Leaves.get.bind fun w => ?_) .pure) .pure
  cases w.socksByClient.lookup c with
  | none => exact .pure
  | some d => exact unread_sockSaveByClient.bind fun _ => .ite unread_sockSaveByFd .pure

/-! ## Sockets -/

theorem unread_sockDestroy : Unread (sockDestroy p) :=
  quiet_deref.inbox.bind fun _ => quiet_leavePromisc.inbox.bind fun _ =>
    tame_closePty.inbox.bind fun _ => unread_freeSock

theorem unread_sockCloseFd {c : Nat} {d : Dict Nat Ptr} : Unread (sockCloseFd c d p s) :=
  .ite ((Leaves.modify (by intro; rfl)).bind fun _ => Leaves.get.bind fun _ => .ite
    ((Leaves.modify (by intro; rfl)).bind fun _ => quiet_fdClear.inbox.bind fun _ =>
      unread_sockDestroy.bind fun _ => .pure) .pure) .pure

theorem unread_sockClose : Unread (sockClose p) := by
  refine quiet_deref.inbox.bind fun s => unread_deleteByState.bind fun _ =>
    .ite (Leaves.gets.bind fun c => ?_) .pure
  cases c with
  | none => exact .pure
  | some c =>
    refine Leaves.get.bind fun w => ?_
    cases w.socksByClient.lookup c with
    | none => exact .pure
    | some d => exact unread_sockCloseFd

theorem unread_sockShutdown : Unread (sockShutdown p) :=
  quiet_deref.inbox.bind fun _ => quiet_fdClear.inbox.bind fun _ =>
    .ite .pure (unread_store.bind fun _ => quiet_sendDisc.inbox)

theorem unread_sockNew {proto : Nat} {type : SockType} : Unread (sockNew proto type) := by
  refine quiet_alloc.inbox.bind fun _ => .ite (tame_openpty.inbox.bind fun a => ?_) .pure
  cases a with
  | none => exact .pure
  | some a =>
    have hsome {s : Sock} : Unread (some <$> newSock s) := by
      intro w a w' h; cases h; rfl
    have hinit {t : SockType} : Unread 
        (initBufs { (if t = .stream then
            Sock.init { Sock.zero with fd := a.1, pty := a.2 }
            else { Sock.zero with fd := a.1, pty := a.2 }) with
          proto, type := t
          version := .v2_0
          flagsClasses := PATTY_AX25_SOCK_DEFAULT_CLASSES
          flagsHdlc := PATTY_AX25_SOCK_DEFAULT_HDLC } >>= fun r =>
            if r.1 then some <$> newSock r.2 else pure none : M (Option Ptr)) :=
      quiet_initBufs.inbox.bind fun _ => .ite hsome .pure
    cases type with
    | dgram => exact hsome
    | raw =>
      exact quiet_alloc.inbox.bind fun _ => .ite (quiet_alloc.inbox.bind fun _ => .ite
        (quiet_junk.inbox.bind fun _ => hsome) (tame_closeFd.inbox.bind fun _ => .pure))
        (tame_closeFd.inbox.bind fun _ => .pure)
    | stream => exact hinit
    | other n => exact hinit

/-! ## The calls, after they have read their request -/

theorem unread_connectStart {c : Nat} : Unread (connectStart c p s) := by
  unfold connectStart
  cases s.type with
  | dgram => exact unread_store.bind fun _ => .pure
  | stream =>
    exact unread_store.bind fun _ => quiet_sendXid.inbox.bind fun _ =>
      .ite (Leaves.get.bind fun _ => quiet_respond.inbox) (unread_store.bind fun _ => .pure)
  | raw | other n => exact .pure

theorem unread_connectVia {c i : Nat} {peer : Addr} : Unread (connectVia c p s i peer) :=
  quiet_sockBindIf.inbox.bind fun _ => quiet_getIface.inbox.bind fun _ => unread_store.bind fun _ =>
    unread_sockSaveRemote.bind fun _ => .ite
      (unread_clientSaveBySock.bind fun _ => .ite unread_connectStart .pure) .pure

theorem unread_socketRequest {c : Nat} {m : Mem} : Unread (socketRequest c m) := by
  refine unread_sockNew.bind fun r => ?_
  cases r with
  | none => exact .pure
  | some p =>
    exact unread_sockSave.bind fun _ => .ite (quiet_deref.inbox.bind fun _ => quiet_respond.inbox)
      (unread_sockDestroy.bind fun _ => .pure)

theorem unread_paramsOption {c : Nat} {m : Mem} : Unread (paramsOption c p m) :=
  quiet_deref.inbox.bind fun _ => unread_store.bind fun _ => .ite
    (quiet_initBufs.inbox.bind fun _ => unread_store.bind fun _ => .ite quiet_respond.inbox .pure)
    quiet_respond.inbox

theorem unread_ifOption {c : Nat} {m : Mem} : Unread (ifOption c p s m) := by
  refine Leaves.get.bind fun w => ?_
  cases ifGet w.ifaces (SetsockoptIf.ofMem m).name with
  | none => exact quiet_respond.inbox
  | some i =>
    exact quiet_sockBindIf.inbox.bind fun _ => unread_store.bind fun _ =>
      quiet_fdWatch.inbox.bind fun _ => quiet_respond.inbox

theorem unread_bindRequest {c : Nat} {m : Mem} : Unread (bindRequest c m) := by
  refine Leaves.gets.bind fun r => ?_
  cases r with
  | none => exact quiet_respond.inbox
  | some p =>
    refine quiet_deref.inbox.bind fun _ => .ite quiet_respond.inbox (Leaves.gets.bind fun r => ?_)
    cases r with
    | none => exact unread_store.bind fun _ => quiet_respond.inbox
    | some _ => exact quiet_respond.inbox

theorem unread_listenRequest {c : Nat} {m : Mem} : Unread (listenRequest c m) := by
  refine Leaves.gets.bind fun r => ?_
  cases r with
  | none => exact quiet_respond.inbox
  | some p =>
    exact quiet_deref.inbox.bind fun _ => .ite (quiet_junk.inbox.bind fun _ => quiet_respond.inbox)
      (unread_store.bind fun _ => unread_sockSaveLocal.bind fun _ => .ite quiet_respond.inbox .pure)

theorem unread_acceptRequest {c : Nat} {m : Mem} : Unread (acceptRequest c m) := by
  refine Leaves.gets.bind fun r => ?_
  cases r with
  | none => exact quiet_respond.inbox
  | some p =>
    exact quiet_deref.inbox.bind fun _ => .ite quiet_respond.inbox
      (.ite quiet_respond.inbox quiet_respond.inbox)

theorem unread_connectRequest {c : Nat} {m : Mem} : Unread (connectRequest c m) := by
  refine Leaves.gets.bind fun r => ?_
  cases r with
  | none => exact quiet_respond.inbox
  | some p =>
    refine quiet_deref.inbox.bind fun s => .ite quiet_respond.inbox (.ite quiet_respond.inbox
      (.ite quiet_respond.inbox (Leaves.get.bind fun w => ?_)))
    cases connectRoute w.routes s with
    | none => exact quiet_respond.inbox
    | some route => exact unread_connectVia

theorem unread_closeRequest {c : Nat} {m : Mem} : Unread (closeRequest c m) := by
  refine Leaves.gets.bind fun r => ?_
  cases r with
  | none => exact quiet_respond.inbox
  | some p =>
    refine Leaves.get.bind fun w => ?_
    cases w.socksByClient.lookup c with
    | none => exact quiet_respond.inbox
    | some _ =>
      exact unread_sockShutdown.bind fun _ => .ite (Leaves.get.bind fun _ => quiet_respond.inbox)
        (unread_sockClose.bind fun _ => .ite quiet_respond.inbox quiet_respond.inbox)

theorem unread_clientSockClose : Unread (clientSockClose p) :=
  unread_sockShutdown.bind fun _ => .ite .pure unread_sockClose

theorem unread_clientSockCloseFd {c fd : Nat} : Unread (clientSockCloseFd c fd) := by
  refine Leaves.get.bind fun w => ?_
  cases (w.socksByClient.lookup c).bind (·.lookup fd) with
  | none => exact .pure
  | some p => exact unread_clientSockClose

theorem unread_clientEof {c : Nat} : Unread (clientEof c) := by
  refine quiet_fdClear.inbox.bind fun _ => Leaves.get.bind fun w => ?_
  cases w.socksByClient.lookup c with
  | none => exact .pure
  | some d =>
    exact (Leaves.forEach fun _ _ => unread_clientSockCloseFd).bind fun _ =>
      (Leaves.modify (by intro; rfl)).bind fun _ => Leaves.get.bind fun _ => .ite
        ((Leaves.modify (by intro; rfl)).bind fun _ => tame_closeFd.inbox.bind fun _ => .pure) .pure

theorem unread_acceptClient {fd : Nat} : Unread (acceptClient fd) := by
  have hclose {c : Nat} : Unread (do
      closeFd c
      pure (-1) : M Int) := tame_closeFd.inbox.bind fun _ => .pure
  refine Leaves.get.bind fun w => ?_
  refine .bind (.modify (by intro; rfl)) fun _ => quiet_alloc.inbox.bind fun _ => .ite ?_ hclose
  refine Leaves.get.bind fun w' => quiet_dictRoom.inbox.bind fun _ => .ite ?_ hclose
  refine .bind (.modify (by intro; rfl)) fun _ => .ite hclose (Leaves.get.bind fun _ =>
    quiet_dictRoom.inbox.bind fun _ => .ite ?_ hclose)
  exact .bind (.modify (by intro; rfl)) fun _ => quiet_fdWatch.inbox.bind fun _ => .pure

/-! ## Received frames -/

theorem unread_handleFrmr : ∀ {sock : Option Ptr}, Unread (handleFrmr sock)
  | none => .pure
  | some p => by
    refine quiet_deref.inbox.bind fun s => ?_
    cases s.state with
    | pendingConnect => exact unread_store.bind fun _ => quiet_sendSabm.inbox
    | established => exact Leaves.lift.bind fun _ => unread_store.bind fun _ => .pure
    | _ => exact .pure

theorem unread_sabmAccept {i c : Nat} {frame : Frame} {l : Sock} {created : Bool} :
    Unread (sabmAccept i frame l c p created) := by
  have hdestroy : Unread (do
      sockDestroy p
      pure (-1) : M Int) := unread_sockDestroy.bind fun _ => .pure
  have hsave : Unread (if created then sockSave c p else pure true : M Bool) :=
    .ite unread_sockSave .pure
  exact quiet_deref.inbox.bind fun _ => quiet_initBufs.inbox.bind fun _ => unread_store.bind fun _ =>
    .ite (quiet_sockBindIf.inbox.bind fun _ => unread_store.bind fun _ => hsave.bind fun _ => .ite
      (quiet_fdWatch.inbox.bind fun _ => tame_notifyAccept.inbox.bind fun _ => .ite
        (unread_store.bind fun _ => quiet_replyUa.inbox) hdestroy) hdestroy) hdestroy

theorem unread_handleSabm {i : Nat} {frame : Frame} : Unread (handleSabm i frame) := by
  refine Leaves.gets.bind fun l => ?_
  cases l with
  | none => exact quiet_replyDm.inbox
  | some l =>
    refine quiet_deref.inbox.bind fun s => .ite quiet_replyDm.inbox (Leaves.gets.bind fun c => ?_)
    cases c with
    | none => exact .pure
    | some c =>
      refine Leaves.gets.bind fun r => ?_
      cases r with
      | none =>
        refine unread_sockNew.bind fun r => ?_
        cases r with
        | none => exact .pure
        | some r =>
          exact quiet_deref.inbox.bind fun _ => unread_store.bind fun _ => unread_sabmAccept
      | some r =>
        refine quiet_deref.inbox.bind fun s => ?_
        cases s.state with
        | pendingAccept => exact unread_sabmAccept
        | established =>
          exact Leaves.lift.bind fun _ => unread_store.bind fun _ => .ite quiet_replyUa.inbox .pure
        | _ => exact quiet_replyDm.inbox

theorem unread_uaConnect : Unread (uaConnect p s) := by
  refine quiet_initBufs.inbox.bind fun _ => unread_store.bind fun _ =>
    .ite (unread_store.bind fun _ => Leaves.gets.bind fun c => ?_) .pure
  cases c with
  | none => exact .pure
  | some c =>
    exact unread_sockSave.bind fun _ =>
      .ite (quiet_fdWatch.inbox.bind fun _ => quiet_respond.inbox) .pure

theorem unread_handleUa {i : Nat} {frame : Frame} : ∀ {sock : Option Ptr},
    Unread (handleUa i sock frame)
  | none => quiet_getIface.inbox.bind fun _ => .ite .pure quiet_replyDm.inbox
  | some p => by
    refine quiet_getIface.inbox.bind fun _ => .ite .pure (quiet_deref.inbox.bind fun s => ?_)
    cases s.state with
    | pendingConnect => exact unread_uaConnect
    | pendingDisconnect => exact unread_sockClose
    | established => exact .pure
    | _ => exact quiet_replyDm.inbox

theorem unread_handleDm : ∀ {sock : Option Ptr}, Unread (handleDm sock)
  | none => .pure
  | some p => by
    refine quiet_deref.inbox.bind fun s => ?_
    cases s.state with
    | pendingConnect =>
      refine Leaves.gets.bind fun c => ?_
      cases c with
      | none => exact .pure
      | some c => exact Leaves.lift.bind fun _ => unread_store.bind fun _ => quiet_respond.inbox
    | pendingDisconnect => exact unread_store.bind fun _ => unread_sockClose
    | _ => exact .pure

theorem unread_handleDisc {i : Nat} {frame : Frame} : ∀ {sock : Option Ptr},
    Unread (handleDisc i sock frame)
  | none => quiet_replyDm.inbox
  | some p => by
    refine quiet_deref.inbox.bind fun s => ?_
    cases s.state with
    | established => exact unread_sockClose.bind fun _ => quiet_replyUa.inbox
    | pendingDisconnect => exact .pure
    | _ => exact quiet_replyDm.inbox

theorem unread_segmentSave {frame : Frame} {n : Nat} : Unread (segmentSave p s frame n) := by
  refine .ite (unread_store.bind fun _ => quiet_sendSrej.inbox) (Leaves.lift.bind fun r => ?_)
  cases r with
  | error e => exact quiet_setErrno.inbox.bind fun _ => .pure
  | ok s =>
    refine unread_store.bind fun _ => .ite .pure ?_
    cases s.assemblerRead with
    | none => exact .pure
    | some bs =>
      exact (quiet_writePty rfl).inbox.bind fun _ => .ite (unread_store.bind fun _ => .pure) .pure

theorem unread_handleSegment {frame : Frame} : Unread (handleSegment p frame) :=
  quiet_deref.inbox.bind fun _ => .ite quiet_sendSrej.inbox (.ite (.ite quiet_sendSrej.inbox
    (quiet_assemblerInit.inbox.bind fun _ => unread_store.bind fun _ =>
      .ite unread_segmentSave .pure))
    (.ite quiet_sendSrej.inbox (.ite quiet_sendSrej.inbox unread_segmentSave)))

theorem unread_iAnswer {frame : Frame} : Unread (iAnswer p frame) :=
  quiet_deref.inbox.bind fun _ => .ite (unread_store.bind fun _ => quiet_sendRr.inbox)
    (.ite (unread_store.bind fun _ => .pure) (unread_store.bind fun _ => .pure))

theorem unread_iDeliver {frame : Frame} : Unread (iDeliver p frame) :=
  .ite (unread_handleSegment.bind fun _ => .ite .pure unread_iAnswer)
    (quiet_deref.inbox.bind fun _ => (quiet_writePty rfl).inbox.bind fun _ => .ite unread_iAnswer .pure)

theorem unread_iReceive {frame : Frame} : Unread (iReceive p frame) :=
  quiet_deref.inbox.bind fun _ => .ite (unread_store.bind fun _ => unread_iDeliver)
    (.ite quiet_sendSrej.inbox (.ite quiet_sendRej.inbox unread_iDeliver))

theorem unread_handleI {i : Nat} {frame : Frame} : ∀ {sock : Option Ptr},
    Unread (handleI i sock frame)
  | none => .ite quiet_replyDm.inbox .pure
  | some _ => quiet_deref.inbox.bind fun _ => .ite (.ite quiet_replyDm.inbox .pure)
      (Leaves.lift.bind fun _ => unread_store.bind fun _ => unread_iReceive)

theorem unread_handleUi {frame : Frame} : ∀ {sock : Option Ptr}, Unread (handleUi sock frame)
  | none => .pure
  | some _ => quiet_deref.inbox.bind fun _ => .ite .pure (.ite unread_handleSegment
      ((quiet_writePty rfl).inbox.bind fun _ => .ite .pure .pure))

theorem unread_sockFlowStop : Unread (sockFlowStop p) :=
  quiet_deref.inbox.bind fun _ => quiet_fdClear.inbox.bind fun _ => unread_store

theorem unread_sockFlowStart : Unread (sockFlowStart p) :=
  quiet_deref.inbox.bind fun _ => quiet_fdWatch.inbox

theorem unread_handleS {flow : Ptr → M Unit} (hflow : ∀ p, Unread (flow p)) {frame : Frame} :
    ∀ {sock : Option Ptr}, Unread (handleS flow sock frame)
  | none => .pure
  | some p => by
    refine quiet_deref.inbox.bind fun _ => Leaves.lift.bind fun _ => unread_store.bind fun _ => ?_
    cases frame.cr with
    | command => exact .ite quiet_sendRr.inbox .pure
    | response => exact (hflow p).bind fun _ => .pure
    | old => exact .pure

theorem unread_handleSrej {frame : Frame} : ∀ {sock : Option Ptr}, Unread (handleSrej sock frame)
  | none => .pure
  | some _ => quiet_deref.inbox.bind fun _ => Leaves.lift.bind fun _ => unread_store.bind fun _ =>
      quiet_sockResend.inbox.bind fun _ => .ite .pure .pure

theorem unread_xidResponse {params : Params} : Unread (xidResponse p s params) := by
  unfold xidResponse
  rcases s.paramsNegotiate params with ⟨_ | e, s, params⟩
  · exact quiet_sendSabm.inbox.bind fun _ => unread_store.bind fun _ => .pure
  · refine quiet_setErrno.inbox.bind fun _ => unread_store.bind fun _ => Leaves.gets.bind fun c => ?_
    cases c with
    | none => exact .pure
    | some c =>
      exact unread_store.bind fun _ => Leaves.lift.bind fun _ => unread_store.bind fun _ =>
        Leaves.get.bind fun _ => quiet_respond.inbox

theorem unread_xidListen {i : Nat} {frame : Frame} {params : Params} :
    Unread (xidListen i frame s params) := by
  refine Leaves.gets.bind fun c => ?_
  cases c with
  | none => exact .pure
  | some c =>
    refine unread_sockNew.bind fun r => ?_
    cases r with
    | none => exact .pure
    | some r =>
      refine quiet_deref.inbox.bind fun _ => quiet_sockBindIf.inbox.bind fun remote => ?_
      dsimp only
      rcases remote.paramsMax.paramsNegotiate params with ⟨_ | e, s, params⟩
      · exact unread_store.bind fun _ => unread_sockSave.bind fun _ => .ite
          (quiet_sendXid.inbox.bind fun _ => unread_store.bind fun _ => .pure)
          (unread_sockDestroy.bind fun _ => .pure)
      · exact quiet_setErrno.inbox.bind fun _ => unread_store.bind fun _ =>
          unread_sockDestroy.bind fun _ => .pure

theorem unread_handleXid {i : Nat} {frame : Frame} {buf : Mem} {offset len : Nat} :
    Unread (handleXid i frame buf offset len) := by
  refine quiet_getIface.inbox.bind fun _ => .ite .pure (quiet_junk.inbox.bind fun m => ?_)
  cases decodeXid (.ofMem m) buf offset len with
  | none => exact quiet_setErrno.inbox.bind fun _ => .pure
  | some params =>
    refine quiet_setErrno.inbox.bind fun _ => Leaves.gets.bind fun r => ?_
    cases r with
    | some p => exact quiet_deref.inbox.bind fun _ => .ite quiet_replyDm.inbox unread_xidResponse
    | none =>
      refine Leaves.gets.bind fun l => ?_
      cases l with
      | none => exact quiet_replyDm.inbox
      | some l => exact quiet_deref.inbox.bind fun _ => .ite quiet_replyDm.inbox unread_xidListen

theorem unread_handleType {i : Nat} {sock : Option Ptr} {frame : Frame} {buf : Mem}
    {offset len : Nat} : Unread (handleType i sock frame buf offset len) := by
  unfold handleType
  cases frame.type with
  | i => exact unread_handleI
  | ui => exact unread_handleUi
  | rr | rej => exact unread_handleS fun _ => unread_sockFlowStart
  | rnr => exact unread_handleS fun _ => unread_sockFlowStop
  | srej => exact unread_handleSrej
  | xid => exact unread_handleXid
  | sabm | sabme => exact unread_handleSabm
  | test => exact quiet_getIface.inbox.bind fun _ => .ite .pure quiet_replyTest.inbox
  | ua => exact unread_handleUa
  | dm => exact unread_handleDm
  | disc => exact unread_handleDisc
  | frmr => exact unread_handleFrmr
  | unknown => exact .pure

theorem unread_formatOf : ∀ {sock : Option Ptr}, Unread (formatOf sock)
  | none => .pure
  | some _ => quiet_deref.inbox.bind fun _ => .pure

theorem unread_handleFrame {i : Nat} {buf : Mem} {len : Nat} : Unread (handleFrame i buf len) := by
  unfold handleFrame
  rcases decodeAddress .blank buf len with _ | ⟨frame, offset⟩
  · exact quiet_ifDrop.inbox.bind fun _ => .pure
  · refine Leaves.gets.bind fun sock => unread_formatOf.bind fun format => ?_
    rcases decodeControl frame format buf offset len with _ | ⟨frame, offset⟩
    · exact quiet_ifDrop.inbox.bind fun _ => .pure
    · exact quiet_setErrno.inbox.bind fun _ => unread_handleType

/-! ## The turn of a socket -/

theorem unread_ignore {m : M α} {b : β} (h : Unread m) : Unread (do
    let _ ← m
    pure b) := h.bind fun _ => .pure

theorem unread_handleSockDgram {ready : Bool} {inp : Except Errno Bytes} :
    Unread (handleSockDgram p ready inp) := by
  refine quiet_deref.inbox.bind fun s => Leaves.gets.bind fun b => .ite .pure
    (quiet_readPty.inbox.bind fun r => ?_)
  split
  · exact unread_ignore unread_sockClose
  · exact unread_ignore unread_sockClose
  · exact .pure
  · exact quiet_sockWriteBytes.inbox.bind fun _ => unread_store.bind fun _ =>
      .ite (unread_ignore unread_sockClose) .pure

theorem unread_sendRaw {i : Nat} : ∀ {fuel : Nat}, Unread (sendRaw p i fuel)
  | 0 => .pure
  | fuel + 1 => by
    refine quiet_deref.inbox.bind fun s => ?_
    cases s.raw with
    | none => exact .pure
    | some tnc =>
      exact quiet_getIface.inbox.bind fun _ => Leaves.lift.bind fun _ =>
        quiet_setIface.inbox.bind fun _ => unread_store.bind fun _ => .ite .pure (.ite .pure
          (unread_store.bind fun _ => quiet_ifSend.inbox.bind fun _ => .ite .pure unread_sendRaw))

theorem unread_handleSockRaw {ready : Bool} {inp : Except Errno Bytes} :
    Unread (handleSockRaw p ready inp) := by
  refine quiet_deref.inbox.bind fun s => Leaves.gets.bind fun b => .ite .pure ?_
  split
  · split
    · exact quiet_setErrno.inbox.bind fun _ => .pure
    · exact unread_ignore unread_sockClose
    · exact unread_store.bind fun _ => unread_sendRaw
  · exact .pure

theorem unread_sockRead {inp : Except Errno Bytes} : Unread (sockRead p inp) := by
  refine quiet_deref.inbox.bind fun s => quiet_readPty.inbox.bind fun r => ?_
  split
  · exact unread_ignore unread_sockShutdown
  · exact unread_ignore unread_sockShutdown
  · exact .pure
  · exact quiet_sockWriteBytes.inbox.bind fun _ => unread_store.bind fun _ =>
      .ite (unread_ignore unread_sockClose) (unread_store.bind fun _ => .pure)

theorem unread_flowCheck : Unread (flowCheck p s) :=
  unread_store.bind fun _ => .ite unread_sockFlowStop .pure

theorem unread_sockSend {ready : Bool} {inp : Except Errno Bytes} :
    Unread (sockSend p ready inp) :=
  quiet_deref.inbox.bind fun _ => Leaves.gets.bind fun _ => .ite .pure
    (unread_flowCheck.bind fun _ => quiet_deref.inbox.bind fun _ =>
      quiet_sockResendPending.inbox.bind fun _ => unread_store.bind fun _ => .ite .pure
        (.ite (unread_store.bind fun _ => .pure) unread_sockRead))

theorem unread_handleSockPendingAccept : Unread (handleSockPendingAccept p s) :=
  .ite (.ite (unread_store.bind fun _ => quiet_sendXid.inbox)
    (unread_store.bind fun _ => unread_ignore unread_sockClose)) .pure

theorem unread_handleSockPendingConnect : Unread (handleSockPendingConnect p s) := by
  refine .ite (.ite (unread_store.bind fun _ => quiet_sendSabm.inbox)
    (unread_store.bind fun _ => Leaves.gets.bind fun c => ?_)) .pure
  cases c with
  | none => exact .pure
  | some c =>
    exact unread_sockShutdown.bind fun _ => unread_sockClose.bind fun _ => quiet_respond.inbox

theorem unread_handleSockT1 : Unread (handleSockT1 p s) :=
  .ite (quiet_sockResendPending.inbox.bind fun _ => unread_store.bind fun _ => .ite .pure
    (quiet_sendRr.inbox.bind fun _ => .pure))
    (unread_store.bind fun _ => unread_sockShutdown.bind fun _ => unread_sockClose)

theorem unread_handleSockEstablished {ready : Bool} {inp : Except Errno Bytes} :
    Unread (handleSockEstablished p s ready inp) :=
  .ite unread_handleSockT1 (.ite (unread_store.bind fun _ => quiet_sendRr.inbox)
    (.ite (unread_store.bind fun _ => quiet_sendRr.inbox)
      (unread_store.bind fun _ => unread_sockSend)))

theorem unread_handleSockPendingDisconnect {ready : Bool} {inp : Except Errno Bytes} :
    Unread (handleSockPendingDisconnect p s ready inp) :=
  .ite (.ite (unread_store.bind fun _ => quiet_sendDisc.inbox)
    (unread_store.bind fun _ => unread_sockClose)) unread_sockSend

theorem unread_handleSock {elapsed : Timespec} {ready : Bool} {inp : Except Errno Bytes} :
    Unread (handleSock p elapsed ready inp) := by
  refine quiet_deref.inbox.bind fun s => ?_
  split
  · exact unread_handleSockDgram
  · exact unread_handleSockRaw
  · refine unread_store.bind fun _ => ?_
    split
    · exact unread_handleSockPendingAccept
    · exact unread_handleSockPendingConnect
    · exact unread_handleSockEstablished
    · exact unread_handleSockPendingDisconnect
    · exact unread_sockSend

theorem unread_frameResult {i : Nat} {r : Int} : Unread (frameResult i r) :=
  Leaves.get.bind fun _ => .ite (quiet_getIface.inbox.bind fun _ => quiet_setIface.inbox.bind
    fun _ => quiet_fdClear.inbox.bind fun _ => .pure) .pure

/-! ## A client's turn leaves the other clients' bytes alone -/

variable {c c' : Nat}

/-- What reads nothing leaves the bytes of each client alone. -/
theorem Unread.of {m : M α} (h : Unread m) : Leaves (fun w => w.inbox c) m :=
  h.comp (g := fun inbox => inbox c)

theorem other_readClient (hc : c' ≠ c) {n : Nat} :
    Leaves (fun w => w.inbox c) (readClient c' n) := by
  refine (Unread.of quiet_answer.inbox).bind fun a => ?_
  cases a with
  | none =>
    refine Leaves.get.bind fun w => .bind (.modify fun w' => ?_) fun _ => .pure
    exact Function.update_of_ne hc.symm _ _
  | some e => exact (Unread.of quiet_setErrno.inbox).bind fun _ => .pure

theorem other_withRequest (hc : c' ≠ c) {n : Nat} {k : Mem → M Int}
    (hk : ∀ m, Leaves (fun w => w.inbox c) (k m)) :
    Leaves (fun w => w.inbox c) (withRequest c' n k) := by
  refine .bind ((other_readClient hc).bind fun r => ?_) fun r => ?_
  · cases r with
    | none => exact .pure
    | some bs => exact (Unread.of quiet_structOf.inbox).bind fun _ => .pure
  · cases r with
    | none => exact .pure
    | some m => exact hk m

theorem other_withOption (hc : c' ≠ c) {n size : Nat} {k : Mem → M Int}
    (hk : ∀ m, Unread (k m)) : Leaves (fun w => w.inbox c) (withOption c' n size k) := by
  refine .bind ((other_readClient hc).bind fun r => ?_) fun r => ?_
  · cases r with
    | none => exact .pure
    | some bs => exact .ite .fault ((Unread.of quiet_structOf.inbox).bind fun _ => .pure)
  · cases r with
    | none => exact .pure
    | some m => exact Unread.of (hk m)

theorem other_setsockoptRequest (hc : c' ≠ c) {m : Mem} :
    Leaves (fun w => w.inbox c) (setsockoptRequest c' m) := by
  refine Leaves.gets.bind fun r => ?_
  cases r with
  | none => exact Unread.of quiet_respond.inbox
  | some p =>
    exact .ite (other_withOption hc fun _ => unread_paramsOption) (.ite
      ((Unread.of quiet_deref.inbox).bind fun _ => .ite (Unread.of quiet_respond.inbox)
        (other_withOption hc fun _ => unread_ifOption))
      (Unread.of quiet_respond.inbox))

theorem other_serverCalls (hc : c' ≠ c) {n : Nat} {call : Nat → M Int}
    (h : serverCalls n = some call) : Leaves (fun w => w.inbox c) (call c') := by
  unfold serverCalls at h
  split_ifs at h <;> cases h
  · exact Unread.of quiet_respond.inbox
  · exact other_withRequest hc fun _ => Unread.of unread_socketRequest
  · exact other_withRequest hc fun _ => other_setsockoptRequest hc
  · exact other_withRequest hc fun _ => Unread.of unread_bindRequest
  · exact other_withRequest hc fun _ => Unread.of unread_listenRequest
  · exact other_withRequest hc fun _ => Unread.of unread_acceptRequest
  · exact other_withRequest hc fun _ => Unread.of unread_connectRequest
  · exact other_withRequest hc fun _ => Unread.of unread_closeRequest

theorem other_handleClient (hc : c' ≠ c) : Leaves (fun w => w.inbox c) (handleClient c') := by
  refine (other_readClient hc).bind fun r => ?_
  split
  · exact .pure
  · exact Unread.of unread_clientEof
  · refine (Unread.of quiet_structOf.inbox).bind fun m => ?_
    cases h : serverCalls (leValue (m.read 0 4)) with
    | none => exact .pure
    | some call => exact other_serverCalls hc h

/-- An event that is neither the turn of the client nor its writing leaves its bytes alone. -/
theorem other_handleEvent {ev : Event} (hturn : ev ≠ .client c) (hwrite : ∀ bs, ev ≠ .write c bs) :
    Leaves (fun w => w.inbox c) (handleEvent ev) := by
  cases ev with
  | sock fd elapsed ready inp =>
    refine Leaves.gets.bind fun r => ?_
    cases r with
    | none => exact .pure
    | some p => exact Unread.of unread_handleSock
  | client c' =>
    exact Leaves.get.bind fun _ => .ite (other_handleClient fun h => hturn (by rw [h])) .pure
  | write c' bs =>
    refine .bind (.modify fun w => ?_) fun _ => .pure
    exact Function.update_of_ne (fun h => hwrite bs (by rw [h])) _ _
  | accept fd => exact Unread.of unread_acceptClient
  | frame i buf len =>
    refine Leaves.get.bind fun w => ?_
    cases w.ifaces[i]? with
    | none => exact .pure
    | some iface =>
      exact .ite .pure ((Unread.of unread_handleFrame).bind fun _ => Unread.of unread_frameResult)

end Patty.M
