import Patty.Server.Run

/-! # Rules for the calls the server makes

The weakest preconditions of the calls that look at sockets in memory or change them, and the frame
property of all the others: what only talks to the system, to a client or to an interface leaves the
sockets and the tables of the server alone (`Quiet`). -/

namespace Patty

/-- The sockets and the tables. -/
structure Core where
  heap : Ptr → Option Sock
  next : Ptr
  socksByFd : Dict Nat Ptr
  socksByClient : Dict Nat (Dict Nat Ptr)
  socksLocal : Dict UInt32 Ptr
  socksRemote : Dict UInt32 Ptr
  clients : Dict Nat Nat
  clientsBySock : Dict Nat Nat

def World.core (w : World) : Core where
  heap := w.heap
  next := w.next
  socksByFd := w.socksByFd
  socksByClient := w.socksByClient
  socksLocal := w.socksLocal
  socksRemote := w.socksRemote
  clients := w.clients
  clientsBySock := w.clientsBySock

namespace M

open Prog

variable {α β : Type} {Q : α → World → Prop} {E : Fault → Prop} {w : World} {p : Ptr}

/-! ## Memory -/

theorem deref_ok {s : Sock} (h : w.heap p = some s) : deref p w = .ok (s, w) := by
  simp [deref, bind_run, h]

theorem wp_deref {Q : Sock → World → Prop} : wp (deref p) Q E w ↔
    (∀ s, w.heap p = some s → Q s w) ∧ (w.heap p = none → E .useAfterFree) := by
  rcases h : w.heap p with _ | s
  · simp [deref, wp, bind_run, h]
  · simp [wp, deref_ok h]

theorem wp_deref_some {s : Sock} {Q : Sock → World → Prop} (hp : w.heap p = some s) (h : Q s w) :
    wp (deref p) Q E w := wp_of_ok (deref_ok hp) h

@[simp] theorem wp_store {s : Sock} {Q : Unit → World → Prop} :
    wp (store p s) Q E w ↔ Q () (w.setSock p s) := Iff.rfl

@[simp] theorem wp_newSock {s : Sock} {Q : Ptr → World → Prop} :
    wp (newSock s) Q E w ↔ Q w.next { w.setSock w.next s with next := w.next + 1 } := Iff.rfl

theorem wp_freeSock {Q : Unit → World → Prop} : wp (freeSock p) Q E w ↔
    (∀ s, w.heap p = some s → Q () { w with heap := Function.update w.heap p none }) ∧
      (w.heap p = none → E .useAfterFree) := by
  rw [freeSock, wp_bind, wp_deref]
  rfl

@[simp] theorem wp_setErrno {e : Errno} {Q : Unit → World → Prop} :
    wp (setErrno e) Q E w ↔ Q () { w with errno := e } := Iff.rfl

@[simp] theorem wp_sockByFd {fd : Nat} {Q : Option Ptr → World → Prop} :
    wp (sockByFd fd) Q E w ↔ Q (w.socksByFd.lookup fd) w := Iff.rfl

@[simp] theorem wp_sockByAddr {a : Addr} {Q : Option Ptr → World → Prop} :
    wp (sockByAddr a) Q E w ↔ Q (w.socksLocal.lookup (hashAddr a)) w := Iff.rfl

@[simp] theorem wp_sockByAddrpair {a b : Addr} {Q : Option Ptr → World → Prop} :
    wp (sockByAddrpair a b) Q E w ↔ Q (w.socksRemote.lookup (hashAddrpair a b)) w := Iff.rfl

@[simp] theorem wp_clientBySock {s : Sock} {Q : Option Nat → World → Prop} :
    wp (clientBySock s) Q E w ↔ Q (clientOf w.clientsBySock s.fd) w := Iff.rfl

theorem wp_answer {list : Sys → List α} {set : Sys → List α → Sys} {ok : α} :
    wp (answer list set ok) Q E w ↔ (list w.sys = [] → Q ok w) ∧
      ∀ a as, list w.sys = a :: as → Q a { w with sys := set w.sys as } := by
  unfold wp
  rcases h : list w.sys with _ | ⟨a, as⟩ <;> simp [answer, h]

theorem wp_getIface {i : Nat} {Q : Iface → World → Prop} : wp (getIface i) Q E w ↔
    (∀ iface, w.ifaces[i]? = some iface → Q iface w) ∧ (w.ifaces[i]? = none → E .nullPointer) := by
  rcases h : w.ifaces[i]? with _ | iface
  · simp [getIface, wp, bind_run, h]
  · simp [getIface, wp, bind_run, h]

/-! ## What only talks to the system -/

section

variable {τ : Type} {f : World → τ}

theorem leaves_deref : Leaves f (deref p) := by
  refine Leaves.get.bind fun w => ?_
  cases w.heap p with
  | none => exact .fault
  | some s => exact .pure

theorem leaves_getIface {i : Nat} : Leaves f (getIface i) := by
  refine Leaves.get.bind fun w => ?_
  cases w.ifaces[i]? with
  | none => exact .fault
  | some iface => exact .pure

theorem leaves_answer {list : Sys → List α} {set : Sys → List α → Sys} {ok : α}
    (h : ∀ w l, f { w with sys := set w.sys l } = f w) : Leaves f (answer list set ok) := by
  intro w a w' hrun
  unfold answer at hrun
  split at hrun <;> cases hrun
  · rfl
  · exact h w _

/-- Entering something in a dictionary, if there is room. -/
theorem leaves_room {κ γ : Type} [DecidableEq κ] {d : World → Dict κ γ} {key : κ} {b : Bool}
    {g : World → World} (hroom : ∀ d : Dict κ γ, Leaves f (dictRoom d key)) (h : ∀ w, f (g w) = f w) :
    Leaves f (do
      if ← dictRoom (d (← get)) key then
        Prog.modify g
        pure b
      else pure false : M Bool) :=
  Leaves.get.bind fun _ => (hroom _).bind fun _ => .ite ((Leaves.modify h).bind fun _ => .pure) .pure

/-- What `g` sees of a list in which an element has changed. -/
theorem map_modify {β : Type} (g : α → β) (k : β → β) {m : α → α} (hm : ∀ a, g (m a) = k (g a)) (l : List α)
    (i : Nat) : (l.modify i m).map g = (l.map g).modify i k := by
  refine List.ext_getElem? fun j => ?_
  rw [List.getElem?_map, List.getElem?_modify, List.getElem?_modify, List.getElem?_map]
  cases l[j]? with
  | none => rfl
  | some a =>
    refine congrArg some ?_
    dsimp only
    split
    · exact hm a
    · rfl

/-- Changing an element where `g` does not see it. -/
theorem map_modify_same {β : Type} (g : α → β) {m : α → α} (hm : ∀ a, g (m a) = g a) (l : List α) (i : Nat) :
    (l.modify i m).map g = l.map g :=
  (map_modify g id hm l i).trans (List.modify_id ..)

/-- `f` sees nothing of what talking to the system, to a client or to a driver changes, where `P` are the
effects that it does not see. -/
structure Unseen (f : World → τ) (P : Out → Prop) : Prop where
  errno : ∀ w e, f { w with errno := e } = f w
  sys : ∀ w sys, f { w with sys := sys } = f w
  log : ∀ w o, P o → f { w with log := w.log ++ [o] } = f w
  stats : ∀ w i (g : Iface → IfStats), f { w with
    ifaces := w.ifaces.modify i fun iface => { iface with stats := g iface } } = f w

namespace Unseen

variable {P : Out → Prop} (h : Unseen f P)

include h

theorem setErrno {e : Errno} : Leaves f (M.setErrno e) := .modify fun w => h.errno w e

theorem answer {list : Sys → List α} {set : Sys → List α → Sys} {ok : α} :
    Leaves f (M.answer list set ok) := leaves_answer fun w _ => h.sys w _

theorem alloc : Leaves f M.alloc :=
  h.answer.bind fun _ => .ite .pure (h.setErrno.bind fun _ => .pure)

theorem junk : Leaves f M.junk := h.answer

theorem structOf {bs : Bytes} : Leaves f (M.structOf bs) := h.junk.bind fun _ => .pure

theorem dictRoom {κ : Type} [DecidableEq κ] {d : Dict κ α} {key : κ} : Leaves f (M.dictRoom d key) :=
  .ite .pure h.alloc

theorem emit {o : Out} (ho : P o) : Leaves f (M.emit o) := .modify fun w => h.log w o ho

theorem writePty {o : Out} (ho : P o) : Leaves f (M.writePty o) := by
  refine h.answer.bind fun a => ?_
  cases a with
  | none => exact (h.emit ho).bind fun _ => .pure
  | some e => exact h.setErrno.bind fun _ => .pure

theorem respond {c : Nat} {r : Response} (ho : P (.respond c r)) : Leaves f (M.respond c r) := by
  refine h.answer.bind fun a => ?_
  cases a with
  | none => exact (h.emit ho).bind fun _ => .pure
  | some e => exact h.setErrno.bind fun _ => .pure

theorem ifSent {i : Nat} {iface : Iface} {bs : Bytes} (ho : ∀ fd bs, P (.promisc fd bs)) :
    Leaves f (M.ifSent i iface bs) := by
  have heach : ∀ fd ∈ iface.promiscFds.keys, Leaves f (handlePromiscFrame bs fd) :=
    fun fd _ => (h.writePty (ho fd _)).bind fun _ => .ite .pure .pure
  exact (Leaves.modify fun w => h.stats w i _).bind fun _ => (Leaves.forEach heach).bind fun _ =>
    .ite .pure .pure

theorem ifSend {i : Nat} {bs : Bytes} (ho : ∀ fd bs, P (.promisc fd bs)) (ho' : ∀ i bs, P (.ifSend i bs)) :
    Leaves f (M.ifSend i bs) := by
  refine leaves_getIface.bind fun iface => h.answer.bind fun a => ?_
  cases a with
  | sent => exact (h.emit (ho' i bs)).bind fun _ => h.ifSent ho
  | ignored => exact h.ifSent ho
  | failed e => exact h.setErrno.bind fun _ => .pure

/-- The rule where `f` does not see the descriptors of an interface either. -/
theorem ifPromiscAdd {i fd : Nat}
    (hi : ∀ w room, f { w with ifaces := w.ifaces.modify i (·.promiscAdd fd room) } = f w) :
    Leaves f (M.ifPromiscAdd i fd) := by
  refine leaves_getIface.bind fun iface => .ite (h.setErrno.bind fun _ => .pure) (h.dictRoom.bind fun room =>
    (Leaves.modify fun w => hi w room).bind fun _ => ?_)
  split
  · exact h.setErrno.bind fun _ => .pure
  · exact .pure

theorem frameSend {s : Sock} {cr : FrameCr} {control : Nat} {proto : UInt8} {info : Bytes}
    (ho : ∀ fd bs, P (.promisc fd bs)) (ho' : ∀ i bs, P (.ifSend i bs)) :
    Leaves f (M.frameSend s cr control proto info) := by
  refine Leaves.lift.bind fun r => ?_
  rcases r with (_ | e) | frame
  · exact .pure
  · exact h.setErrno.bind fun _ => .pure
  · dsimp only
    cases s.iface with
    | none => exact .pure
    | some i => exact h.ifSend ho ho'

end Unseen

/-- `f` does not see the tables. -/
def Unlisted (f : World → τ) : Prop := ∀ w byFd byClient locals remotes clients, f { w with
  socksByFd := byFd, socksByClient := byClient, socksLocal := locals, socksRemote := remotes,
  clientsBySock := clients } = f w

namespace Unlisted

variable {s : Sock} {client : Nat} (h : Unlisted f)

include h

theorem deleteByState : Leaves f (M.deleteByState s) := by
  have hlocal : Leaves f (sockDeleteLocal s) :=
    Leaves.get.bind fun _ => .ite ((Leaves.modify fun w => h w ..).bind fun _ => .pure) .pure
  have hremote : Leaves f (sockDeleteRemote s) :=
    Leaves.get.bind fun _ => .ite ((Leaves.modify fun w => h w ..).bind fun _ => .pure) .pure
  unfold M.deleteByState
  cases s.state with
  | listening => exact hlocal
  | pendingAccept | pendingConnect | pendingDisconnect | established => exact hremote
  | closed | promisc => exact .pure

variable (hroom : ∀ {κ γ : Type} [DecidableEq κ] {d : Dict κ γ} {key : κ}, Leaves f (dictRoom d key))

include hroom

theorem sockSaveByFd : Leaves f (M.sockSaveByFd p s) := leaves_room (fun _ => hroom) fun w => h w ..

theorem sockSaveByClient {socks : Dict Nat Ptr} : Leaves f (M.sockSaveByClient client socks p s) :=
  hroom.bind fun _ => .ite ((Leaves.modify fun w => h w ..).bind fun _ => .pure) .pure

theorem clientSaveBySock : Leaves f (M.clientSaveBySock client s) :=
  leaves_room (fun _ => hroom) fun w => h w ..

theorem sockSaveLocal : Leaves f (M.sockSaveLocal p s) := leaves_room (fun _ => hroom) fun w => h w ..

theorem sockSaveRemote : Leaves f (M.sockSaveRemote p s) := leaves_room (fun _ => hroom) fun w => h w ..

theorem saveByState : Leaves f (M.saveByState p s) := by
  unfold M.saveByState
  cases s.state with
  | listening => exact h.sockSaveLocal hroom
  | pendingAccept | pendingConnect | established => exact h.sockSaveRemote hroom
  | pendingDisconnect | closed | promisc => exact .pure

theorem sockSave : Leaves f (M.sockSave client p) := by
  refine leaves_deref.bind fun s => (h.saveByState hroom).bind fun _ => .ite
    ((h.clientSaveBySock hroom).bind fun _ => .ite (Leaves.get.bind fun w => ?_) .pure) .pure
  cases w.socksByClient.lookup client with
  | none => exact .pure
  | some d => exact (h.sockSaveByClient hroom).bind fun _ => .ite (h.sockSaveByFd hroom) .pure

end Unlisted

end

/-! ## The calls that leave the sockets and the tables alone -/

/-- `m` leaves the sockets, the tables and what the clients have written alone. -/
abbrev Tame (m : M α) : Prop := Leaves (fun w => (w.core, w.inbox)) m

theorem Tame.core {m : M α} (h : Tame m) : Leaves World.core m := h.comp (g := Prod.fst)

theorem Tame.inbox {m : M α} (h : Tame m) : Leaves World.inbox m := h.comp (g := Prod.snd)

/-- `m` is tame, neither opens nor closes a descriptor and writes no accept message. -/
abbrev Quiet (m : M α) : Prop := Leaves (fun w => ((w.core, w.inbox), w.fds, w.accepts)) m

theorem Quiet.tame {m : M α} (h : Quiet m) : Tame m := h.comp (g := Prod.fst)

theorem Quiet.core {m : M α} (h : Quiet m) : Leaves World.core m := h.tame.core

theorem Quiet.inbox {m : M α} (h : Quiet m) : Leaves World.inbox m := h.tame.inbox

theorem accepts_append (w : World) {o : Out} (h : o.isAccept = false) :
    World.accepts { w with log := w.log ++ [o] } = w.accepts := by
  rw [World.accepts, World.accepts, List.filterMap_append]
  cases o with
  | acceptMessage => cases h
  | ifSend | ptyWrite | promisc | respond => exact List.append_nil _

theorem quiet_unseen : Unseen (fun w => ((w.core, w.inbox), w.fds, w.accepts)) fun o => o.isAccept = false where
  errno _ _ := rfl
  sys _ _ := rfl
  log w _ h := by
    dsimp only
    rw [accepts_append w h]
    rfl
  stats _ _ _ := rfl

theorem quiet_setErrno {e : Errno} : Quiet (setErrno e) := Unseen.setErrno quiet_unseen

theorem quiet_answer {list : Sys → List α} {set : Sys → List α → Sys} {ok : α} :
    Quiet (answer list set ok) := Unseen.answer quiet_unseen

theorem quiet_alloc : Quiet alloc := Unseen.alloc quiet_unseen

theorem quiet_junk : Quiet junk := Unseen.junk quiet_unseen

theorem quiet_deref : Quiet (deref p) := leaves_deref

theorem tame_openpty : Tame openpty := by
  refine quiet_answer.tame.bind fun a => ?_
  cases a with
  | none => exact .pure
  | some a =>
    refine Leaves.get.bind fun w => ?_
    dsimp only
    exact .bind (.modify (by intro; rfl)) fun _ => .pure

theorem tame_closeFd {fd : Nat} : Tame (closeFd fd) := .modify fun _ => rfl

theorem quiet_fdWatch {fd : Nat} : Quiet (fdWatch fd) := .modify fun _ => rfl

theorem quiet_fdClear {fd : Nat} : Quiet (fdClear fd) := .modify fun _ => rfl

theorem quiet_writePty {o : Out} (h : o.isAccept = false) : Quiet (writePty o) := Unseen.writePty quiet_unseen h

theorem quiet_respond {c : Nat} {r : Response} : Quiet (respond c r) := Unseen.respond quiet_unseen rfl

theorem core_readClient {c n : Nat} : Leaves World.core (readClient c n) := by
  refine quiet_answer.core.bind fun a => ?_
  cases a with
  | none =>
    refine Leaves.get.bind fun w => ?_
    dsimp only
    exact .bind (.modify (by intro; rfl)) fun _ => .pure
  | some e => exact quiet_setErrno.core.bind fun _ => .pure

theorem quiet_structOf {bs : Bytes} : Quiet (structOf bs) := Unseen.structOf quiet_unseen

theorem core_readStruct {c n : Nat} : Leaves World.core (readStruct c n) := by
  refine core_readClient.bind fun a => ?_
  cases a with
  | none => exact .pure
  | some bs => exact quiet_structOf.core.bind fun _ => .pure

theorem quiet_dictRoom {κ : Type} [DecidableEq κ] {d : Dict κ α} {key : κ} :
    Quiet (dictRoom d key) := Unseen.dictRoom quiet_unseen

theorem quiet_getIface {i : Nat} : Quiet (getIface i) := leaves_getIface

theorem quiet_setIface {i : Nat} {f : Iface → Iface} : Quiet (setIface i f) :=
  .modify fun _ => rfl

theorem quiet_ifSend {i : Nat} {bs : Bytes} : Quiet (ifSend i bs) :=
  Unseen.ifSend quiet_unseen (fun _ _ => rfl) fun _ _ => rfl

theorem quiet_ifDrop {i : Nat} : Quiet (ifDrop i) := quiet_setIface

/-! ## The functions of `sock.c` -/

theorem quiet_initBufs {s : Sock} : Quiet (initBufs s) :=
  quiet_alloc.bind fun _ => .ite (quiet_alloc.bind fun _ => .ite (quiet_alloc.bind fun _ =>
    .ite (quiet_junk.bind fun _ => Leaves.lift.bind fun _ => .pure) .pure) .pure) .pure

theorem quiet_assemblerInit {s : Sock} {n : Nat} : Quiet (assemblerInit s n) :=
  .ite (quiet_setErrno.bind fun _ => .pure)
    (.ite (quiet_alloc.bind fun _ => .ite (quiet_junk.bind fun _ => .pure) .pure) .pure)

theorem quiet_ifPromiscAdd {i fd : Nat} : Quiet (ifPromiscAdd i fd) :=
  Unseen.ifPromiscAdd quiet_unseen fun _ _ => rfl

theorem quiet_sockBindIf {s : Sock} {i : Nat} : Quiet (sockBindIf s i) :=
  quiet_getIface.bind fun _ => .ite (quiet_ifPromiscAdd.bind fun _ => .pure) .pure

theorem quiet_leavePromisc {s : Sock} : Quiet (leavePromisc s) := by
  refine .ite ?_ .pure
  cases s.iface with
  | none => exact .fault
  | some i => exact quiet_setIface

theorem tame_closePty {s : Sock} : Tame (closePty s) := .ite tame_closeFd .pure

theorem quiet_frameSend {s : Sock} {cr : FrameCr} {control : Nat} {proto : UInt8} {info : Bytes} :
    Quiet (frameSend s cr control proto info) := Unseen.frameSend quiet_unseen (fun _ _ => rfl) fun _ _ => rfl

theorem quiet_sendS {type : FrameType} {s : Sock} {cr : FrameCr} {pf : Nat} :
    Quiet (sendS type s cr pf) := quiet_frameSend

theorem quiet_sendRr {s : Sock} {cr : FrameCr} {pf : Nat} : Quiet (sendRr s cr pf) := quiet_sendS

theorem quiet_sendRej {s : Sock} {cr : FrameCr} {pf : Nat} : Quiet (sendRej s cr pf) := quiet_sendS

theorem quiet_sendSrej {s : Sock} {cr : FrameCr} : Quiet (sendSrej s cr) := quiet_sendS

theorem quiet_sendSabm {s : Sock} {pf : Nat} : Quiet (sendSabm s pf) := quiet_frameSend

theorem quiet_sendDisc {s : Sock} {pf : Nat} : Quiet (sendDisc s pf) := quiet_frameSend

theorem quiet_sendXid {s : Sock} {cr : FrameCr} : Quiet (sendXid s cr) := by
  refine .ite (quiet_setErrno.bind fun _ => .pure) ?_
  cases encodeXid (xidParams s) 256 with
  | none => exact quiet_setErrno.bind fun _ => .pure
  | some info => exact quiet_frameSend

theorem quiet_sockResend {s : Sock} {seq : Nat} : Quiet (sockResend s seq) :=
  Leaves.lift.bind fun _ => .ite quiet_frameSend .pure

theorem quiet_sockResendPending {s : Sock} : Quiet (sockResendPending s) :=
  Leaves.lift.bind fun _ => .ite (quiet_sockResend.bind fun _ => .ite .pure .pure) .pure

theorem quiet_writeSegments {buf : Mem} {len seglen : Nat} : ∀ {n i : Nat} {first : Bool} {s : Sock},
    Quiet (writeSegments buf len seglen n i first s)
  | 0, _, _, _ => .pure
  | _ + 1, _, _, _ => Leaves.lift.bind fun _ => Leaves.lift.bind fun _ =>
      quiet_frameSend.bind fun _ => .ite .pure quiet_writeSegments

theorem quiet_writeSegmented {s : Sock} {buf : Mem} {len : Nat} :
    Quiet (writeSegmented s buf len) :=
  .ite (quiet_setErrno.bind fun _ => .pure)
    (.ite (quiet_setErrno.bind fun _ => .pure) quiet_writeSegments)

theorem quiet_sockWrite {s : Sock} {buf : Mem} {len : Nat} : Quiet (sockWrite s buf len) := by
  refine .ite (quiet_setErrno.bind fun _ => .pure) ?_
  cases s.type with
  | stream =>
    exact .ite quiet_writeSegmented (Leaves.lift.bind fun _ => quiet_frameSend.bind fun _ =>
      .ite .pure .pure)
  | dgram => exact .ite quiet_writeSegmented (quiet_frameSend.bind fun _ => .pure)
  | raw =>
    dsimp only
    cases s.iface with
    | none => exact .fault
    | some i => exact quiet_ifSend.bind fun _ => .pure
  | other n => exact .pure

theorem quiet_sockWriteBytes {s : Sock} {bs : Bytes} : Quiet (sockWriteBytes s bs) :=
  quiet_sockWrite

theorem quiet_readPty {s : Sock} {inp : Except Errno Bytes} : Quiet (readPty s inp) := by
  cases inp with
  | error e => exact quiet_setErrno.bind fun _ => .pure
  | ok bs =>
    refine .ite .pure ?_
    cases s.ioBuf with
    | none => exact quiet_setErrno.bind fun _ => .pure
    | some n => exact .ite .fault .pure

/-! ## Replies -/

theorem tame_notifyAccept {a b : Nat} {peer : Addr} {path : Bytes} :
    Tame (notifyAccept a b peer path) := by
  refine quiet_answer.tame.bind fun a => ?_
  cases a with
  | none => exact Leaves.bind (.modify fun _ => rfl) fun _ => .pure
  | some e => exact quiet_setErrno.tame.bind fun _ => .pure

theorem quiet_replyTo {i : Nat} {frame : Frame} {control : Nat} {info : Bytes} :
    Quiet (replyTo i frame control info) := by
  refine quiet_getIface.bind fun _ => Leaves.lift.bind fun r => ?_
  cases r with
  | none => exact .pure
  | some bs => exact quiet_setIface.bind fun _ => quiet_ifSend

theorem quiet_replyDm {i : Nat} {frame : Frame} {flag : Nat} : Quiet (replyDm i frame flag) :=
  quiet_replyTo

theorem quiet_replyUa {i : Nat} {frame : Frame} {flag : Nat} : Quiet (replyUa i frame flag) :=
  quiet_replyTo

theorem quiet_replyTest {i : Nat} {frame : Frame} : Quiet (replyTest i frame) := quiet_replyTo

/-! ## What sockets receive -/

theorem writePty_spec {o : Out} : wp (writePty o) (fun ok w' => w'.core = w.core ∧
    ok = !w.sys.refuses ∧ w'.log = if w.sys.refuses then w.log else w.log ++ [o]) E w := by
  rw [writePty, wp_bind, wp_answer, Sys.refuses]
  constructor
  · rintro h
    simp only [h]
    exact ⟨rfl, rfl, rfl⟩
  · rintro (_ | e) as h
    · simp only [h]
      exact ⟨rfl, rfl, rfl⟩
    · simp only [h]
      exact ⟨rfl, rfl, rfl⟩

/-! ## What is not logged -/

/-- `m` adds nothing to the log of what `f` picks out. -/
abbrev Hides {β : Type} (f : Out → Option β) (m : M α) : Prop := Leaves (fun w => w.log.filterMap f) m

section

variable {β : Type} {f : Out → Option β}

theorem hides_unseen : Unseen (fun w => w.log.filterMap f) fun o => f o = none where
  errno _ _ := rfl
  sys _ _ := rfl
  log w o h := by
    dsimp only
    rw [List.filterMap_append, List.filterMap_cons_none h, List.filterMap_nil, List.append_nil]
  stats _ _ _ := rfl

theorem hides_setErrno {e : Errno} : Hides f (setErrno e) := Unseen.setErrno hides_unseen

theorem hides_answer {list : Sys → List α} {set : Sys → List α → Sys} {ok : α} :
    Hides f (answer list set ok) := Unseen.answer hides_unseen

theorem hides_respond {c : Nat} {r : Response} (h : f (.respond c r) = none) : Hides f (respond c r) :=
  Unseen.respond hides_unseen h

theorem hides_frameSend {s : Sock} {cr : FrameCr} {control : Nat} {proto : UInt8} {info : Bytes}
    (h : ∀ fd bs, f (.promisc fd bs) = none) (h' : ∀ i bs, f (.ifSend i bs) = none) :
    Hides f (frameSend s cr control proto info) := Unseen.frameSend hides_unseen h h'

end

/-- `m` hands nothing to a pty that a socket received. -/
abbrev Mute (m : M α) : Prop := Leaves World.written m

theorem mute_setErrno {e : Errno} : Mute (setErrno e) := hides_setErrno

theorem mute_answer {list : Sys → List α} {set : Sys → List α → Sys} {ok : α} :
    Mute (answer list set ok) := hides_answer

theorem mute_frameSend {s : Sock} {cr : FrameCr} {control : Nat} {proto : UInt8} {info : Bytes} :
    Mute (frameSend s cr control proto info) := hides_frameSend (fun _ _ => rfl) fun _ _ => rfl

/-! ## What is sent -/

/-- `m` hands no frame to a driver. -/
abbrev Silent (m : M α) : Prop := Leaves World.sent m

theorem silent_answer {list : Sys → List α} {set : Sys → List α → Sys} {ok : α} :
    Silent (answer list set ok) := hides_answer

theorem silent_ifSent {i : Nat} {iface : Iface} {bs : Bytes} : Silent (ifSent i iface bs) :=
  Unseen.ifSent hides_unseen fun _ _ => rfl

/-- An interface hands at most the frame to its driver. -/
theorem ifSend_sent {i : Nat} {frame : Bytes} : wp (ifSend i frame)
    (fun _ w' => w'.sent = w.sent ∨ w'.sent = w.sent ++ [(i, frame)]) (fun _ => True) w := by
  rw [ifSend, wp_bind, wp_getIface]
  refine ⟨fun iface _ => ?_, fun _ => trivial⟩
  rw [wp_bind]
  refine silent_answer.wp (fun a w₁ h₁ => ?_) fun _ => trivial
  cases a with
  | failed e => exact .inl h₁
  | ignored => exact silent_ifSent.wp (fun _ w₂ h₂ => .inl (h₂.trans h₁)) fun _ => trivial
  | sent =>
    dsimp only
    rw [wp_bind]
    refine silent_ifSent.wp (fun _ w₂ h₂ => .inr ?_) fun _ => trivial
    rw [h₂, World.sent, List.filterMap_append, ← World.sent, h₁]
    rfl

/-! ## Steps -/

/-- A step handles its event, and a negative result ends the run. -/
theorem step_handles {w w' : World} {inp : Input} (h : w.Step inp w') :
    w.running = true ∧ ∃ r w'', handleEvent inp.event { w with sys := inp.sys } = .ok (r, w'') ∧
      w' = if r < 0 then { w'' with running := false } else w'' := by
  obtain ⟨hr, h⟩ := World.step_iff.mp h
  refine ⟨hr, ?_⟩
  obtain ⟨⟨⟩, w₁, h₁, h⟩ := bind_eq_ok.mp h
  cases h₁
  obtain ⟨r, w₂, h₂, h⟩ := bind_eq_ok.mp h
  refine ⟨r, w₂, h₂, ?_⟩
  split_ifs at h ⊢ <;> cases h <;> rfl

end M

end Patty
