import Patty.Calls
import Patty.Lib.Walks
import Patty.Place
import Patty.Segment.Write

/-! # What the server does to what it holds

The server holds sockets in memory, open descriptors and clients, and it has a log of what it wrote. All it does to
them are a few deeds: it stores a socket, makes or destroys one, takes a client or leaves it, and writes something.
Each of its functions is a sequence of these (`Does`), and one that only talks to the system, to a client or to a
driver leaves everything but the log alone (`Outer`). -/

namespace Patty

open Prog

/-! ## Goods and deeds -/

/-- What the server holds, and what it wrote. -/
structure Goods where
  heap : Ptr → Option Sock
  next : Ptr
  fds : List Nat
  clients : Dict Nat Nat
  log : List Out

def World.goods (w : World) : Goods := ⟨w.heap, w.next, w.fds, w.clients, w.log⟩

/-- The number of the call that the response is for. -/
def Response.call : Response → Nat
  | ping _ => PATTY_CLIENT_PING
  | socket .. => PATTY_CLIENT_SOCKET
  | setsockopt .. => PATTY_CLIENT_SETSOCKOPT
  | bind .. => PATTY_CLIENT_BIND
  | listen .. => PATTY_CLIENT_LISTEN
  | accept .. => PATTY_CLIENT_ACCEPT
  | connect .. => PATTY_CLIENT_CONNECT
  | close .. => PATTY_CLIENT_CLOSE

/-- The response to a call other than `connect`, which is the one that is answered later. -/
def Out.prompt (client : Nat) : Out → Option Nat
  | .respond c r => if c = client ∧ r.call ≠ PATTY_CLIENT_CONNECT then some r.call else none
  | _ => none

/-- It is not the response to a call, other than `connect`. -/
def Out.Unasked (o : Out) : Prop := ∀ client, o.prompt client = none

/-- The calls other than `connect` that the client has got a response to, in order. -/
def World.prompts (w : World) (client : Nat) : List Nat := w.log.filterMap (Out.prompt client)

/-- It is the same socket still. -/
def Sock.Same (s s' : Sock) : Prop := s'.fd = s.fd ∧ s'.type = s.type

/-- What the server does to what it holds. A descriptor is lost only where memory is `short`. -/
inductive Goods.Deed (short : Prop) (g : Goods) : Goods → Prop
  | rest : Deed short g g
  | output {o : Out} (ho : o.Unasked) : Deed short g { g with log := g.log ++ [o] }
  | store {p : Ptr} {s s' : Sock} (hp : g.heap p = some s) (hs : s.Same s') :
    Deed short g { g with heap := Function.update g.heap p (some s') }
  | make {s : Sock} (hfd : s.fd ∉ g.fds) : Deed short g { g with
      heap := Function.update g.heap g.next (some s), next := g.next + 1, fds := s.fd :: g.fds }
  | lose {fd : Nat} (hshort : short) (hfd : fd ∉ g.fds) : Deed short g { g with fds := fd :: g.fds }
  | destroy {p : Ptr} {s : Sock} (hp : g.heap p = some s) : Deed short g { g with
      heap := Function.update g.heap p none, fds := if 0 < s.fd then g.fds.erase s.fd else g.fds }
  | enter {c : Nat} (hc : c ∉ g.fds) :
    Deed short g { g with fds := c :: g.fds, clients := g.clients.insert c c }
  | leave {c : Nat} (hc : c ∈ g.clients) :
    Deed short g { g with fds := g.fds.erase c, clients := g.clients.erase c }

/-- What stays as it is set up for an interface, with whether it is up. -/
def Iface.wired (iface : Iface) : Nat × Nat × IfStatus := (iface.fd, iface.mru, iface.status)

/-- Whether the server runs, and its interfaces. -/
def World.wiring (w : World) : Bool × List (Nat × Nat × IfStatus) := (w.running, w.ifaces.map Iface.wired)

/-- What holds between a world and a later one, as long as no interface fails. -/
structure World.Older (w w' : World) : Prop where
  /-- The allocator refuses nothing that it would have granted before. -/
  alloc : w'.sys.alloc <:+ w.sys.alloc
  wiring : w'.wiring = w.wiring

/-- A deed of the server. -/
def World.Deed (w w' : World) : Prop := w.Older w' ∧ w.goods.Deed (false ∈ w.sys.alloc) w'.goods

/-- A deed that leaves everything but the log alone. -/
def World.Outer (w w' : World) : Prop :=
  w.Older w' ∧ (w'.goods = w.goods ∨ ∃ o : Out, o.Unasked ∧ w'.goods = { w.goods with log := w.log ++ [o] })

theorem World.Outer.deed {w w' : World} (h : w.Outer w') : w.Deed w' := by
  refine ⟨h.1, ?_⟩
  rcases h.2 with hg | ⟨o, ho, hg⟩
  · rw [hg]
    exact .rest
  · rw [hg]
    exact .output ho

theorem World.Deed.prompts {w w' : World} (h : w.Deed w') (client : Nat) : w'.prompts client = w.prompts client := by
  have hlog {log : List Out} (h : w'.goods.log = log) (hp : log.filterMap (Out.prompt client) = w.prompts client) :
      w'.prompts client = w.prompts client := by
    rw [World.prompts, show w'.log = log from h, hp]
  obtain ⟨-, h⟩ := h
  generalize w'.goods = g at h hlog
  cases h with
  | output ho =>
    refine hlog rfl ?_
    rw [List.filterMap_append, List.filterMap_cons_none (ho client), List.filterMap_nil, List.append_nil]
    rfl
  | rest | store | make | lose | destroy | enter | leave => exact hlog rfl rfl

theorem prompts_deeds {w w' : World} (h : Relation.ReflTransGen World.Deed w w') (client : Nat) :
    w'.prompts client = w.prompts client := by
  induction h with
  | refl => rfl
  | tail _ hstep ih => exact (hstep.prompts client).trans ih

theorem Sock.Same.trans {s s' s'' : Sock} (h : s.Same s') (h' : s'.Same s'') : s.Same s'' :=
  ⟨h'.1.trans h.1, h'.2.trans h.2⟩

theorem World.Older.of_eq {w w' : World} (hsys : w'.sys = w.sys) (hwiring : w'.wiring = w.wiring) : w.Older w' :=
  ⟨hsys ▸ List.suffix_rfl, hwiring⟩

theorem World.Older.rfl {w : World} : w.Older w := .of_eq (Eq.refl _) (Eq.refl _)

theorem World.Older.trans {w w' w'' : World} (h : w.Older w') (h' : w'.Older w'') : w.Older w'' :=
  ⟨h'.alloc.trans h.alloc, h'.wiring.trans h.wiring⟩

theorem older_deeds {w w' : World} (h : Relation.ReflTransGen World.Deed w w') : w.Older w' := by
  induction h with
  | refl => exact .rfl
  | tail _ hdeed ih => exact ih.trans hdeed.1

namespace M

variable {α β : Type} {p : Ptr} {s s' : Sock} {client : Nat} {w w' : World}

/-- `m` only talks to the system, to a client or to a driver. -/
abbrev Outer (m : M α) : Prop := Walks World.Outer (fun _ => True) m

/-- All that `m` does are deeds. -/
abbrev Does (m : M α) : Prop := Walks World.Deed (fun _ => True) m

/-- All that `m` does are deeds, where the socket `p` is `s`. -/
abbrev DoesAt (p : Ptr) (s : Sock) (m : M α) : Prop := Walks World.Deed (fun w => w.heap p = some s) m

/-! ## Rules -/

theorem Outer.does {m : M α} (h : Outer m) : Does m :=
  fun w a w' hC hm => Relation.ReflTransGen.mono (fun _ _ h => World.Outer.deed h) _ _ (h w a w' hC hm)

theorem outer_goods (h : Relation.ReflTransGen World.Outer w w') :
    ∃ log, w'.goods = { w.goods with log := log } := by
  induction h with
  | refl => exact ⟨w.log, rfl⟩
  | tail _ hstep ih =>
    obtain ⟨log, ih⟩ := ih
    rcases hstep.2 with h | ⟨o, -, h⟩
    · exact ⟨log, h.trans ih⟩
    · rw [h, ih]
      exact ⟨_, rfl⟩

theorem Outer.heap {m : M α} (h : Outer m) : Leaves World.heap m := by
  intro w a w' hm
  obtain ⟨log, hg⟩ := outer_goods (h w a w' trivial hm)
  exact congrArg Goods.heap hg

/-- The rule for a program that goes on with what it knows of the socket. -/
theorem doesAt_outer {m : M α} {g : α → M β} (hm : Outer m) (hg : ∀ a, DoesAt p s (g a)) :
    DoesAt p s (m >>= g) :=
  hm.does.anywhere.bind_leaves hm.heap (fun _ _ h hp => (congrFun h p).trans hp) hg

/-- The same, where something is known of the value of `m`. -/
theorem doesAt_outer_of {m : M α} {g : α → M β} {P : α → Prop} (hm : Outer m)
    (hP : ∀ w, wp m (fun a _ => P a) (fun _ => True) w) (hg : ∀ a, P a → DoesAt p s (g a)) :
    DoesAt p s (m >>= g) := by
  intro w b w' hp h
  obtain ⟨a, t, h₁, h₂⟩ := bind_eq_ok.mp h
  have ht : t.heap p = some s := (congrFun (hm.heap w a t h₁) p).trans hp
  exact (hm.does w a t trivial h₁).trans (hg a ((hP w).ok h₁) t b w' ht h₂)

theorem outer_deref : Outer (deref p) := by
  refine Walks.get.bind fun w => ?_
  cases w.heap p with
  | none => exact .fault
  | some s => exact .pure

theorem does_deref {g : Sock → M α} (hg : ∀ s, DoesAt p s (g s)) : Does (deref p >>= g) := by
  refine outer_deref.does.bind_of (fun w _ => ?_) hg
  rw [wp_deref]
  exact ⟨fun s hp => hp, fun _ => trivial⟩

theorem does_store (hs : s.Same s') : DoesAt p s (store p s') :=
  .modify fun _ hp => ⟨.of_eq rfl rfl, .store hp hs⟩

theorem doesAt_store {k : Unit → M α} (hs : s.Same s') (hk : DoesAt p s' (k ())) :
    DoesAt p s (M.store p s' >>= k) := by
  refine (does_store hs).bind_of (D := fun _ w => w.heap p = some s') (fun w _ => ?_) fun _ => hk
  exact Function.update_self ..

theorem outer_modify {g : World → World}
    (h : ∀ w, ((g w).goods, (g w).sys, (g w).wiring) = (w.goods, w.sys, w.wiring)) : Outer (Prog.modify g) := by
  refine .modify fun w _ => ?_
  obtain ⟨hg, hw⟩ := Prod.mk.inj (h w)
  obtain ⟨hsys, hwiring⟩ := Prod.mk.inj hw
  exact ⟨.of_eq hsys hwiring, .inl hg⟩

/-! ## Talking to the system -/

theorem outer_setErrno {e : Errno} : Outer (setErrno e) := outer_modify fun _ => rfl

theorem outer_answer {list : Sys → List α} {set : Sys → List α → Sys} {ok : α}
    (h : ∀ sys a as, list sys = a :: as → (set sys as).alloc <:+ sys.alloc) : Outer (answer list set ok) := by
  apply Walks.one
  intro w a w' _ hrun
  unfold answer at hrun
  split at hrun
  · cases hrun
    exact ⟨.rfl, .inl rfl⟩
  · next hlist =>
    cases hrun
    exact ⟨⟨h _ _ _ hlist, rfl⟩, .inl rfl⟩

theorem outer_answer_other {list : Sys → List α} {set : Sys → List α → Sys} {ok : α}
    (h : ∀ sys as, (set sys as).alloc = sys.alloc) : Outer (answer list set ok) :=
  outer_answer fun sys _ as _ => (h sys as).symm ▸ List.suffix_rfl

theorem outer_alloc : Outer alloc := by
  have hanswer : Outer (answer (·.alloc) (fun sys l => { sys with alloc := l }) true) := by
    apply outer_answer
    intro sys a as h
    rw [h]
    exact List.suffix_cons a as
  exact hanswer.bind fun _ => .ite .pure (outer_setErrno.bind fun _ => .pure)

/-- Memory is short where an allocation fails. -/
theorem alloc_short : wp alloc (fun ok _ => ok = false → false ∈ w.sys.alloc) (fun _ => True) w := by
  rw [alloc, wp_bind, wp_answer]
  constructor
  · intro _ h
    cases h
  · intro a as h
    rw [wp_ite]
    constructor
    · intro _ h
      cases h
    · intro ha _
      rw [h, Bool.eq_false_of_not_eq_true ha]
      exact List.mem_cons_self

theorem outer_junk : Outer junk := outer_answer_other fun _ _ => rfl

theorem outer_structOf {bs : Bytes} : Outer (structOf bs) := outer_junk.bind fun _ => .pure

theorem outer_dictRoom {κ γ : Type} [DecidableEq κ] {d : Dict κ γ} {key : κ} : Outer (dictRoom d key) :=
  .ite .pure outer_alloc

theorem outer_emit {o : Out} (ho : o.Unasked) : Outer (emit o) :=
  .modify fun _ _ => ⟨.of_eq rfl rfl, .inr ⟨o, ho, rfl⟩⟩

theorem outer_writePty {o : Out} (ho : o.Unasked) : Outer (writePty o) := by
  refine Walks.bind (outer_answer_other (by intros; rfl)) fun a => ?_
  cases a with
  | none => exact (outer_emit ho).bind fun _ => .pure
  | some e => exact outer_setErrno.bind fun _ => .pure

theorem unasked_connect {ret : Int} {e : Errno} : (Out.respond client (.connect ret e)).Unasked :=
  fun _ => if_neg fun h => h.2 rfl

theorem outer_respondConnect {ret : Int} {e : Errno} : Outer (respondConnect client ret e) := by
  refine Walks.bind (outer_answer_other (by intros; rfl)) fun a => ?_
  cases a with
  | none => exact (outer_emit unasked_connect).bind fun _ => .pure
  | some e => exact outer_setErrno.bind fun _ => .pure

theorem outer_readClient {n : Nat} : Outer (readClient client n) := by
  refine Walks.bind (outer_answer_other (by intros; rfl)) fun a => ?_
  cases a with
  | none =>
    refine Walks.get.bind fun w => ?_
    exact Walks.bind (outer_modify (by intro; rfl)) fun _ => .pure
  | some e => exact outer_setErrno.bind fun _ => .pure

theorem outer_readStruct {n : Nat} : Outer (readStruct client n) := by
  refine outer_readClient.bind fun r => ?_
  cases r with
  | none => exact .pure
  | some bs => exact outer_structOf.bind fun _ => .pure

theorem outer_readOption {len size : Nat} : Outer (readOption client len size) := by
  refine outer_readClient.bind fun r => ?_
  cases r with
  | none => exact .pure
  | some bs => exact .ite .fault (outer_structOf.bind fun _ => .pure)

theorem outer_fdWatch {fd : Nat} : Outer (fdWatch fd) := outer_modify fun _ => rfl

theorem outer_fdClear {fd : Nat} : Outer (fdClear fd) := outer_modify fun _ => rfl

/-! ## Interfaces -/

section

variable {i : Nat}

theorem outer_getIface : Outer (getIface i) := by
  refine Walks.get.bind fun w => ?_
  cases w.ifaces[i]? with
  | none => exact .fault
  | some iface => exact .pure

theorem outer_setIface {f : Iface → Iface} (hf : ∀ iface, (f iface).wired = iface.wired) : Outer (setIface i f) :=
  outer_modify fun _ => congrArg (_, _, _, ·) (map_modify_same Iface.wired hf _ i)

theorem outer_handlePromiscFrame {bs : Bytes} {fd : Nat} : Outer (handlePromiscFrame bs fd) :=
  (outer_writePty fun _ => rfl).bind fun _ => .ite .pure .pure

theorem outer_ifSent {iface : Iface} {bs : Bytes} : Outer (ifSent i iface bs) :=
  Walks.bind (outer_setIface (by intro; rfl)) fun _ =>
    (Walks.forEach fun _ _ => outer_handlePromiscFrame).bind fun _ => .ite .pure .pure

theorem outer_ifSend {bs : Bytes} : Outer (ifSend i bs) := by
  refine outer_getIface.bind fun iface => Walks.bind (outer_answer_other (by intros; rfl)) fun a => ?_
  cases a with
  | sent => exact (outer_emit fun _ => rfl).bind fun _ => outer_ifSent
  | ignored => exact outer_ifSent
  | failed e => exact outer_setErrno.bind fun _ => .pure

theorem wired_promiscAdd {iface : Iface} {fd : Nat} {room : Bool} :
    (iface.promiscAdd fd room).wired = iface.wired := by
  cases room <;> rfl

theorem outer_ifPromiscAdd {fd : Nat} : Outer (ifPromiscAdd i fd) := by
  refine outer_getIface.bind fun iface => .ite (outer_setErrno.bind fun _ => .pure)
    (outer_dictRoom.bind fun room => Walks.bind (outer_setIface fun iface => ?_) fun _ => ?_)
  · exact wired_promiscAdd
  split
  · exact outer_setErrno.bind fun _ => .pure
  · exact .pure

theorem outer_sockBindIf : Outer (sockBindIf s i) :=
  outer_getIface.bind fun _ => .ite (outer_ifPromiscAdd.bind fun _ => .pure) .pure

theorem outer_replyTo {frame : Frame} {control : Nat} {info : Bytes} : Outer (replyTo i frame control info) := by
  refine outer_getIface.bind fun _ => Walks.lift.bind fun r => ?_
  cases r with
  | none => exact .pure
  | some bs => exact Walks.bind (outer_setIface (by intro; rfl)) fun _ => outer_ifSend

end

/-! ## The functions of `sock.c` -/

theorem outer_initBufs : Outer (initBufs s) :=
  outer_alloc.bind fun _ => .ite (outer_alloc.bind fun _ => .ite (outer_alloc.bind fun _ =>
    .ite (outer_junk.bind fun _ => Walks.lift.bind fun _ => .pure) .pure) .pure) .pure

theorem outer_assemblerInit {n : Nat} : Outer (assemblerInit s n) :=
  .ite (outer_setErrno.bind fun _ => .pure)
    (.ite (outer_alloc.bind fun _ => .ite (outer_junk.bind fun _ => .pure) .pure) .pure)

theorem outer_leavePromisc : Outer (leavePromisc s) := by
  refine .ite ?_ .pure
  cases s.iface with
  | none => exact .fault
  | some i => exact outer_setIface fun _ => rfl

section

variable {cr : FrameCr} {pf : Nat}

theorem outer_frameSend {control : Nat} {proto : UInt8} {info : Bytes} :
    Outer (frameSend s cr control proto info) := by
  refine Walks.lift.bind fun r => ?_
  rcases r with (_ | e) | frame
  · exact .pure
  · exact outer_setErrno.bind fun _ => .pure
  · dsimp only
    cases s.iface with
    | none => exact .pure
    | some i => exact outer_ifSend

theorem outer_sendRr : Outer (sendRr s cr pf) := outer_frameSend

theorem outer_sendRej : Outer (sendRej s cr pf) := outer_frameSend

theorem outer_sendSrej : Outer (sendSrej s cr) := outer_frameSend

theorem outer_sendSabm : Outer (sendSabm s pf) := outer_frameSend

theorem outer_sendDisc : Outer (sendDisc s pf) := outer_frameSend

theorem outer_sendXid : Outer (sendXid s cr) := by
  refine .ite (outer_setErrno.bind fun _ => .pure) ?_
  cases encodeXid (xidParams s) 256 with
  | none => exact outer_setErrno.bind fun _ => .pure
  | some info => exact outer_frameSend

end

theorem outer_sockResend {seq : Nat} : Outer (sockResend s seq) :=
  Walks.lift.bind fun _ => .ite outer_frameSend .pure

theorem outer_sockResendPending : Outer (sockResendPending s) :=
  Walks.lift.bind fun _ => .ite (outer_sockResend.bind fun _ => .ite .pure .pure) .pure

theorem outer_writeSegments {buf : Mem} {len seglen n i : Nat} {first : Bool} :
    Outer (writeSegments buf len seglen n i first s) := by
  induction n generalizing i first s with
  | zero => exact .pure
  | succ n ih =>
    exact Walks.lift.bind fun _ => Walks.lift.bind fun _ => outer_frameSend.bind fun _ => .ite .pure ih

theorem outer_writeSegmented {buf : Mem} {len : Nat} : Outer (writeSegmented s buf len) :=
  .ite (outer_setErrno.bind fun _ => .pure) (.ite (outer_setErrno.bind fun _ => .pure) outer_writeSegments)

theorem outer_sockWrite {buf : Mem} {len : Nat} : Outer (sockWrite s buf len) := by
  refine .ite (outer_setErrno.bind fun _ => .pure) ?_
  cases s.type with
  | stream =>
    exact .ite outer_writeSegmented (Walks.lift.bind fun _ => outer_frameSend.bind fun _ => .ite .pure .pure)
  | dgram => exact .ite outer_writeSegmented (outer_frameSend.bind fun _ => .pure)
  | raw =>
    dsimp only
    cases s.iface with
    | none => exact .fault
    | some i => exact outer_ifSend.bind fun _ => .pure
  | other n => exact .pure

theorem outer_readPty {inp : Except Errno Bytes} : Outer (readPty s inp) := by
  cases inp with
  | error e => exact outer_setErrno.bind fun _ => .pure
  | ok bs =>
    refine .ite .pure ?_
    cases s.ioBuf with
    | none => exact outer_setErrno.bind fun _ => .pure
    | some n => exact .ite .fault .pure

/-! ## The tables -/

/-- Entering something in a dictionary, if there is room. -/
theorem outer_room {κ γ : Type} [DecidableEq κ] {d : World → Dict κ γ} {key : κ} {b : Bool} {g : World → World}
    (h : ∀ w, ((g w).goods, (g w).sys, (g w).wiring) = (w.goods, w.sys, w.wiring)) : Outer (do
      if ← dictRoom (d (← get)) key then
        Prog.modify g
        pure b
      else pure false : M Bool) :=
  Walks.get.bind fun _ => outer_dictRoom.bind fun _ =>
    .ite ((outer_modify h).bind fun _ => .pure) .pure

theorem outer_sockSaveByFd : Outer (sockSaveByFd p s) := outer_room fun _ => rfl

theorem outer_sockSaveByClient {socks : Dict Nat Ptr} : Outer (sockSaveByClient client socks p s) :=
  outer_dictRoom.bind fun _ => .ite (Walks.bind (outer_modify (by intro; rfl)) fun _ => .pure) .pure

theorem outer_clientSaveBySock : Outer (clientSaveBySock client s) := outer_room fun _ => rfl

theorem outer_sockSaveLocal : Outer (sockSaveLocal p s) := outer_room fun _ => rfl

theorem outer_sockSaveRemote : Outer (sockSaveRemote p s) := outer_room fun _ => rfl

theorem outer_saveByState : Outer (saveByState p s) := by
  unfold saveByState
  cases s.state with
  | listening => exact outer_sockSaveLocal
  | pendingAccept | pendingConnect | established => exact outer_sockSaveRemote
  | pendingDisconnect | closed | promisc => exact .pure

theorem outer_sockSave : Outer (sockSave client p) := by
  refine outer_deref.bind fun s => outer_saveByState.bind fun _ => .ite
    (outer_clientSaveBySock.bind fun _ => .ite (Walks.get.bind fun w => ?_) .pure) .pure
  cases w.socksByClient.lookup client with
  | none => exact .pure
  | some d => exact outer_sockSaveByClient.bind fun _ => .ite outer_sockSaveByFd .pure

theorem outer_deleteByState : Outer (deleteByState s) := by
  have hlocal : Outer (sockDeleteLocal s) :=
    Walks.get.bind fun _ => .ite (Walks.bind (outer_modify (by intro; rfl)) fun _ => .pure) .pure
  have hremote : Outer (sockDeleteRemote s) :=
    Walks.get.bind fun _ => .ite (Walks.bind (outer_modify (by intro; rfl)) fun _ => .pure) .pure
  unfold deleteByState
  cases s.state with
  | listening => exact hlocal
  | pendingAccept | pendingConnect | pendingDisconnect | established => exact hremote
  | closed | promisc => exact .pure

end M

end Patty
