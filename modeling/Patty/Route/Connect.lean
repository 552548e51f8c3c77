import Patty.Place
import Patty.Receive
import Patty.Route.Config

/-! # From the route to the connection (`server_connect`)

`server_connect` looks up the route under the socket's own address, not under that of the peer, and takes
only the interface from it: a connection goes the configured way where the two routes share the interface
and no path is configured (`reachesPeer_iff`). -/

namespace Patty

open Prog

variable {c : Configured} {i : Nat} {w w' : World} {client : Nat} {m : Mem} {p : Ptr} {s s' : Sock} {via : Via}
  {path : List Addr}

/-! ## The way of a connection -/

/-- The frames of the socket list the repeaters of the path, in order. -/
def Sock.Carries (s : Sock) (path : List Addr) : Prop :=
  ∃ hops, List.Forall₂ Addr.Same hops path ∧
    ∀ cr, s.addressField cr = addressOctets s.remote s.localAddr hops cr

theorem Sock.carries_forall₂ : s.Carries path ↔ List.Forall₂ Addr.Same s.repeaterList path := by
  constructor
  · rintro ⟨hops, hpath, hfield⟩
    have hsame := addressOctets_hops ((addressField_octets s .command).symm.trans (hfield .command))
    exact forall₂_common hsame.flip hpath fun _ _ _ ha hb => Addr.Same.trans ha hb
  · intro h
    exact ⟨s.repeaterList, h, addressField_octets s⟩

/-- The answer ENETDOWN to `connect`. -/
def Out.down (client : Nat) (o : Out) : Option Unit :=
  if o = .respond client (.connect (-1) .enetdown) then some () else none

/-- The answers ENETDOWN that a client gets to `connect`. -/
def World.downs (client : Nat) (w : World) : List Unit := w.log.filterMap (Out.down client)

/-- A call of `connect` goes by way of `via`: the answer is ENETDOWN only where a call of the system has
left that error, the socket is bound to the interface, and its frames go through the interface and list the
repeaters of the path, those of this call and all that follow. -/
structure ReachesBy (client : Nat) (p : Ptr) (via : Via) (w w' : World) : Prop where
  answer : w'.downs client = w.downs client ∨ w'.errno = .enetdown
  bound : ∃ s, w'.heap p = some s ∧ s.iface = some via.iface ∧ s.Carries via.path ∧
    ∀ x ∈ w'.sent.drop w.sent.length, x.1 = via.iface ∧ ∃ cr rest, x.2 = s.addressField cr ++ rest

/-- `connect` refuses the socket for its state. -/
def Sock.Refused (s : Sock) : Prop := s.state = .listening ∨ s.state = .established

instance : Decidable s.Refused := inferInstanceAs (Decidable (_ ∨ _))

/-- What is configured for the route that the socket's own address leads to. -/
def Configured.ownVia (c : Configured) (s : Sock) : Option Via :=
  (connectRoute c.routes s).bind fun route => c.vias route.dest

/-- The route of the socket's own address goes by the interface of `via`, or the socket is refused and bound
to it already, and the socket has the repeaters of `via` already. -/
def Configured.Agrees (c : Configured) (s : Sock) (via : Via) : Prop :=
  (if s.Refused then s.iface else (c.ownVia s).map Via.iface) = some via.iface ∧
    List.Forall₂ Addr.Same s.repeaterList via.path

/-- The interface of the route that is looked up. -/
theorem Configured.Holds.ownVia (h : c.Holds) (s : Sock) :
    (c.ownVia s).map Via.iface = (connectRoute c.routes s).map Route.iface := by
  rw [Configured.ownVia]
  cases hroute : connectRoute c.routes s with
  | none => rfl
  | some route =>
    obtain ⟨key, hkey⟩ : ∃ key, c.routes.lookup key = some route := by
      rw [connectRoute, routeFind_eq, routeDefault] at hroute
      split at hroute
      · exact (Option.or_eq_some_iff.mp hroute).elim (fun h => ⟨_, h⟩) fun h => ⟨_, h.2⟩
      · exact ⟨_, hroute⟩
    obtain ⟨-, via, hvia, hstored⟩ := h key route hkey
    rw [Option.bind_some, hvia, Option.map_some, Option.map_some, hstored.iface]

namespace M

/-- What leaves the sockets and the log alone. -/
abbrev Tacit {α : Type} (m : M α) : Prop := Leaves (fun w => (w.heap, w.log)) m

theorem tacit_unseen : Unseen (fun w => (w.heap, w.log)) fun _ => False :=
  ⟨fun _ _ => rfl, fun _ _ => rfl, fun _ _ h => h.elim, fun _ _ _ => rfl⟩

theorem tacit_dictRoom {κ α : Type} [DecidableEq κ] {d : Dict κ α} {key : κ} : Tacit (dictRoom d key) :=
  tacit_unseen.dictRoom

theorem tacit_getIface : Tacit (getIface i) := leaves_getIface

theorem tacit_ifPromiscAdd {fd : Nat} : Tacit (ifPromiscAdd i fd) :=
  tacit_unseen.ifPromiscAdd fun _ _ => rfl

theorem tacit_sockBindIf : Tacit (sockBindIf s i) :=
  tacit_getIface.bind fun _ => .ite (tacit_ifPromiscAdd.bind fun _ => .pure) .pure

theorem tacit_unlisted : Unlisted fun w => (w.heap, w.log) := fun _ _ _ _ _ _ => rfl

theorem tacit_sockSaveRemote : Tacit (sockSaveRemote p s) := tacit_unlisted.sockSaveRemote tacit_dictRoom

theorem tacit_clientSaveBySock : Tacit (clientSaveBySock client s) :=
  tacit_unlisted.clientSaveBySock tacit_dictRoom

/-- A frame that is sent goes through the interface of the socket and begins with its address field. -/
theorem frameSend_by {cr : FrameCr} {control : Nat} {proto : UInt8} {info : Bytes} (hi : s.iface = some i) :
    wp (frameSend s cr control proto info) (fun _ w' => w'.sent = w.sent ∨
      ∃ rest, w'.sent = w.sent ++ [(i, s.addressField cr ++ rest)]) (fun _ => True) w := by
  rw [frameSend, wp_bind, wp_lift]
  refine ⟨?_, fun _ _ => trivial⟩
  rintro ((_ | e) | frame) h
  · exact .inl rfl
  · exact .inl rfl
  · simp only [hi]
    refine ifSend_sent.post fun _ _ hsent => hsent.imp_right fun hsent => ?_
    rw [hsent, encodeFrame_ok h, Sock.frameHeader, List.append_assoc]
    exact ⟨_, rfl⟩

theorem downs_setErrno {e : Errno} : Leaves (World.downs client) (setErrno e) := hides_setErrno

theorem downs_frameSend {cr : FrameCr} {control : Nat} {proto : UInt8} {info : Bytes} :
    Leaves (World.downs client) (frameSend s cr control proto info) :=
  hides_frameSend (fun _ _ => if_neg nofun) fun _ _ => if_neg nofun

theorem sendXid_by {cr : FrameCr} (hi : s.iface = some i) : wp (sendXid s cr)
    (fun _ w' => (w'.sent = w.sent ∨ ∃ rest, w'.sent = w.sent ++ [(i, s.addressField cr ++ rest)]))
    (fun _ => True) w := by
  rw [sendXid, if_neg (by rw [hi]; exact Bool.false_ne_true)]
  split
  · exact .inl rfl
  · exact frameSend_by hi

theorem downs_sendXid {cr : FrameCr} : Leaves (World.downs client) (sendXid s cr) := by
  refine .ite (downs_setErrno.bind fun _ => .pure) ?_
  cases encodeXid (xidParams s) 256 with
  | none => exact downs_setErrno.bind fun _ => .pure
  | some info => exact downs_frameSend

theorem heap_sendXid {cr : FrameCr} : Leaves World.heap (sendXid s cr) := quiet_sendXid.core.comp (g := Core.heap)

/-- An error is passed on. -/
theorem respondConnect_downs {ret : Int} {e : Errno} : wp (respondConnect client ret e)
    (fun _ w' => w'.downs client = w.downs client ∨ e = .enetdown ∧ w'.errno = w.errno) (fun _ => True) w := by
  by_cases he : e = .enetdown
  · rw [respondConnect, respond, wp_bind, wp_answer]
    refine ⟨fun _ => .inr ⟨he, rfl⟩, fun a as _ => ?_⟩
    cases a with
    | none => exact .inr ⟨he, rfl⟩
    | some e => exact .inl rfl
  · have hother : (Out.respond client (.connect ret e)).down client = none :=
      if_neg fun h => he (Response.connect.inj (Out.respond.inj h).2).2
    exact (hides_respond hother).wp (fun _ _ h => .inl h) fun _ => trivial

/-- The answer ENETDOWN of `connect` itself. -/
theorem respondConnect_down (hsys : w.sys = .allOk) : wp (respondConnect client (-1) .enetdown)
    (fun _ w' => w'.downs client = w.downs client ++ [()] ∧ w'.errno = w.errno) (fun _ => True) w := by
  rw [respondConnect, respond, wp_bind, wp_answer]
  refine ⟨fun _ => ⟨?_, rfl⟩, fun a as has => ?_⟩
  · have hdown : (Out.respond client (.connect (-1) .enetdown)).down client = some () := if_pos rfl
    exact List.filterMap_append.trans
      (congrArg (w.log.filterMap (Out.down client) ++ ·) (List.filterMap_cons_some hdown))
  · rw [hsys] at has
    cases has

theorem respondConnect_still {ret : Int} {e : Errno} : wp (respondConnect client ret e)
    (fun _ w' => w'.heap = w.heap ∧ w'.sent = w.sent) (fun _ => True) w := by
  have hheap : Leaves World.heap (respondConnect client ret e) := quiet_respond.core.comp (g := Core.heap)
  have hsent : Leaves World.sent (respondConnect client ret e) := hides_respond rfl
  exact (hheap.prod hsent).wp (fun _ _ h => Prod.ext_iff.mp h) fun _ => trivial

/-- The socket `s` of `connect` has become `s'`, which is bound to the interface `i`. -/
structure Bound (client : Nat) (p : Ptr) (s : Sock) (i : Nat) (w w' : World) : Prop where
  answer : w'.downs client = w.downs client ∨ w'.errno = .enetdown
  bound : ∃ s', w'.heap p = some s' ∧ s'.iface = some i ∧ s'.repeaterList = s.repeaterList ∧
    (w'.sent = w.sent ∨ ∃ cr rest, w'.sent = w.sent ++ [(i, s'.addressField cr ++ rest)])

theorem Bound.of_log {w₁ : World} {s₁ : Sock} (h : Bound client p s₁ i w₁ w') (hlog : w₁.log = w.log)
    (hs : s₁.repeaterList = s.repeaterList) : Bound client p s i w w' := by
  have hdowns : w₁.downs client = w.downs client := by rw [World.downs, hlog, ← World.downs]
  have hsent : w₁.sent = w.sent := by rw [World.sent, hlog, ← World.sent]
  obtain ⟨answer, s', hp, hi, hlist, hby⟩ := h
  exact ⟨hdowns ▸ answer, s', hp, hi, hlist.trans hs, hsent ▸ hby⟩

theorem bound_of_log {s' : Sock} (hp : w'.heap p = some s') (hi : s'.iface = some i)
    (hs : s'.repeaterList = s.repeaterList) (hlog : w'.log = w.log) : Bound client p s i w w' :=
  Bound.of_log ⟨.inl rfl, s', hp, hi, rfl, .inl rfl⟩ hlog hs

theorem sendXid_still (client : Nat) {cr : FrameCr} : wp (sendXid s cr)
    (fun _ w' => w'.heap = w.heap ∧ w'.downs client = w.downs client) (fun _ => True) w :=
  (heap_sendXid.prod downs_sendXid).wp (fun _ _ h => Prod.ext_iff.mp h) fun _ => trivial

/-- The offer of a STREAM socket. -/
theorem connectOffer_bound (hi : s.iface = some i) (hp : w.heap p = some s) : wp (do
      if (← sendXid s .command) < 0 then respondConnect client (-1) (← get).errno
      else
        store p { s with retries := s.nRetry, timerT1 := s.timerT1.start }
        pure 0 : M Int) (fun _ w' => Bound client p s i w w') (fun _ => True) w := by
  rw [wp_bind]
  refine ((sendXid_by hi).and (sendXid_still client)).post ?_
  rintro r w₁ ⟨hsent, hheap, hdowns⟩
  have hsent' : w₁.sent = w.sent ∨ ∃ cr rest, w₁.sent = w.sent ++ [(i, s.addressField cr ++ rest)] :=
    hsent.imp_right fun ⟨rest, h⟩ => ⟨_, rest, h⟩
  rw [wp_ite]
  refine ⟨fun _ => ?_, fun _ => ⟨.inl hdowns, _, heap_setSock, hi, rfl, hsent'⟩⟩
  rw [wp_bind, wp_get]
  refine (respondConnect_downs.and respondConnect_still).post ?_
  rintro r' w₂ ⟨hdowns₂, hheap₂, hsent₂⟩
  refine ⟨hdowns₂.imp (fun h => h.trans hdowns) fun h => h.2.trans h.1, s, ?_, hi, rfl, ?_⟩
  · exact (congrFun (hheap₂.trans hheap) p).trans hp
  · rw [hsent₂]
    exact hsent'

theorem connectStart_bound (hi : s.iface = some i) (hp : w.heap p = some s) :
    wp (connectStart client p s) (fun _ w' => Bound client p s i w w') (fun _ => True) w := by
  unfold connectStart
  split
  · exact bound_of_log heap_setSock hi rfl rfl
  · rw [wp_bind, wp_store]
    exact (connectOffer_bound (s := { s with state := .pendingConnect }) hi heap_setSock).post
      fun _ _ h => h.of_log rfl rfl
  · exact bound_of_log hp hi rfl rfl

theorem connectVia_bound {peer : Addr} :
    wp (connectVia client p s i peer) (fun _ w' => Bound client p s i w w') (fun _ => True) w := by
  rw [connectVia, wp_bind]
  refine sockBindIf_binds.and (tacit_sockBindIf.wp (fun _ _ h => h) fun _ => trivial) |>.post ?_
  rintro s₁ w₁ ⟨⟨flags, rfl⟩, h₁⟩
  rw [wp_bind]
  refine tacit_getIface.wp (fun iface w₂ h₂ => ?_) fun _ => trivial
  rw [wp_bind, wp_store, wp_bind]
  have hlog : w₂.log = w.log := (Prod.ext_iff.mp h₂).2.trans (Prod.ext_iff.mp h₁).2
  refine tacit_sockSaveRemote.wp (fun ok w₃ h₃ => ?_) fun _ => trivial
  obtain ⟨hheap₃, hlog₃⟩ := Prod.ext_iff.mp h₃
  have hp₃ := (congrFun hheap₃ p).trans heap_setSock
  rw [wp_ite]
  refine ⟨fun _ => ?_, fun _ => bound_of_log hp₃ rfl rfl (hlog₃.trans hlog)⟩
  rw [wp_bind]
  refine tacit_clientSaveBySock.wp (fun ok w₄ h₄ => ?_) fun _ => trivial
  obtain ⟨hheap₄, hlog₄⟩ := Prod.ext_iff.mp h₄
  have hp₄ := (congrFun hheap₄ p).trans hp₃
  have hlog' : w₄.log = w.log := hlog₄.trans (hlog₃.trans hlog)
  rw [wp_ite]
  refine ⟨fun _ => ?_, fun _ => bound_of_log hp₄ rfl rfl hlog'⟩
  exact (connectStart_bound rfl hp₄).post fun _ _ h => h.of_log hlog' rfl

/-- The socket that a request of `connect` is about. -/
structure Asks (w : World) (m : Mem) (p : Ptr) (s : Sock) : Prop where
  fd : w.socksByFd.lookup (ConnectRequest.ofMem m).fd = some p
  heap : w.heap p = some s
  type : s.type = .stream ∨ s.type = .dgram

theorem Asks.run (h : Asks w m p s) : connectRequest client m w =
    (if s.state = .listening then respondConnect client (-1) .einval
     else if s.state = .established then respondConnect client (-1) .eisconn
     else match connectRoute w.routes s with
      | none => respondConnect client (-1) .enetdown
      | some route => connectVia client p s route.iface (ConnectRequest.ofMem m).peer) w := by
  have hraw : s.type ≠ .raw := fun hraw => h.type.elim (fun h => by rw [hraw] at h; cases h)
    fun h => by rw [hraw] at h; cases h
  have hfd : sockByFd (ConnectRequest.ofMem m).fd w = .ok (some p, w) := by rw [sockByFd, gets_run, h.fd]
  rw [connectRequest, bind_ok hfd]
  dsimp only
  rw [bind_ok (deref_ok h.heap), if_neg hraw]
  by_cases hlisten : s.state = .listening
  · rw [if_pos hlisten, if_pos hlisten]
  · rw [if_neg hlisten, if_neg hlisten]
    by_cases hestablished : s.state = .established
    · rw [if_pos hestablished, if_pos hestablished]
    · rw [if_neg hestablished, if_neg hestablished]
      rfl

/-- A refused socket stays as it is. -/
theorem connectRequest_refused (h : Asks w m p s) (hs : s.Refused) : wp (connectRequest client m)
    (fun _ w' => w'.heap = w.heap ∧ w'.sent = w.sent ∧ w'.downs client = w.downs client) (fun _ => True) w := by
  have hstill {e : Errno} (he : e ≠ .enetdown) : wp (respondConnect client (-1) e)
      (fun _ w' => w'.heap = w.heap ∧ w'.sent = w.sent ∧ w'.downs client = w.downs client)
      (fun _ => True) w :=
    (respondConnect_still.and respondConnect_downs).post fun _ _ h' =>
      ⟨h'.1.1, h'.1.2, h'.2.resolve_right fun hdown => he hdown.1⟩
  rw [wp, h.run]
  rcases hs with hs | hs
  · rw [if_pos hs]
    exact hstill (by decide)
  · rw [if_neg (by rw [hs]; decide), if_pos hs]
    exact hstill (by decide)

/-- Without a route the answer is ENETDOWN. -/
theorem connectRequest_down (h : Asks w m p s) (hs : ¬s.Refused) (hroute : connectRoute w.routes s = none) :
    connectRequest client m w = respondConnect client (-1) .enetdown w := by
  rw [h.run, if_neg fun hl => hs (.inl hl), if_neg fun he => hs (.inr he), hroute]

/-- With a route the socket is bound to the interface of the route. -/
theorem connectRequest_bound {route : Route} (h : Asks w m p s) (hs : ¬s.Refused)
    (hroute : connectRoute w.routes s = some route) : wp (connectRequest client m)
    (fun _ w' => Bound client p s route.iface w w') (fun _ => True) w := by
  rw [wp, h.run, if_neg fun hl => hs (.inl hl), if_neg fun he => hs (.inr he), hroute]
  exact connectVia_bound

end M

/-- The same server with other answers of the system to come, and an error left from an earlier call. -/
def World.facing (w : World) (sys : Sys) (errno : Errno) : World := { w with sys, errno }

/-- Whatever the system answers, a call of `connect` goes the way that is configured for the peer. -/
def ReachesPeer (c : Configured) (client : Nat) (m : Mem) (p : Ptr) (w : World) : Prop :=
  ∀ via, c.viaTo (ConnectRequest.ofMem m).peer = some via → ∀ sys errno r w',
    M.connectRequest client m (w.facing sys errno) = .ok (r, w') →
      ReachesBy client p via (w.facing sys errno) w'

theorem M.Bound.reaches (h : M.Bound client p s i w w') (hi : i = via.iface)
    (hpath : List.Forall₂ Addr.Same s.repeaterList via.path) : ReachesBy client p via w w' := by
  obtain ⟨answer, s', hp, hi', hlist, hby⟩ := h
  refine ⟨answer, s', hp, hi'.trans (congrArg some hi), Sock.carries_forall₂.mpr (hlist ▸ hpath), ?_⟩
  rcases hby with hsent | ⟨cr, rest, hsent⟩
  · rw [hsent, List.drop_length]
    exact fun x hx => absurd hx List.not_mem_nil
  · rw [hsent, List.drop_left]
    rintro x (_ | ⟨_, ⟨⟩⟩)
    exact ⟨hi, cr, rest, rfl⟩

/-- A way that agrees is taken, whatever the system answers. -/
theorem Configured.Agrees.reaches (hag : c.Agrees s via) (hc : c.Holds) (hw : w.routes = c.routes)
    (h : M.Asks w m p s) {r : Int} (hrun : M.connectRequest client m w = .ok (r, w')) :
    ReachesBy client p via w w' := by
  obtain ⟨hi, hpath⟩ := hag
  split at hi
  next hs =>
    obtain ⟨hheap, hsent, hdowns⟩ := (M.connectRequest_refused h hs).ok hrun
    refine ⟨.inl hdowns, s, hheap ▸ h.heap, hi, Sock.carries_forall₂.mpr hpath, ?_⟩
    rw [hsent, List.drop_length]
    exact fun x hx => absurd hx List.not_mem_nil
  next hs =>
    rw [hc.ownVia, ← hw, Option.map_eq_some_iff] at hi
    obtain ⟨route, hroute, hi⟩ := hi
    exact ((M.connectRequest_bound h hs hroute).ok hrun).reaches hi hpath

/-- A way that is taken when the system grants everything agrees. -/
theorem Configured.agrees_of_reaches (hc : c.Holds) (hw : w.routes = c.routes) (h : M.Asks w m p s)
    (hsys : w.sys = .allOk) (herrno : w.errno = .zero) {r : Int}
    (hrun : M.connectRequest client m w = .ok (r, w')) (hreach : ReachesBy client p via w w') :
    c.Agrees s via := by
  obtain ⟨hanswer, s', hp', hi', hcarries, -⟩ := hreach
  rw [Sock.carries_forall₂] at hcarries
  rw [Configured.Agrees, hc.ownVia, ← hw]
  split
  next hs =>
    obtain ⟨hheap, -⟩ := (M.connectRequest_refused h hs).ok hrun
    obtain rfl := Option.some.inj ((h.heap.symm.trans (congrFun hheap p).symm).trans hp')
    exact ⟨hi', hcarries⟩
  next hs =>
    cases hroute : connectRoute w.routes s with
    | none =>
      -- the answer ENETDOWN is one that no call of the system has left
      rw [M.connectRequest_down h hs hroute] at hrun
      obtain ⟨hdowns, herr⟩ := (M.respondConnect_down hsys).ok hrun
      rcases hanswer with hsame | hdown
      · rw [hdowns] at hsame
        exact absurd (congrArg List.length hsame) (by simp)
      · rw [herr, herrno] at hdown
        cases hdown
    | some route =>
      obtain ⟨-, s'', hp'', hi'', hlist, -⟩ := (M.connectRequest_bound h hs hroute).ok hrun
      obtain rfl := Option.some.inj (hp'.symm.trans hp'')
      exact ⟨(hi''.symm.trans hi'), hlist ▸ hcarries⟩

/-- For every route table that is configured, every STREAM or DGRAM socket and every peer: `connect` goes
the way that is configured for the peer exactly if the route of the socket's own address (the default route,
if it is not bound or has none) goes by the interface configured for the peer and the socket has the
configured repeaters already; a socket that `connect` refuses has to be on the interface already. -/
theorem reachesPeer_iff (c : Configured) (client : Nat) (m : Mem) (p : Ptr) (s : Sock) (w : World)
    (hconf : Run ConfStep (fun _ _ => True) .none c) (hw : w.routes = c.routes) (h : M.Asks w m p s)
    (hret : ∃ r w', M.connectRequest client m (w.facing .allOk .zero) = .ok (r, w')) :
    ReachesPeer c client m p w ↔
      ∀ via, c.viaTo (ConnectRequest.ofMem m).peer = some via → c.Agrees s via := by
  have hc := holds_run hconf
  have hasks : ∀ sys errno, M.Asks (w.facing sys errno) m p s := fun _ _ => ⟨h.fd, h.heap, h.type⟩
  obtain ⟨r, w', hrun⟩ := hret
  constructor
  · intro hreach via hvia
    exact Configured.agrees_of_reaches (w := w.facing .allOk .zero) hc hw (hasks _ _) rfl rfl hrun
      (hreach via hvia .allOk .zero r w' hrun)
  · intro hag via hvia sys errno r w' hrun
    exact (hag via hvia).reaches hc hw (hasks sys errno) hrun

/-! ## A client that connects -/

/-- A new STREAM socket. -/
def freshStream : Sock := { acceptedSock with state := .closed, iface := none, localAddr := .zero, remote := .zero }

/-- The second interface. -/
def secondIface : Iface := { sampleIface with name := [0x6c] }

/-- A server with two interfaces and the new socket. -/
def World.withRoutes (routes : Dict UInt32 Route) : World :=
  { World.withSock freshStream with
    ifaces := [sampleIface, secondIface], routes, socksByFd := (∅ : Dict Nat Ptr).insert 3 0 }

/-- `route default if k` -/
def defaultConf : RouteConf := ⟨.ofBytes [0x6b] fun _ => 0, none, []⟩

/-- The callsign `BBBBBB`. -/
def callsignB : Bytes := List.replicate 6 0x42

def stationB : Addr := (pton callsignB .zero).getD .zero

/-- `route station BBBBBB if l` -/
def stationConf : RouteConf := ⟨.ofBytes [0x6c] fun _ => 0, some callsignB, []⟩

/-- The request to connect to it. -/
def connectB : Mem := .ofBytes ([3, 0, 0, 0] ++ stationB.toBytes) fun _ => 0

/-- The configuration with a default route. -/
def defaultOnly : Configured :=
  ⟨(∅ : Dict UInt32 Route).insert (hashAddr .zero) (routeTo .zero),
    putNamed Addr.Same (fun _ => none) .zero (some ⟨0, []⟩)⟩

theorem step_default : ConfStep .none defaultConf defaultOnly :=
  ⟨.withRoutes ∅, .withRoutes defaultOnly.routes, true, rfl, rfl, rfl, rfl⟩

theorem asks_freshStream (routes : Dict UInt32 Route) : M.Asks (.withRoutes routes) connectB 0 freshStream :=
  ⟨rfl, rfl, .inl rfl⟩

/-- With a default route only, a new socket reaches its peer. -/
theorem reachesPeer_default : ReachesPeer defaultOnly 5 connectB 0 (.withRoutes defaultOnly.routes) := by
  obtain ⟨w', hw'⟩ := Option.isSome_iff_exists.mp (show ((M.connectRequest 5 connectB).after
    ((World.withRoutes defaultOnly.routes).facing .allOk .zero)).isSome by decide +kernel)
  obtain ⟨r, hret⟩ := Prog.after_eq_some.mp hw'
  refine (reachesPeer_iff defaultOnly 5 connectB 0 freshStream _ (.single trivial step_default) rfl
    (asks_freshStream _) ⟨r, w', hret⟩).mpr fun via hvia => ?_
  have hdefault : defaultOnly.viaTo (ConnectRequest.ofMem connectB).peer = some ⟨0, []⟩ := rfl
  obtain rfl := Option.some.inj (hdefault.symm.trans hvia)
  exact ⟨rfl, .nil⟩

/-- The configuration with a route to the station as well. -/
def stationAndDefault : Configured :=
  ⟨((∅ : Dict UInt32 Route).insert (hashAddr stationB) ⟨1, stationB, fun _ => .zero, 0⟩).insert (hashAddr .zero)
      (routeTo .zero),
    putNamed Addr.Same (putNamed Addr.Same (fun _ => none) stationB (some ⟨1, []⟩)) .zero (some ⟨0, []⟩)⟩

/-- The configuration with the route to the station. -/
def stationOnly : Configured :=
  ⟨(∅ : Dict UInt32 Route).insert (hashAddr stationB) ⟨1, stationB, fun _ => .zero, 0⟩,
    putNamed Addr.Same (fun _ => none) stationB (some ⟨1, []⟩)⟩

theorem step_station : ConfStep .none stationConf stationOnly :=
  ⟨.withRoutes ∅, .withRoutes stationOnly.routes, true, rfl, rfl, rfl, rfl⟩

theorem step_stationDefault : ConfStep stationOnly defaultConf stationAndDefault :=
  ⟨.withRoutes stationOnly.routes, .withRoutes stationAndDefault.routes, true, rfl, rfl, rfl, rfl⟩

/-- A new socket is bound to the interface of the default route, though there is a route to the station by
way of another one. -/
theorem not_reachesPeer_station : Run ConfStep (fun _ _ => True) .none stationAndDefault ∧
    M.Asks (.withRoutes stationAndDefault.routes) connectB 0 freshStream ∧
    ¬ ReachesPeer stationAndDefault 5 connectB 0 (.withRoutes stationAndDefault.routes) := by
  have hconf : Run ConfStep (fun _ _ => True) .none stationAndDefault :=
    .tail (.single trivial step_station) trivial step_stationDefault
  refine ⟨hconf, asks_freshStream _, fun hreach => ?_⟩
  obtain ⟨w', hw'⟩ := Option.isSome_iff_exists.mp (show ((M.connectRequest 5 connectB).after
    ((World.withRoutes stationAndDefault.routes).facing .allOk .zero)).isSome by decide +kernel)
  obtain ⟨r, hrun⟩ := Prog.after_eq_some.mp hw'
  have hag := Configured.agrees_of_reaches (holds_run hconf) rfl (asks_freshStream stationAndDefault.routes) rfl rfl
    hrun (hreach ⟨1, []⟩ rfl .allOk .zero r w' hrun)
  exact absurd hag.1 (by decide)

end Patty
