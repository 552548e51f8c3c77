import Patty.Registry

/-! # The requests and the tables of addresses

What the requests `socket`, `bind`, `listen` and `connect` do to the sockets that are found through their
addresses. A request that would make a second socket of a kind is excluded by what is assumed of it. -/

namespace Patty

open Prog Registry

namespace M

variable {α β : Type} {w w' : World} {p : Ptr} {s : Sock}

theorem Tame.registry {m : M α} (h : Tame m) : Leaves World.registry m := h.core.comp

theorem Quiet.registry {m : M α} (h : Quiet m) : Leaves World.registry m := h.tame.registry

theorem heap_of_registry (h : w'.registry = w.registry) (hp : w.heap p = some s) :
    w'.heap p = some s := (congrFun (congrArg Registry.heap h) p).trans hp

/-- What is registered stays so if `m` leaves the registry alone. -/
theorem registered_leaves {m : M α} (hm : Leaves World.registry m) (h : w.registry.Registered) :
    wp m (fun _ w' => w'.registry.Registered) (fun _ => True) w :=
  hm.wp (fun _ _ hw => hw ▸ h) fun _ => trivial

/-! ## The tables -/

theorem registry_clientSaveBySock {c : Nat} : Leaves World.registry (clientSaveBySock c s) :=
  Leaves.get.bind fun _ => quiet_dictRoom.registry.bind fun _ =>
    .ite ((Leaves.modify (by intro; rfl)).bind fun _ => .pure) .pure

theorem registry_sockSaveByClient {c : Nat} {d : Dict Nat Ptr} :
    Leaves World.registry (sockSaveByClient c d p s) :=
  quiet_dictRoom.registry.bind fun _ =>
    .ite ((Leaves.modify (by intro; rfl)).bind fun _ => .pure) .pure

theorem registry_sockSaveByFd : Leaves World.registry (sockSaveByFd p s) :=
  Leaves.get.bind fun _ => quiet_dictRoom.registry.bind fun _ =>
    .ite ((Leaves.modify (by intro; rfl)).bind fun _ => .pure) .pure

theorem registry_acceptClient {fd : Nat} : Leaves World.registry (acceptClient fd) := by
  have hclose {c : Nat} : Leaves World.registry (do
      closeFd c
      pure (-1) : M Int) := tame_closeFd.registry.bind fun _ => .pure
  refine Leaves.get.bind fun w => ?_
  refine .bind (.modify (by intro; rfl)) fun _ => quiet_alloc.registry.bind fun _ => .ite ?_ hclose
  refine Leaves.get.bind fun w' => quiet_dictRoom.registry.bind fun _ => .ite ?_ hclose
  refine .bind (.modify (by intro; rfl)) fun _ => .ite hclose (Leaves.get.bind fun _ =>
    quiet_dictRoom.registry.bind fun _ => .ite ?_ hclose)
  exact .bind (.modify (by intro; rfl)) fun _ => quiet_fdWatch.registry.bind fun _ => .pure

theorem sockDestroy_registry :
    wp (sockDestroy p) (fun _ w' => w'.registry = w.registry.drop p) (fun _ => True) w := by
  rw [sockDestroy, wp_bind]
  refine quiet_deref.registry.wp (fun s w₁ hw₁ => ?_) fun _ => trivial
  rw [wp_bind]
  refine quiet_leavePromisc.registry.wp (fun _ w₂ hw₂ => ?_) fun _ => trivial
  rw [wp_bind]
  refine tame_closePty.registry.wp (fun _ w₃ hw₃ => ?_) fun _ => trivial
  rw [wp_freeSock]
  refine ⟨fun s _ => ?_, fun _ => trivial⟩
  rw [← hw₁, ← hw₂, ← hw₃]
  rfl

/-- A socket is destroyed, and the call fails. -/
theorem registered_destroy (h : (w.registry.drop p).Registered) : wp (do
    sockDestroy p
    pure (-1) : M Int) (fun _ w' => w'.registry.Registered) (fun _ => True) w := by
  rw [wp_bind]
  exact sockDestroy_registry.post fun _ w' hw => (hw ▸ h : w'.registry.Registered)

/-- The entry for a socket that was put aside. -/
def Entered (p : Ptr) (s : Sock) (ok : Bool) (w : World) : Prop :=
  w.registry.Aside p s ∧ (ok → w.registry.Registered)

theorem sockSaveLocal_entered (h : w.registry.Aside p s) (hs : s.state = .listening) :
    wp (sockSaveLocal p s) (Entered p s) (fun _ => True) w := by
  rw [sockSaveLocal, wp_bind, wp_get, wp_bind]
  refine quiet_dictRoom.registry.wp (fun ok w₁ hw₁ => ?_) fun _ => trivial
  rw [← hw₁] at h
  rw [wp_ite]
  refine ⟨fun _ => ?_, fun _ => ⟨h, fun hok => absurd hok Bool.false_ne_true⟩⟩
  rw [wp_bind, wp_modify, wp_pure]
  have haside := h.insertLocal (h.noListener hs)
  refine ⟨haside, fun _ => haside.registered (fun _ => AList.lookup_insert _) fun hc => ?_⟩
  rw [hs] at hc
  cases hc

/-- The entry for a pair of addresses is made, whether or not the socket belongs to it already. -/
theorem sockSaveRemote_aside (h : w.registry.Aside p s) (hc : w.registry.NoPair p s.pairKey) :
    wp (sockSaveRemote p s) (fun ok w' => w'.registry.Aside p s ∧ w'.registry.NoPair p s.pairKey ∧
      (ok → w'.registry.socksRemote.lookup s.pairKey = some p) ∧
      w'.registry.socksLocal = w.registry.socksLocal) (fun _ => True) w := by
  rw [sockSaveRemote, wp_bind, wp_get, wp_bind]
  refine quiet_dictRoom.registry.wp (fun ok w₁ hw₁ => ?_) fun _ => trivial
  rw [← hw₁] at h hc ⊢
  rw [wp_ite]
  refine ⟨fun _ => ?_, fun _ => ⟨h, hc, fun hok => absurd hok Bool.false_ne_true, rfl⟩⟩
  rw [wp_bind, wp_modify, wp_pure]
  exact ⟨h.insertRemote hc, hc, fun _ => AList.lookup_insert _, rfl⟩

theorem sockSaveRemote_entered (h : w.registry.Aside p s) (hs : s.state.connecting) :
    wp (sockSaveRemote p s) (Entered p s) (fun _ => True) w := by
  refine (sockSaveRemote_aside h (h.noPair hs)).post ?_
  rintro ok w' ⟨haside, -, hlookup, -⟩
  refine ⟨haside, fun hok => haside.registered (fun hl => ?_) fun _ => hlookup hok⟩
  rw [hl] at hs
  cases hs

theorem saveByState_entered (h : w.registry.Aside p s) :
    wp (saveByState p s) (Entered p s) (fun _ => True) w := by
  have hnone (hl : s.state ≠ .listening) (hc : s.state.connecting = false) :
      wp (pure true : M Bool) (Entered p s) (fun _ => True) w :=
    ⟨h, fun _ => h.registered (fun hs => absurd hs hl) fun hs => by rw [hc] at hs; cases hs⟩
  unfold saveByState
  cases hs : s.state with
  | listening => exact sockSaveLocal_entered h hs
  | pendingAccept => exact sockSaveRemote_entered h (by rw [hs]; rfl)
  | pendingConnect => exact sockSaveRemote_entered h (by rw [hs]; rfl)
  | established => exact sockSaveRemote_entered h (by rw [hs]; rfl)
  | pendingDisconnect => exact hnone (by simp [hs]) (by rw [hs]; rfl)
  | closed => exact hnone (by simp [hs]) (by rw [hs]; rfl)
  | promisc => exact hnone (by simp [hs]) (by rw [hs]; rfl)

/-- `sock_save` of a socket that was put aside. -/
theorem sockSave_entered {c : Nat} (h : w.registry.Aside p s) :
    wp (sockSave c p) (Entered p s) (fun _ => True) w := by
  have hfail {w' : World} (hw : w'.registry.Aside p s) :
      wp (pure false : M Bool) (Entered p s) (fun _ => True) w' :=
    ⟨hw, fun hok => absurd hok Bool.false_ne_true⟩
  rw [sockSave, wp_bind]
  refine wp_deref_some h.sock ?_
  rw [wp_bind]
  refine (saveByState_entered h).post ?_
  rintro ok w₁ ⟨haside, hreg⟩
  rw [wp_ite]
  refine ⟨fun hok => ?_, fun _ => hfail haside⟩
  rw [wp_bind]
  refine registry_clientSaveBySock.wp (fun ok' w₂ hw₂ => ?_) fun _ => trivial
  have haside₂ : w₂.registry.Aside p s := hw₂ ▸ haside
  have hreg₂ : w₂.registry.Registered := hw₂ ▸ hreg hok
  rw [wp_ite]
  refine ⟨fun _ => ?_, fun _ => hfail haside₂⟩
  rw [wp_bind, wp_get]
  cases w₂.socksByClient.lookup c with
  | none => exact hfail haside₂
  | some d =>
    rw [wp_bind]
    refine registry_sockSaveByClient.wp (fun ok' w₃ hw₃ => ?_) fun _ => trivial
    have haside₃ : w₃.registry.Aside p s := hw₃ ▸ haside₂
    rw [wp_ite]
    refine ⟨fun _ => ?_, fun _ => hfail haside₃⟩
    refine registry_sockSaveByFd.wp (fun ok' w₄ hw₄ => ?_) fun _ => trivial
    exact ⟨hw₄ ▸ haside₃, fun _ => hw₄ ▸ hw₃ ▸ hreg₂⟩

/-! ## A new socket -/

/-- A new STREAM socket is closed and has no addresses. -/
structure NewSock (w : World) (p : Ptr) (s : Sock) (w' : World) : Prop where
  registered : w'.registry.Registered
  sock : w'.heap p = some s
  place : ∃ fd, s.place = newPlace .stream fd
  old : ∀ q t, q ≠ p → w'.heap q = some t → w.heap q = some t

theorem sockNew_registered {proto : Nat} (h : w.registry.Registered) : wp (sockNew proto .stream)
    (fun r w' => match r with
      | none => w'.registry.Registered
      | some p => ∃ s, NewSock w p s w') (fun _ => True) w := by
  refine sockNew_new.post fun r w' hnew => ?_
  cases r with
  | none =>
    have hreg : w'.registry = w.registry := congrArg Core.registry hnew
    show w'.registry.Registered
    rw [hreg]
    exact h
  | some p =>
    obtain ⟨rfl, s, fd, hs, -, hcore⟩ := hnew
    have hreg : w'.registry = { w.registry with
        heap := Function.update w.heap w.next (some s), next := w.next + 1 } :=
      congrArg Core.registry hcore
    have hheap : w'.heap = Function.update w.heap w.next (some s) := congrArg Registry.heap hreg
    have hplace := Place.mk.inj hs
    refine ⟨s, ?_, ?_, ⟨fd, hs⟩, fun q t hq ht => ?_⟩
    · rw [hreg]
      refine h.grow hplace.1 ?_ ?_
      · rw [hplace.2.1]
        decide
      · rw [hplace.2.1]
        rfl
    · rw [hheap]
      exact Function.update_self ..
    · rw [hheap] at ht
      exact (Function.update_of_ne hq ..).symm.trans ht

/-! ## The requests -/

/-- The outcome of a request: a result that ends the run may leave a socket without its entry. -/
def Settled (r : Int) (w : World) : Prop :=
  w.registry.AtMostOne ∧ (0 ≤ r → w.registry.Registered)

theorem Settled.of_registered {r : Int} (h : w.registry.Registered) : Settled r w :=
  ⟨h.atMostOne, fun _ => h⟩

theorem settled_of_registered {m : M Int}
    (h : wp m (fun _ w' => w'.registry.Registered) (fun _ => True) w) :
    wp m Settled (fun _ => True) w := h.post fun _ _ hw => .of_registered hw

theorem settled_leaves {m : M Int} (hm : Leaves World.registry m) (h : w.registry.Registered) :
    wp m Settled (fun _ => True) w := settled_of_registered (registered_leaves hm h)

/-- A socket that keeps its place is stored. -/
theorem registered_setSock {s' : Sock} (h : w.registry.Registered) (hp : w.heap p = some s)
    (hs : Stays s s') : (w.setSock p s').registry.Registered := h.store hp hs

/-- A request that fails ends the run. -/
theorem settled_fail (h : w.registry.AtMostOne) : Settled (-1) w := ⟨h, fun hr => by omega⟩

theorem socketRequest_settled {c : Nat} {m : Mem} (hm : (SocketRequest.ofMem m).type = 0)
    (h : w.registry.Registered) : wp (socketRequest c m) Settled (fun _ => True) w := by
  rw [socketRequest, hm, wp_bind]
  refine (sockNew_registered h).post fun r w₁ hnew => ?_
  cases r with
  | none => exact .of_registered hnew
  | some p =>
    obtain ⟨s, hnew⟩ := hnew
    have haside : w₁.registry.Aside p s := hnew.registered.aside_self hnew.sock
    dsimp only
    rw [wp_bind]
    refine (sockSave_entered haside).post ?_
    rintro ok w₂ ⟨haside₂, hreg₂⟩
    rw [wp_ite]
    refine ⟨fun hok => ?_, fun _ => ?_⟩
    · exact settled_leaves (quiet_deref.registry.bind fun _ => quiet_respond.registry) (hreg₂ hok)
    · exact settled_of_registered (registered_destroy haside₂.rest)

theorem bindRequest_settled {c : Nat} {m : Mem} (h : w.registry.Registered)
    (hno : ∀ p s, w.socksByFd.lookup (BindRequest.ofMem m).fd = some p → w.heap p = some s →
      ¬s.localAddr.isSet → ¬s.state.connecting) :
    wp (bindRequest c m) Settled (fun _ => True) w := by
  rw [bindRequest, wp_bind, wp_sockByFd]
  cases hfd : w.socksByFd.lookup (BindRequest.ofMem m).fd with
  | none => exact settled_leaves quiet_respond.registry h
  | some p =>
    dsimp only
    rw [wp_bind, wp_deref]
    refine ⟨fun s hp => ?_, fun _ => trivial⟩
    rw [wp_ite]
    refine ⟨fun _ => settled_leaves quiet_respond.registry h, fun hunset => ?_⟩
    rw [wp_bind, wp_sockByAddr]
    split
    · exact settled_leaves quiet_respond.registry h
    · rw [wp_bind, wp_store]
      refine settled_leaves quiet_respond.registry (registered_setSock h hp ⟨rfl, fun hl => ?_, fun hc => ?_⟩)
      · exact absurd (h.bound p s hp hl) hunset
      · exact absurd hc (hno p s hfd hp hunset)

theorem listenRequest_settled {c : Nat} {m : Mem} (h : w.registry.Registered)
    (hno : ∀ p s, w.socksByFd.lookup (leValue (m.read 0 4)) = some p → w.heap p = some s →
      s.localAddr.isSet → w.registry.NoListener p s.localKey) :
    wp (listenRequest c m) Settled (fun _ => True) w := by
  rw [listenRequest, wp_bind, wp_sockByFd]
  cases hfd : w.socksByFd.lookup (leValue (m.read 0 4)) with
  | none => exact settled_leaves quiet_respond.registry h
  | some p =>
    dsimp only
    rw [wp_bind, wp_deref]
    refine ⟨fun s hp => ?_, fun _ => trivial⟩
    rw [wp_ite]
    refine ⟨fun _ => settled_leaves (quiet_junk.registry.bind fun _ => quiet_respond.registry) h,
      fun hset => ?_⟩
    have hset : s.localAddr.isSet := by simpa using hset
    rw [wp_bind, wp_store, wp_bind]
    have haside : (w.setSock p { s with state := .listening }).registry.Aside p
        { s with state := .listening } :=
      h.aside hp rfl (fun _ => hset) (fun _ => hno p s hfd hp hset) fun hc => by cases hc
    refine (sockSaveLocal_entered haside rfl).post ?_
    rintro ok w₁ ⟨haside₁, hreg₁⟩
    rw [wp_ite]
    refine ⟨fun hok => ?_, fun _ => settled_fail haside₁.atMostOne⟩
    exact settled_leaves quiet_respond.registry (hreg₁ hok)

/-- The socket waits for its connection, once its entry is made. -/
theorem connectStart_registered {c : Nat} (h : w.registry.Aside p s)
    (hc : w.registry.NoPair p s.pairKey)
    (hlookup : w.registry.socksRemote.lookup s.pairKey = some p) :
    wp (connectStart c p s) (fun _ w' => w'.registry.Registered) (fun _ => True) w := by
  have hreg : (w.setSock p { s with state := .pendingConnect }).registry.Registered := by
    refine (Aside.of_drop (s := { s with state := .pendingConnect }) h.rest h.lt h.stream
      (fun hs => by cases hs) (fun hs => by cases hs) fun _ => hc).registered
        (fun hs => by cases hs) fun _ => hlookup
  have hstream : wp (do
      let s := { s with state := .pendingConnect }
      store p s
      if (← sendXid s .command) < 0 then respondConnect c (-1) (← get).errno
      else
        store p { s with retries := s.nRetry, timerT1 := s.timerT1.start }
        pure 0 : M Int) (fun _ w' => w'.registry.Registered) (fun _ => True) w := by
    rw [wp_bind, wp_store, wp_bind]
    refine quiet_sendXid.registry.wp (fun r w₁ hw₁ => ?_) fun _ => trivial
    have hreg₁ : w₁.registry.Registered := hw₁ ▸ hreg
    have hp₁ : w₁.heap p = some { s with state := .pendingConnect } :=
      heap_of_registry hw₁ heap_setSock
    rw [wp_ite]
    refine ⟨fun _ => ?_, fun _ => ?_⟩
    · exact registered_leaves (Leaves.get.bind fun _ => quiet_respond.registry) hreg₁
    · exact registered_setSock hreg₁ hp₁ (.of_place rfl)
  unfold connectStart
  split
  · exact absurd (h.stream.symm.trans ‹s.type = .dgram›) (by decide)
  · exact hstream
  · exact absurd h.stream ‹s.type = .stream → False›

/-- The addresses of the interfaces. -/
def ifaceAddrs (w : World) : List Addr := w.ifaces.map (·.addr)

theorem ifaceAddrs_unseen : Unseen ifaceAddrs fun _ => True where
  errno _ _ := rfl
  sys _ _ := rfl
  log _ _ _ := rfl
  stats w i _ := map_modify_same Iface.addr (fun _ => by rfl) w.ifaces i

theorem ifaceAddrs_sockBindIf {i : Nat} : Leaves ifaceAddrs (sockBindIf s i) := by
  have hadd : Leaves ifaceAddrs (ifPromiscAdd i s.fd) := by
    refine ifaceAddrs_unseen.ifPromiscAdd fun w room => map_modify_same Iface.addr (fun iface => ?_) w.ifaces i
    rw [Iface.promiscAdd]
    split <;> rfl
  exact leaves_getIface.bind fun iface => .ite (hadd.bind fun _ => .pure) .pure

theorem connectVia_settled {c i : Nat} {peer : Addr} (h : w.registry.Registered)
    (hp : w.heap p = some s) (hl : s.state ≠ .listening)
    (hno : ∀ iface, w.ifaces[i]? = some iface → w.registry.NoPair p
      (hashAddrpair (if s.localAddr.isSet then s.localAddr else iface.addr) peer)) :
    wp (connectVia c p s i peer) Settled (fun _ => True) w := by
  rw [connectVia, wp_bind]
  refine wp_intro fun s₁ w₁ hrun => ?_
  have hplace := Place.mk.inj (sockBindIf_place.ok hrun)
  have hw₁ : w₁.registry = w.registry := quiet_sockBindIf.registry _ _ _ hrun
  rw [wp_bind, wp_getIface]
  refine ⟨fun iface hiface => ?_, fun _ => trivial⟩
  have hno₁ : w₁.registry.NoPair p
      (hashAddrpair (if s₁.localAddr.isSet then s₁.localAddr else iface.addr) peer) := by
    have haddrs := congrArg (·[i]?) (ifaceAddrs_sockBindIf _ _ _ hrun)
    simp only [ifaceAddrs, List.getElem?_map, hiface, Option.map_some] at haddrs
    obtain ⟨iface', hiface', heq⟩ := Option.map_eq_some_iff.mp haddrs.symm
    rw [hw₁, hplace.2.2.2.1, ← heq]
    exact hno iface' hiface'
  rw [← hw₁] at h
  rw [wp_bind, wp_store, wp_bind]
  have haside : (w₁.registry.store p { s₁ with
      localAddr := if s₁.localAddr.isSet then s₁.localAddr else iface.addr, remote := peer }).Aside p { s₁ with
      localAddr := if s₁.localAddr.isSet then s₁.localAddr else iface.addr, remote := peer } := h.aside
    (heap_of_registry hw₁ hp) hplace.1 (fun hs => absurd (hplace.2.1.symm.trans hs) hl)
    (fun hs => absurd (hplace.2.1.symm.trans hs) hl) fun _ => hno₁
  refine (sockSaveRemote_aside (w := w₁.setSock p _) haside hno₁.store).post ?_
  rintro ok w₂ ⟨haside₂, hno₂, hlookup, -⟩
  rw [wp_ite]
  refine ⟨fun hok => ?_, fun _ => settled_fail haside₂.atMostOne⟩
  rw [wp_bind]
  refine registry_clientSaveBySock.wp (fun ok' w₃ hw₃ => ?_) fun _ => trivial
  rw [← hw₃] at haside₂ hno₂ hlookup
  rw [wp_ite]
  refine ⟨fun _ => ?_, fun _ => settled_fail haside₂.atMostOne⟩
  exact settled_of_registered (connectStart_registered haside₂ hno₂ (hlookup hok))

theorem connectRequest_settled {c : Nat} {m : Mem} (h : w.registry.Registered)
    (hno : ∀ p s route iface, w.socksByFd.lookup (ConnectRequest.ofMem m).fd = some p →
      w.heap p = some s → s.state ≠ .listening → s.state ≠ .established →
      connectRoute w.routes s = some route → w.ifaces[route.iface]? = some iface →
      w.registry.NoPair p (hashAddrpair (if s.localAddr.isSet then s.localAddr else iface.addr)
        (ConnectRequest.ofMem m).peer)) :
    wp (connectRequest c m) Settled (fun _ => True) w := by
  rw [connectRequest, wp_bind, wp_sockByFd]
  cases hfd : w.socksByFd.lookup (ConnectRequest.ofMem m).fd with
  | none => exact settled_leaves quiet_respond.registry h
  | some p =>
    dsimp only
    rw [wp_bind, wp_deref]
    refine ⟨fun s hp => ?_, fun _ => trivial⟩
    have hrefuse {e : Errno} : wp (respondConnect c (-1) e) Settled (fun _ => True) w :=
      settled_leaves quiet_respond.registry h
    rw [wp_ite, wp_ite, wp_ite]
    refine ⟨fun _ => hrefuse, fun _ => ⟨fun _ => hrefuse, fun hl => ⟨fun _ => hrefuse, fun he => ?_⟩⟩⟩
    rw [wp_bind, wp_get]
    cases hroute : connectRoute w.routes s with
    | none => exact hrefuse
    | some route =>
      exact connectVia_settled h hp hl fun iface hiface =>
        hno p s route iface hfd hp hl he hroute hiface

end M

end Patty
