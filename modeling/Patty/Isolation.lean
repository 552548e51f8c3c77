import Patty.Upkeep.Handle

/-! # A frame is for one socket only

`Apart` says of a socket that no other one has its descriptor, and that it and its entries in the tables are
as they were. A frame for another socket keeps it (`handleFrame_isolated`). -/

namespace Patty

open Prog

/-- The entry of the descriptor `fd` in the dictionary of the client `c`. -/
def World.clientSock (w : World) (c fd : Nat) : Option Ptr :=
  (w.socksByClient.lookup c).bind fun socks => socks.lookup fd

/-- What the kernel and the allocator grant the socket at `q`: its descriptor is open and no other socket
has it, and `q` is not given out again. -/
structure Distinct (w : World) (q : Ptr) (t : Sock) : Prop where
  heap : w.heap q = some t
  old : q < w.next
  opened : t.fd ∈ w.fds
  others : ∀ p s, w.heap p = some s → p ≠ q → s.fd ≠ t.fd

/-- The socket at `q`, as it was in `w₀`, with its entries in the tables. -/
structure Apart (w₀ : World) (q : Ptr) (t : Sock) (w : World) : Prop extends Distinct w q t where
  byFd : w.socksByFd.lookup t.fd = w₀.socksByFd.lookup t.fd
  owner : w.clientsBySock.lookup t.fd = w₀.clientsBySock.lookup t.fd
  byClient : ∀ c, w.clientSock c t.fd = w₀.clientSock c t.fd

theorem Distinct.apart {w : World} {q : Ptr} {t : Sock} (h : Distinct w q t) : Apart w q t w :=
  ⟨h, rfl, rfl, fun _ => rfl⟩

/-- A descriptor that is not open. -/
theorem M.freshFd_not_mem (fds : List Nat) (fd : Nat) : freshFd fds fd ∉ fds := by
  have hle (l : List Nat) (n : Nat) : n ≤ l.foldl max n ∧ ∀ a ∈ l, a ≤ l.foldl max n := by
    induction l generalizing n with
    | nil => exact ⟨le_rfl, fun _ h => nomatch h⟩
    | cons b l ih =>
      obtain ⟨hn, hl⟩ := ih (max n b)
      refine ⟨(le_max_left n b).trans hn, fun a ha => ?_⟩
      rcases List.mem_cons.mp ha with rfl | ha
      · exact (le_max_right n a).trans hn
      · exact hl a ha
  unfold freshFd
  split
  · exact fun h => absurd ((hle fds 0).2 _ h) (by omega)
  · assumption

namespace Apart

variable {w₀ w w' : World} {q p : Ptr} {t s : Sock}

/-- The entries of the socket are as before. -/
theorem entries (h : Apart w₀ q t w) (hsocks : (w'.heap, w'.next, w'.fds) = (w.heap, w.next, w.fds))
    (hbyFd : w'.socksByFd.lookup t.fd = w.socksByFd.lookup t.fd)
    (howner : w'.clientsBySock.lookup t.fd = w.clientsBySock.lookup t.fd)
    (hclient : ∀ c, w'.clientSock c t.fd = w.clientSock c t.fd) : Apart w₀ q t w' := by
  obtain ⟨hheap, hsocks⟩ := Prod.mk.inj hsocks
  obtain ⟨hnext, hfds⟩ := Prod.mk.inj hsocks
  exact ⟨⟨hheap ▸ h.heap, hnext ▸ h.old, hfds ▸ h.opened, hheap ▸ h.others⟩, hbyFd.trans h.byFd,
    howner.trans h.owner, fun c => (hclient c).trans (h.byClient c)⟩

/-- The sockets and the tables are as before, and nothing that was open is closed. -/
theorem congr (h : Apart w₀ q t w) (hcore : w'.core = w.core) (hfds : t.fd ∈ w'.fds) : Apart w₀ q t w' := by
  have hheap : w'.heap = w.heap := congrArg Core.heap hcore
  have hnext : w'.next = w.next := congrArg Core.next hcore
  have hclient : w'.socksByClient = w.socksByClient := congrArg Core.socksByClient hcore
  refine ⟨⟨hheap ▸ h.heap, hnext ▸ h.old, hfds, hheap ▸ h.others⟩, ?_, ?_, fun c => ?_⟩
  · rw [show w'.socksByFd = w.socksByFd from congrArg Core.socksByFd hcore]
    exact h.byFd
  · rw [show w'.clientsBySock = w.clientsBySock from congrArg Core.clientsBySock hcore]
    exact h.owner
  · rw [World.clientSock, hclient]
    exact h.byClient c

/-- Another socket is stored. -/
theorem setSock (h : Apart w₀ q t w) (hp : p ≠ q) (hs : s.fd ≠ t.fd) : Apart w₀ q t (w.setSock p s) := by
  refine ⟨⟨(Function.update_of_ne hp.symm ..).trans h.heap, h.old, h.opened, fun p' s' hp' hne => ?_⟩,
    h.byFd, h.owner, h.byClient⟩
  by_cases he : p' = p
  · subst he
    rw [M.heap_setSock] at hp'
    cases hp'
    exact hs
  · exact h.others p' s' ((Function.update_of_ne he ..).symm.trans hp') hne

/-- Another socket is freed. -/
theorem free (h : Apart w₀ q t w) (hp : p ≠ q) :
    Apart w₀ q t { w with heap := Function.update w.heap p none } := by
  refine ⟨⟨(Function.update_of_ne hp.symm ..).trans h.heap, h.old, h.opened, fun p' s' hp' hne => ?_⟩,
    h.byFd, h.owner, h.byClient⟩
  have hp' : Function.update w.heap p none p' = some s' := hp'
  by_cases he : p' = p
  · rw [he, Function.update_self] at hp'
    cases hp'
  · exact h.others p' s' ((Function.update_of_ne he ..).symm.trans hp') hne

/-- The dictionary of a client changes elsewhere. -/
theorem setClient (h : Apart w₀ q t w) {c : Nat} {socks socks' : Dict Nat Ptr}
    (hc : w.socksByClient.lookup c = some socks) (hsame : socks'.lookup t.fd = socks.lookup t.fd) :
    Apart w₀ q t { w with socksByClient := w.socksByClient.insert c socks' } := by
  refine h.entries rfl rfl rfl fun c' => ?_
  by_cases he : c' = c
  · subst he
    simp only [World.clientSock, AList.lookup_insert, hc, Option.bind_some, hsame]
  · simp only [World.clientSock, AList.lookup_insert_ne he]

end Apart

namespace M

variable {α : Type} {w₀ w : World} {q p : Ptr} {t s : Sock} {fd : Nat}

theorem Quiet.apart {m : M α} (h : Quiet m) : Keeping (Apart w₀ q t) m := by
  refine .of_leaves h fun w w' hw ha => ?_
  obtain ⟨hcore, hw⟩ := Prod.mk.inj hw
  obtain ⟨hfds, -⟩ := Prod.mk.inj hw
  exact ha.congr (Prod.mk.inj hcore).1 (hfds ▸ ha.opened)

theorem apart_closeFd (hfd : fd ≠ t.fd) : Keeping (Apart w₀ q t) (closeFd fd) := fun _ hw =>
  hw.congr rfl ((List.mem_erase_of_ne hfd.symm).mpr hw.opened)

theorem apart_notifyAccept {a b : Nat} {peer : Addr} {path : Bytes} :
    Keeping (Apart w₀ q t) (notifyAccept a b peer path) := by
  refine (quiet_answer.apart).bind fun a => ?_
  cases a with
  | none => exact Keeps.bind (Keeps.modify fun _ hw => hw.congr rfl hw.opened) fun _ => .pure
  | some e => exact quiet_setErrno.apart.bind fun _ => .pure

/-! ## New sockets -/

theorem apart_openpty (hw : Apart w₀ q t w) :
    wp openpty (fun a w' => Apart w₀ q t w' ∧ ∀ x ∈ a, x.1 ≠ t.fd) (fun _ => True) w := by
  rw [openpty, wp_bind]
  refine (quiet_answer.apart w hw).post fun a w₁ hw₁ => ?_
  cases a with
  | none => exact ⟨hw₁, fun _ h => nomatch h⟩
  | some a =>
    refine ⟨hw₁.congr rfl (List.mem_cons_of_mem _ hw₁.opened), ?_⟩
    rintro _ ⟨⟩ (h : freshFd w₁.fds a.1 = t.fd)
    exact freshFd_not_mem w₁.fds a.1 (h ▸ hw₁.opened)

theorem apart_newSock (hs : s.fd ≠ t.fd) (hw : Apart w₀ q t w) :
    wp (some <$> newSock s) (fun r w' => Apart w₀ q t w' ∧ ∀ p ∈ r, p ≠ q) (fun _ => True) w := by
  have hne : w.next ≠ q := hw.old.ne'
  have hset := hw.setSock hne hs
  rw [wp_map, wp_newSock]
  refine ⟨⟨⟨hset.heap, Nat.lt_succ_of_lt hset.old, hset.opened, hset.others⟩, hset.byFd, hset.owner,
    hset.byClient⟩, ?_⟩
  rintro p ⟨⟩
  exact hne

/-- A new socket has another descriptor and another place in memory. -/
theorem apart_sockNew {proto : Nat} {type : SockType} (hw : Apart w₀ q t w) :
    wp (sockNew proto type) (fun r w' => Apart w₀ q t w' ∧ ∀ p ∈ r, p ≠ q) (fun _ => True) w := by
  have hnone {w : World} (hw : Apart w₀ q t w) :
      Apart w₀ q t w ∧ ∀ p ∈ (none : Option Ptr), p ≠ q := ⟨hw, fun p hp => absurd hp (Option.not_mem_none p)⟩
  rw [sockNew, wp_bind]
  refine (quiet_alloc.apart w hw).post fun ok w₁ hw₁ => ?_
  rw [wp_ite]
  refine ⟨fun _ => ?_, fun _ => hnone hw₁⟩
  rw [wp_bind]
  refine (apart_openpty hw₁).post ?_
  rintro (_ | ⟨fd, pty⟩) w₂ ⟨hw₂, hfd⟩
  · exact hnone hw₂
  have hfd : fd ≠ t.fd := hfd _ rfl
  have hinit {s₀ : Sock} (hs₀ : s₀.fd = fd) : wp
      (initBufs s₀ >>= fun r => if r.1 then some <$> newSock r.2 else pure none : M (Option Ptr))
      (fun r w' => Apart w₀ q t w' ∧ ∀ p ∈ r, p ≠ q) (fun _ => True) w₂ := by
    rw [wp_bind]
    refine ((quiet_initBufs.apart w₂ hw₂).and initBufs_place).post ?_
    rintro ⟨ok, s⟩ w₃ ⟨hw₃, hplace⟩
    dsimp only
    rw [wp_ite]
    have hs : s.fd = fd := (congrArg Place.fd hplace).trans hs₀
    exact ⟨fun _ => apart_newSock (hs.trans_ne hfd) hw₃, fun _ => hnone hw₃⟩
  cases type with
  | dgram => exact apart_newSock hfd hw₂
  | raw =>
    have hclose {w : World} (hw : Apart w₀ q t w) : wp (do
        closeFd fd
        pure none : M (Option Ptr)) (fun r w' => Apart w₀ q t w' ∧ ∀ p ∈ r, p ≠ q) (fun _ => True) w :=
      wp_bind.mpr ((apart_closeFd hfd w hw).post fun _ _ h => hnone h)
    refine wp_bind.mpr ((quiet_alloc.apart w₂ hw₂).post fun ok₁ w₃ hw₃ => ?_)
    rw [wp_ite]
    refine ⟨fun _ => ?_, fun _ => hclose hw₃⟩
    refine wp_bind.mpr ((quiet_alloc.apart w₃ hw₃).post fun ok₂ w₄ hw₄ => ?_)
    rw [wp_ite]
    refine ⟨fun _ => ?_, fun _ => hclose hw₄⟩
    exact wp_bind.mpr ((quiet_junk.apart w₄ hw₄).post fun m w₅ hw₅ => apart_newSock hfd hw₅)
  | stream => exact hinit rfl
  | other n => exact hinit rfl

/-! ## The tables -/

theorem apart_deref {g : Sock → M α} (hp : p ≠ q)
    (hg : ∀ s, s.fd ≠ t.fd → Keeping (Apart w₀ q t) (g s)) : Keeping (Apart w₀ q t) (deref p >>= g) := by
  intro w hw
  rw [wp_bind, wp_deref]
  exact ⟨fun s hs => hg s (hw.others p s hs hp) w hw, fun _ => trivial⟩

theorem apart_saveByState : Keeping (Apart w₀ q t) (saveByState p s) := by
  have hlocal : Keeping (Apart w₀ q t) (sockSaveLocal p s) := .get_bind fun _ _ =>
    quiet_dictRoom.apart.bind fun _ => .ite (fun _ => Keeps.bind
      (Keeps.modify fun _ hw => hw.entries rfl rfl rfl fun _ => rfl) fun _ => .pure)
      fun _ => .pure
  have hremote : Keeping (Apart w₀ q t) (sockSaveRemote p s) := .get_bind fun _ _ =>
    quiet_dictRoom.apart.bind fun _ => .ite (fun _ => Keeps.bind
      (Keeps.modify fun _ hw => hw.entries rfl rfl rfl fun _ => rfl) fun _ => .pure)
      fun _ => .pure
  unfold saveByState
  cases s.state with
  | listening => exact hlocal
  | pendingAccept | pendingConnect | established => exact hremote
  | pendingDisconnect | closed | promisc => exact .pure

theorem apart_deleteByState : Keeping (Apart w₀ q t) (deleteByState s) := by
  have hlocal : Keeping (Apart w₀ q t) (sockDeleteLocal s) := .get_bind fun _ _ => .ite (fun _ =>
    Keeps.bind (Keeps.modify fun _ hw => hw.entries rfl rfl rfl fun _ => rfl) fun _ => .pure)
    fun _ => .pure
  have hremote : Keeping (Apart w₀ q t) (sockDeleteRemote s) := .get_bind fun _ _ => .ite (fun _ =>
    Keeps.bind (Keeps.modify fun _ hw => hw.entries rfl rfl rfl fun _ => rfl) fun _ => .pure)
    fun _ => .pure
  unfold deleteByState
  cases s.state with
  | listening => exact hlocal
  | pendingAccept | pendingConnect | pendingDisconnect | established => exact hremote
  | closed | promisc => exact .pure

/-- Saving another socket makes entries under its own descriptor only. -/
theorem apart_sockSave {c : Nat} (hp : p ≠ q) : Keeping (Apart w₀ q t) (sockSave c p) := by
  refine apart_deref hp fun s hs => apart_saveByState.bind fun _ => .ite (fun _ => ?_) fun _ => .pure
  have hclient : Keeping (Apart w₀ q t) (clientSaveBySock c s) := by
    refine .get_bind fun _ _ => quiet_dictRoom.apart.bind fun _ => .ite (fun _ => ?_) fun _ => .pure
    exact Keeps.bind (Keeps.modify fun _ hw => hw.entries rfl rfl (AList.lookup_insert_ne hs.symm)
      fun _ => rfl) fun _ => .pure
  have hfd : Keeping (Apart w₀ q t) (sockSaveByFd p s) := by
    refine .get_bind fun _ _ => quiet_dictRoom.apart.bind fun _ => .ite (fun _ => ?_) fun _ => .pure
    exact Keeps.bind (Keeps.modify fun _ hw => hw.entries rfl (AList.lookup_insert_ne hs.symm) rfl
      fun _ => rfl) fun _ => .pure
  refine hclient.bind fun _ => .ite (fun _ w hw => ?_) fun _ => .pure
  rw [wp_bind, wp_get]
  cases hc : w.socksByClient.lookup c with
  | none => exact hw
  | some socks =>
    dsimp only
    rw [wp_bind, sockSaveByClient, wp_bind]
    refine wp_intro fun ok w₁ h₁ => ?_
    have hw₁ := (quiet_dictRoom.apart w hw).ok h₁
    have hc₁ : w₁.socksByClient.lookup c = some socks := by
      rw [show w₁.socksByClient = w.socksByClient from
        congrArg Core.socksByClient (quiet_dictRoom.core _ _ _ h₁)]
      exact hc
    rw [wp_ite]
    refine ⟨fun _ => ?_, fun _ => hw₁⟩
    rw [wp_bind, wp_modify]
    exact hfd _ (hw₁.setClient hc₁ (AList.lookup_insert_ne hs.symm))

theorem apart_sockDestroy (hp : p ≠ q) : Keeping (Apart w₀ q t) (sockDestroy p) := by
  refine apart_deref hp fun s hs => quiet_leavePromisc.apart.bind fun _ => ?_
  have hclose : Keeping (Apart w₀ q t) (closePty s) := .ite (fun _ => apart_closeFd hs) fun _ => .pure
  refine hclose.bind fun _ => ?_
  intro w hw
  rw [wp_freeSock]
  exact ⟨fun _ _ => hw.free hp, fun _ => trivial⟩

/-- Closing another socket deletes the entries of its own descriptor only. -/
theorem apart_sockClose (hp : p ≠ q) : Keeping (Apart w₀ q t) (sockClose p) := by
  refine apart_deref hp fun s hs => apart_deleteByState.bind fun _ => .ite (fun _ => ?_) fun _ => .pure
  refine Keeps.gets.bind fun c => ?_
  cases c with
  | none => exact .pure
  | some c =>
    intro w hw
    rw [wp_bind, wp_get]
    cases hc : w.socksByClient.lookup c with
    | none => exact hw
    | some socks =>
      dsimp only
      rw [sockCloseFd, wp_ite]
      refine ⟨fun _ => ?_, fun _ => hw⟩
      have hw₁ := hw.setClient hc (AList.lookup_erase_ne hs.symm : (socks.erase s.fd).lookup t.fd = _)
      rw [wp_bind, wp_modify, wp_bind, wp_get, wp_ite]
      refine ⟨fun _ => ?_, fun _ => hw₁⟩
      rw [wp_bind, wp_modify]
      refine (quiet_fdClear.apart.bind fun _ => (apart_sockDestroy hp).bind fun _ => .pure) _ ?_
      exact hw₁.entries rfl (AList.lookup_erase_ne hs.symm) (AList.lookup_erase_ne hs.symm) fun _ => rfl

/-! ## Any frame -/

/-- What keeps a socket apart is kept by the handlers that deal with other sockets. -/
theorem apart_upkeep : Upkeep (Apart w₀ q t) (fun p s => p ≠ q → s.fd ≠ t.fd) (· ≠ q) where
  good hw hp hne := hw.others _ _ hp hne
  moves hs hm hne := hm.fd.trans_ne (hs hne)
  quiet h := h.apart
  store hp hs := fun _ hw => hw.setSock hp (hs hp)
  sockNew := apart_sockNew
  sockSave := apart_sockSave
  sockDestroy := apart_sockDestroy
  sockClose := apart_sockClose

theorem apart_canLoose (hp : p ≠ q) :
    CanLoose (Apart w₀ q t) (fun p s => p ≠ q → s.fd ≠ t.fd) (· ≠ q) (fun _ => False) p :=
  ⟨_, _, apart_upkeep, id, fun hs hfd hne => hfd.trans_ne (hs hne), fun hw hs => hw.setSock hp (hs hp),
    fun hw => apart_sockDestroy hp _ hw, fun hw => (apart_sockClose hp _ hw).post fun _ _ h => .inl h⟩

/-- A frame keeps a socket apart that is not the one of its pair of addresses. -/
theorem apart_handleFrame {i : Nat} {buf : Mem} {len : Nat} (hsock : w.frameSock buf len ≠ some q)
    (hw : Apart w₀ q t w) : wp (handleFrame i buf len) (fun _ w' => Apart w₀ q t w') (fun _ => True) w := by
  have hne (p : Ptr) (hp : p ∈ w.frameSock buf len) : p ≠ q := fun h => hsock (h ▸ hp)
  have hack (f : Frame) : AcksWell (fun p s => p ≠ q → s.fd ≠ t.fd) (w.frameSock buf len) f w := by
    intro p _ s s' _ hs _ hs' hp
    exact (congrArg Place.fd (Sock.frameAck_place hs')).trans_ne (hs hp)
  have hlisten : Listens (Apart w₀ q t) (Apart w₀ q t) w.next := listens_of_born apart_upkeep
    (fun _ => apart_canLoose) fun _ _ hs _ hfd _ _ hp => hfd.trans_ne (hs hp)
  refine (keeps_handleFrame apart_upkeep (fun _ => apart_canLoose) (fun _ h => h) hlisten hne (fun f _ _ => hack f)
    (fun _ _ _ _ _ _ _ => apart_notifyAccept) hw).post fun r w' h => ?_
  exact h.resolve_right fun h => h.1

end M

/-- The socket at `q` is as it was, and where the tables of all sockets, of the owners and of each client had
it they still do. -/
structure Untouched (q : Ptr) (t : Sock) (w w' : World) : Prop where
  heap : w'.heap q = some t
  byFd : w.socksByFd.lookup t.fd = some q → w'.socksByFd.lookup t.fd = some q
  owner : w'.clientsBySock.lookup t.fd = w.clientsBySock.lookup t.fd
  byClient : ∀ c, w.clientSock c t.fd = some q → w'.clientSock c t.fd = some q

/-- Whatever octets `handle_frame` gets, a socket other than the one of their pair of addresses is untouched,
where the new descriptors and the new pointers are not its own. -/
theorem handleFrame_isolated {w w' : World} {i len : Nat} {buf : Mem} {r : Int} {q : Ptr} {t : Sock}
    (hq : Distinct w q t) (hsock : w.frameSock buf len ≠ some q)
    (h : M.handleFrame i buf len w = .ok (r, w')) : Untouched q t w w' := by
  have hw' : Apart w q t w' := (M.apart_handleFrame hsock hq.apart).ok h
  exact ⟨hw'.heap, hw'.byFd.trans, hw'.owner, fun c => (hw'.byClient c).trans⟩

/-! ## A frame for one of two sockets -/

/-- A second connection, to another station. -/
def secondSock : Sock := { acceptedSock with remote := ⟨fun _ => 0x86, 0x60⟩, fd := 7 }

/-- A server with two connections of the client 5. -/
def World.twoSocks : World :=
  { (World.withSock acceptedSock).setSock 1 secondSock with
    next := 2
    fds := [3, 4, 5, 7]
    socksByFd := AList.insert 7 1 (AList.insert 3 0 ∅)
    socksByClient := AList.insert 5 (AList.insert 7 1 (AList.insert 3 0 ∅)) ∅
    socksRemote := AList.insert (hashAddrpair secondSock.localAddr secondSock.remote) 1
      (AList.insert (hashAddrpair acceptedSock.localAddr acceptedSock.remote) 0 ∅)
    clients := AList.insert 5 5 ∅
    clientsBySock := AList.insert 7 5 (AList.insert 3 5 ∅) }

/-- A DISC from the station of the first connection. -/
def discFrame : Bytes := List.replicate 6 0x82 ++ [0x60] ++ List.replicate 6 0x84 ++ [0x61, 0x53]

theorem twoSocks_distinct : Distinct .twoSocks 1 secondSock where
  heap := rfl
  old := by decide
  opened := by decide
  others p s hp hne := by
    rcases p with _ | _ | p
    · cases hp
      decide
    · exact absurd rfl hne
    · cases hp

/-- The first connection is closed, and the second one untouched. -/
theorem handleFrame_isolated_second : ∃ r w',
    M.handleFrame 0 (.ofBytes discFrame fun _ => 0) discFrame.length .twoSocks = .ok (r, w') ∧
    w'.heap 0 = none ∧ Untouched 1 secondSock .twoSocks w' := by
  have hrun : (M.handleFrame 0 (.ofBytes discFrame fun _ => 0) discFrame.length .twoSocks).toOption.any
      fun x => (x.2.heap 0).isNone := by decide +kernel
  cases h : M.handleFrame 0 (.ofBytes discFrame fun _ => 0) discFrame.length .twoSocks with
  | error e =>
    rw [h] at hrun
    cases hrun
  | ok x =>
    rw [h] at hrun
    exact ⟨x.1, x.2, rfl, Option.isNone_iff_eq_none.mp hrun,
      handleFrame_isolated twoSocks_distinct (by decide +kernel) h⟩

end Patty
