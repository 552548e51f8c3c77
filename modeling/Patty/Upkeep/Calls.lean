import Patty.Calls
import Patty.Upkeep.Rules

/-! # The calls of the clients keep what can be kept

A call keeps all sockets good, or it fails and ends the run. What `connect` needs is left open
(`keeps_connectVia`), as it makes a socket wait for a connection before T1 runs. -/

namespace Patty

open Prog

/-- The option leaves alone what the socket has to do, but for the size of its slots. -/
theorem SetsockoptParams.apply_duty (data : SetsockoptParams) (s : Sock) :
    (data.apply s).duty = { s.duty with nMaxlenTx := (data.apply s).nMaxlenTx } := by
  unfold SetsockoptParams.apply
  dsimp only
  split_ifs <;> rfl

namespace M

variable {α : Type} {Good : Ptr → Sock → Prop} {A : List (Nat × Nat) → Prop} {n : Ptr} (L : Lasting Good n)
  {p : Ptr} {s : Sock} {c : Nat} {m : Mem} {w : World}

/-- `m` keeps all sockets good, or it fails. -/
abbrev Lasts (Good : Ptr → Sock → Prop) (A : List (Nat × Nat) → Prop) (n : Ptr) (m : M Int) : Prop :=
  ∀ w, Kept Good A n w → wp m (fun r w' => Kept Good A n w' ∨ Left A n w' ∧ r < 0) (fun _ => True) w

theorem Keeping.lasts {m : M Int} (h : Keeping (Kept Good A n) m) : Lasts Good A n m :=
  fun w hw => (h w hw).post fun _ _ h => .inl h

/-! ## Reading -/

theorem still_readClient {k : Nat} : Still (readClient c k) := by
  refine quiet_answer.still.bind fun a => ?_
  cases a with
  | none =>
    refine Leaves.get.bind fun w => ?_
    dsimp only
    exact .bind (.modify (by intro; rfl)) fun _ => .pure
  | some e => exact quiet_setErrno.still.bind fun _ => .pure

theorem still_readStruct {k : Nat} : Still (readStruct c k) := by
  refine still_readClient.bind fun a => ?_
  cases a with
  | none => exact .pure
  | some bs => exact quiet_structOf.still.bind fun _ => .pure

theorem still_readOption {k size : Nat} : Still (readOption c k size) := by
  refine still_readClient.bind fun a => ?_
  cases a with
  | none => exact .pure
  | some bs => exact .ite .fault (quiet_structOf.still.bind fun _ => .pure)

theorem lasts_withOption {len size : Nat} {call : Mem → M Int} (h : ∀ m, Lasts Good A n (call m)) :
    Lasts Good A n (withOption c len size call) := by
  intro w hw
  rw [withOption, wp_bind]
  refine (still_readOption.kept w hw).post fun r w₁ hw₁ => ?_
  cases r with
  | none => exact .inl hw₁
  | some m => exact h m w₁ hw₁

theorem kept_respond {r : Response} : Keeping (Kept Good A n) (respond c r) := quiet_respond.still.kept

include L

theorem kept_stay {s' : Sock} (hs : Good p s) (h : s'.duty = s.duty) :
    Keeping (Kept Good A n) (store p s') := kept_store (L.moves hs (.stay h))

/-! ## Closing sockets -/

theorem kept_sockShutdown : Keeping (Kept Good A n) (sockShutdown p) := by
  refine kept_deref fun s hs => quiet_fdClear.still.kept.bind fun _ => .ite (fun _ => .pure) fun _ => ?_
  refine (kept_store (L.moves hs ?_)).bind fun _ => quiet_sendDisc.still.kept
  exact .runs rfl rfl (fun h => h) (fun h => nomatch h) rfl

theorem kept_clientSockClose : Keeping (Kept Good A n) (clientSockClose p) :=
  (kept_sockShutdown L).bind fun _ => .ite (fun _ => .pure) fun _ => keeping_sockClose

theorem kept_clientSockCloseFd {fd : Nat} : Keeping (Kept Good A n) (clientSockCloseFd c fd) := by
  refine .get_bind fun w _ => ?_
  cases (w.socksByClient.lookup c).bind (·.lookup fd) with
  | none => exact .pure
  | some p => exact kept_clientSockClose L

theorem kept_clientEof : Keeping (Kept Good A n) (clientEof c) := by
  have hforget : Still (Prog.modify fun w : World =>
      { w with socksByClient := w.socksByClient.erase c }) := .modify fun _ => rfl
  have hclient : Still (Prog.modify fun w : World => { w with clients := w.clients.erase c }) :=
    .modify fun _ => rfl
  refine quiet_fdClear.still.kept.bind fun _ => .get_bind fun w _ => ?_
  cases w.socksByClient.lookup c with
  | none => exact .pure
  | some d =>
    refine (Keeps.forEach fun _ _ => kept_clientSockCloseFd L).bind fun _ => hforget.kept.bind fun _ =>
      .get_bind fun w' _ => .ite (fun _ => ?_) fun _ => .pure
    exact hclient.kept.bind fun _ => still_closeFd.kept.bind fun _ => .pure

/-! ## The requests -/

theorem kept_socketRequest : Keeping (Kept Good A n) (socketRequest c m) := by
  refine (show Keeping (Kept Good A n) (sockNew _ _) from fun w hw =>
    kept_sockNew L hw).bind fun r => ?_
  cases r with
  | none => exact .pure
  | some p =>
    have hdestroy : Keeping (Kept Good A n) (sockDestroy p) := fun _ hw => kept_sockDestroy hw.exempt
    exact still_sockSave.kept.bind fun _ => .ite (fun _ => kept_deref fun _ _ => kept_respond)
      (fun _ => hdestroy.bind fun _ => .pure)

/-- New parameters leave a good socket once the new buffers are made. -/
theorem lasts_paramsOption : Lasts Good A n (paramsOption c p m) := by
  intro w hw
  rw [paramsOption, wp_bind, wp_deref]
  refine ⟨fun s hheap => ?_, fun _ => trivial⟩
  have hs := hw.socks p s hheap
  have hduty := (SetsockoptParams.ofMem m).apply_duty s
  rw [wp_bind, wp_store, wp_ite]
  refine ⟨fun hre => ?_, fun hre => ?_⟩
  · have hw₁ : Kept (Exempt p Good) A n (w.setSock p ((SetsockoptParams.ofMem m).apply s)) :=
      kept_store (.inl rfl) _ hw.exempt
    have hsmall : wp (initBufs ((SetsockoptParams.ofMem m).apply s))
        (fun r _ => r.1 = true → s.Small → r.2.Small) (fun _ => True)
        (w.setSock p ((SetsockoptParams.ofMem m).apply s)) := by
      by_cases h : s.Small
      · have hlen : s.nMaxlenTx < 2 ^ 64 := Nat.lt_of_le_of_lt (Nat.le_add_left ..) h
        refine (initBufs_spec (ofMem_nMaxlenTx m hlen)).post fun r _ hr hok _ => ?_
        obtain ⟨buf, H, -⟩ := hr.2 hok
        exact H.small
      · exact wp_intro fun _ _ _ _ h' => absurd h' h
    rw [wp_bind]
    refine ((quiet_initBufs.still.kept _ hw₁).and ((initBufs_eq.and initBufs_owes).and hsmall)).post ?_
    rintro ⟨ok, s₂⟩ w₂ ⟨hw₂, ⟨⟨tx, io, slots, hs₂⟩, howes⟩, hsmall⟩
    have hs₂ : s₂ = { (SetsockoptParams.ofMem m).apply s with txBuf := tx, ioBuf := io, txSlots := slots } :=
      hs₂
    obtain ⟨htype, hfd, hstate, -, hrun, -, -⟩ := Duty.mk.inj hduty
    dsimp only
    rw [wp_bind, wp_store, wp_ite]
    refine ⟨fun hok => ?_, fun _ => .inr ⟨⟨fun _ _ _ => trivial, hw₂.next, hw₂.accepts⟩, by decide⟩⟩
    have hgood : Good p s₂ := by
      refine L.moves hs (.clears ?_ ?_ (hsmall hok) ?_ ?_ fun _ => howes hok)
      · rw [hs₂]; exact htype
      · rw [hs₂]; exact hfd
      · rw [hs₂]; exact hstate
      · rw [hs₂]; exact hrun
    exact (kept_respond _ (hw₂.setSock hgood)).post fun _ _ h => .inl h
  · have hsame : ((SetsockoptParams.ofMem m).apply s).duty = s.duty := by
      have hlen := congrArg Link.nMaxlenTx (apply_same (by simpa using hre) s)
      rw [hduty, show ((SetsockoptParams.ofMem m).apply s).nMaxlenTx = s.nMaxlenTx from hlen]
      rfl
    exact Keeping.lasts ((kept_stay L hs hsame).bind fun _ => kept_respond) w hw

theorem kept_ifOption (hs : Good p s) : Keeping (Kept Good A n) (ifOption c p s m) := by
  refine .get_bind fun w _ => ?_
  cases ifGet w.ifaces (SetsockoptIf.ofMem m).name with
  | none => exact kept_respond
  | some i =>
    have hgood : Good p (if (SetsockoptIf.ofMem m).state = sockPromisc then { s with state := .promisc }
        else s) := by
      split
      · exact L.moves hs (.settles rfl rfl (fun h => h) rfl fun _ h => nomatch h)
      · exact hs
    refine quiet_sockBindIf.still.kept.bind_of (fun _ => sockBindIf_duty) fun s' hs' => ?_
    exact (kept_stay L hgood hs').bind fun _ => quiet_fdWatch.still.kept.bind fun _ => kept_respond

theorem lasts_setsockoptRequest : Lasts Good A n (setsockoptRequest c m) := by
  intro w hw
  rw [setsockoptRequest, wp_bind, wp_sockByFd]
  cases w.socksByFd.lookup (SetsockoptRequest.ofMem m).fd with
  | none => exact kept_respond.lasts w hw
  | some p =>
    dsimp only
    rw [wp_ite]
    refine ⟨fun _ => ?_, fun _ => ?_⟩
    · exact lasts_withOption (fun _ => lasts_paramsOption L) w hw
    rw [wp_ite]
    refine ⟨fun _ => ?_, fun _ => kept_respond.lasts w hw⟩
    have hopt (s : Sock) (hs : Good p s) : Keeping (Kept Good A n)
        (withOption c (SetsockoptRequest.ofMem m).len SetsockoptIf.size (ifOption c p s)) := by
      refine still_readOption.kept.bind fun r => ?_
      cases r with
      | none => exact .pure
      | some m => exact kept_ifOption L hs
    exact Keeping.lasts (kept_deref fun s hs => .ite (fun _ => kept_respond) fun _ => hopt s hs) w hw

theorem kept_bindRequest : Keeping (Kept Good A n) (bindRequest c m) := by
  refine Keeps.gets.bind fun r => ?_
  cases r with
  | none => exact kept_respond
  | some p =>
    refine kept_deref fun s hs => .ite (fun _ => kept_respond) fun _ => Keeps.gets.bind fun r => ?_
    cases r with
    | some _ => exact kept_respond
    | none => exact (kept_stay L hs (by rfl)).bind fun _ => kept_respond

theorem kept_listenRequest : Keeping (Kept Good A n) (listenRequest c m) := by
  refine Keeps.gets.bind fun r => ?_
  cases r with
  | none => exact kept_respond
  | some p =>
    refine kept_deref fun s hs => .ite
      (fun _ => quiet_junk.still.kept.bind fun _ => kept_respond) fun _ => ?_
    have hlisten : Good p { s with state := .listening } :=
      L.moves hs (.settles rfl rfl (fun h => h) rfl fun _ h => nomatch h)
    exact (kept_store hlisten).bind fun _ => still_sockSaveLocal.kept.bind fun _ =>
      .ite (fun _ => kept_respond) fun _ => .pure

omit L in
theorem kept_acceptRequest : Keeping (Kept Good A n) (acceptRequest c m) := by
  refine Keeps.gets.bind fun r => ?_
  cases r with
  | none => exact kept_respond
  | some p =>
    exact kept_deref fun _ _ => .ite (fun _ => kept_respond) fun _ =>
      .ite (fun _ => kept_respond) fun _ => kept_respond

theorem kept_closeRequest : Keeping (Kept Good A n) (closeRequest c m) := by
  refine Keeps.gets.bind fun r => ?_
  cases r with
  | none => exact kept_respond
  | some p =>
    refine .get_bind fun w _ => ?_
    cases w.socksByClient.lookup c with
    | none => exact kept_respond
    | some _ =>
      exact (kept_sockShutdown L).bind fun _ => .ite (fun _ => .get_bind fun _ _ => kept_respond)
        fun _ => keeping_sockClose.bind fun _ => .ite (fun _ => kept_respond) fun _ => kept_respond

/-- A call other than `connect`. -/
theorem lasts_callRequest {call : Nat} (h : call ≠ PATTY_CLIENT_CONNECT) :
    Lasts Good A n (callRequest call c m) := by
  unfold callRequest
  split_ifs
  · exact (kept_socketRequest L).lasts
  · exact lasts_setsockoptRequest L
  · exact (kept_bindRequest L).lasts
  · exact (kept_listenRequest L).lasts
  · exact kept_acceptRequest.lasts
  · exact (kept_closeRequest L).lasts

/-! ## `connect` -/

/-- `s'` is `s` once `server_connect` has bound it to the interface `i` and the station `peer`. -/
structure Binds (s : Sock) (i : Nat) (peer : Addr) (s' : Sock) : Prop where
  duty : s'.duty = s.duty
  iface : s'.iface = some i
  remote : s'.remote = peer
  hops : s'.hops = s.hops

/-- A STREAM socket waits for its connection with T1 running, or the XID is sent and T1 started. -/
theorem kept_connectStart (hs : Good p s) (hpend : s.type = .stream →
      Good p { s with state := .pendingConnect } ∨
      ∀ w', w'.sys = w.sys → wp (sendXid { s with state := .pendingConnect } .command)
        (fun r _ => 0 ≤ r) (fun _ => True) w') (hw : Kept Good A n w) :
    wp (connectStart c p s) (fun _ w' => Kept Good A n w') (fun _ => True) w := by
  unfold connectStart
  split
  · rename_i htype
    have hgood : Good p { s with state := .established } :=
      L.moves hs (.settles rfl rfl (fun h => h) rfl fun h _ => nomatch htype.symm.trans h)
    exact ((kept_store hgood).bind fun _ => .pure) w hw
  · rename_i htype
    have hstart : Good p { s with
        state := .pendingConnect, retries := s.nRetry, timerT1 := s.timerT1.start } :=
      L.moves hs (.runs rfl rfl (fun h => h) (fun h => nomatch h) rfl)
    rcases hpend htype with hgood | hsent
    · have hsend : Keeping (Kept Good A n) (do
          if (← sendXid { s with state := .pendingConnect } .command) < 0 then
            respondConnect c (-1) (← get).errno
          else
            store p { s with
              state := .pendingConnect, retries := s.nRetry, timerT1 := s.timerT1.start }
            pure 0 : M Int) := quiet_sendXid.still.kept.bind fun _ =>
        .ite (fun _ => .get_bind fun _ _ => kept_respond) fun _ => (kept_store hstart).bind fun _ => .pure
      exact ((kept_store hgood).bind fun _ => hsend) w hw
    · rw [wp_bind, wp_store, wp_bind]
      have hw₁ : Kept (Exempt p Good) A n (w.setSock p { s with state := .pendingConnect }) :=
        kept_store (.inl rfl) _ hw.exempt
      refine ((quiet_sendXid.still.kept _ hw₁).and (hsent _ rfl)).post ?_
      rintro r w₂ ⟨hw₂, hr⟩
      rw [wp_ite]
      exact ⟨fun h => absurd hr (by omega), fun _ => hw₂.setSock hstart⟩
  · exact hw

omit L

/-- `m` asks neither a driver nor a pty for anything. -/
abbrev Offline {α : Type} (m : M α) : Prop := Leaves (fun w => (w.sys.send, w.sys.ptyWrite)) m

theorem offline_alloc : Offline alloc := by
  refine Leaves.bind (leaves_answer fun _ _ => rfl) fun _ => .ite .pure ?_
  exact Leaves.bind (.modify fun _ => rfl) fun _ => .pure

theorem offline_structOf {bs : Bytes} : Offline (structOf bs) :=
  Leaves.bind (leaves_answer fun _ _ => rfl) fun _ => .pure

theorem offline_readClient {k : Nat} : Offline (readClient c k) := by
  refine Leaves.bind (leaves_answer fun _ _ => rfl) fun a => ?_
  cases a with
  | none => exact Leaves.get.bind fun _ => Leaves.bind (.modify fun _ => rfl) fun _ => .pure
  | some e => exact Leaves.bind (.modify fun _ => rfl) fun _ => .pure

theorem offline_readCall : Offline (readCall c) := by
  refine offline_readClient.bind fun bs => ?_
  rcases bs with _ | _ | ⟨b, bs⟩
  · exact .pure
  · exact .pure
  · refine offline_structOf.bind fun m => ?_
    cases callSize (leValue (m.read 0 4)) with
    | none => exact .pure
    | some n =>
      refine Leaves.bind (offline_readClient.bind fun a => ?_) fun r => ?_
      · cases a with
        | none => exact .pure
        | some bs => exact offline_structOf.bind fun _ => .pure
      · cases r with
        | none => exact .pure
        | some m' => exact .pure

theorem offline_ifPromiscAdd {i fd : Nat} : Offline (ifPromiscAdd i fd) :=
  leaves_getIface.bind fun _ => .ite (Leaves.bind (.modify fun _ => rfl) fun _ => .pure)
    ((Leaves.ite .pure offline_alloc).bind fun _ => Leaves.bind (.modify fun _ => rfl) fun _ => by
      split
      · exact Leaves.bind (.modify fun _ => rfl) fun _ => .pure
      · exact .pure)

theorem offline_sockBindIf {i : Nat} : Offline (sockBindIf s i) :=
  leaves_getIface.bind fun _ => .ite (offline_ifPromiscAdd.bind fun _ => .pure) .pure

theorem offline_dictRoom {κ γ : Type} [DecidableEq κ] {d : Dict κ γ} {key : κ} : Offline (dictRoom d key) :=
  .ite .pure offline_alloc

theorem offline_unlisted : Unlisted fun w => (w.sys.send, w.sys.ptyWrite) := fun _ _ _ _ _ _ => rfl

theorem offline_sockSaveRemote : Offline (sockSaveRemote p s) :=
  offline_unlisted.sockSaveRemote offline_dictRoom

theorem offline_clientSaveBySock : Offline (clientSaveBySock c s) :=
  offline_unlisted.clientSaveBySock offline_dictRoom

include L

/-- `connect` by way of an interface, where the XID is sent if nothing else starts T1. -/
theorem kept_connectVia {i : Nat} {peer : Addr} (hs : Good p s) (hpend : s.type = .stream →
      Good p { s with state := .pendingConnect } ∨
      ∀ s' w', Binds s i peer s' → s'.nAck = s.nAck → s'.nRetry = s.nRetry →
        w'.sys.send = w.sys.send → w'.sys.ptyWrite = w.sys.ptyWrite →
        wp (sendXid { s' with state := .pendingConnect } .command) (fun r _ => 0 ≤ r) (fun _ => True) w')
    (hw : Kept Good A n w) :
    wp (connectVia c p s i peer) (fun _ w' => Kept Good A n w') (fun _ => True) w := by
  rw [connectVia, wp_bind]
  refine wp_intro fun s₁ w₁ h₁ => ?_
  have hw₁ : Kept Good A n w₁ := (quiet_sockBindIf.still.kept w hw).ok h₁
  obtain ⟨flags, rfl⟩ := sockBindIf_binds.ok h₁
  rw [wp_bind, wp_getIface]
  refine ⟨fun iface _ => ?_, fun _ => trivial⟩
  obtain ⟨s₂, hs₂⟩ : ∃ s₂, s₂ = { s with
      iface := some i
      flagsClasses := flags
      localAddr := if s.localAddr.isSet then s.localAddr else iface.addr
      remote := peer } := ⟨_, rfl⟩
  have hbinds : Binds s i peer s₂ := by
    rw [hs₂]
    exact ⟨rfl, rfl, rfl, rfl⟩
  have hgood : Good p s₂ := L.moves hs (.stay hbinds.duty)
  dsimp only
  rw [← hs₂, wp_bind, wp_store, wp_bind]
  refine wp_intro fun ok₁ w₃ h₃ => ?_
  have hw₃ : Kept Good A n w₃ := (still_sockSaveRemote.kept _ (kept_store hgood w₁ hw₁)).ok h₃
  rw [wp_ite]
  refine ⟨fun _ => ?_, fun _ => hw₃⟩
  rw [wp_bind]
  refine wp_intro fun ok₂ w₄ h₄ => ?_
  have hw₄ : Kept Good A n w₄ := (still_clientSaveBySock.kept _ hw₃).ok h₄
  rw [wp_ite]
  refine ⟨fun _ => ?_, fun _ => hw₄⟩
  refine kept_connectStart L hgood (fun htype => ?_) hw₄
  have hbind : (w₁.sys.send, w₁.sys.ptyWrite) = (w.sys.send, w.sys.ptyWrite) :=
    offline_sockBindIf _ _ _ h₁
  obtain ⟨hsend, hpty⟩ := Prod.mk.inj ((offline_clientSaveBySock _ _ _ h₄).trans
    (Eq.trans (offline_sockSaveRemote _ _ _ h₃) hbind))
  obtain ⟨htype₂, hfd, -, hmode, hrun, hlen, hslots⟩ := Duty.mk.inj hbinds.duty
  refine (hpend (htype₂ ▸ htype)).imp (fun h => L.moves h (.stay ?_)) fun h w' hw' => ?_
  · exact Duty.mk.injEq .. ▸ ⟨htype₂, hfd, rfl, hmode, hrun, hlen, hslots⟩
  · exact h s₂ w' hbinds (by rw [hs₂]) (by rw [hs₂]) (hw' ▸ hsend) (hw' ▸ hpty)

/-- `connect`, where a STREAM socket may wait for its connection as it is. -/
theorem lasts_connectRequest
    (hpend : ∀ p s, Good p s → s.type = .stream → Good p { s with state := .pendingConnect }) :
    Lasts Good A n (connectRequest c m) := by
  refine Keeping.lasts (Keeps.gets.bind fun r => ?_)
  cases r with
  | none => exact kept_respond
  | some p =>
    refine kept_deref fun s hs => .ite (fun _ => kept_respond) fun _ => .ite (fun _ => kept_respond)
      fun _ => .ite (fun _ => kept_respond) fun _ => .get_bind fun w _ => ?_
    cases connectRoute w.routes s with
    | none => exact kept_respond
    | some route => exact fun _ hw => kept_connectVia L hs (fun h => .inl (hpend p s hs h)) hw

/-! ## The turn of a client -/

omit L in
theorem kept_acceptClient {fd : Nat} : Keeping (Kept Good A n) (acceptClient fd) := by
  have hclose {c : Nat} : Keeping (Kept Good A n) (do
      closeFd c
      pure (-1) : M Int) := still_closeFd.kept.bind fun _ => .pure
  have hopen {c : Nat} : Still (Prog.modify fun w : World => { w with fds := c :: w.fds }) :=
    .modify fun _ => rfl
  have hclient {c : Nat} : Still (Prog.modify fun w : World => { w with clients := w.clients.insert c c }) :=
    .modify fun _ => rfl
  have hsocks {c : Nat} : Still (Prog.modify fun w : World =>
      { w with socksByClient := w.socksByClient.insert c ∅ }) := .modify fun _ => rfl
  refine .get_bind fun w _ => hopen.kept.bind fun _ =>
    quiet_alloc.still.kept.bind fun _ => .ite (fun _ => ?_) fun _ => hclose
  refine .get_bind fun w' _ => quiet_dictRoom.still.kept.bind fun _ => .ite (fun _ => ?_) fun _ => hclose
  refine hclient.kept.bind fun _ => .ite (fun _ => hclose) fun _ => .get_bind fun _ _ => ?_
  refine quiet_dictRoom.still.kept.bind fun _ => .ite (fun _ => ?_) fun _ => hclose
  exact hsocks.kept.bind fun _ => quiet_fdWatch.still.kept.bind fun _ => .pure

/-- The turn of a client, where the request of a `connect` is left open. -/
theorem lasts_handleClient (hw : Kept Good A n w)
    (hconn : ∀ m w₁, w.asks c = some (PATTY_CLIENT_CONNECT, m, w₁) → Kept Good A n w₁ →
      wp (connectRequest c m) (fun r w' => Kept Good A n w' ∨ Left A n w' ∧ r < 0) (fun _ => True) w₁) :
    wp (handleClient c) (fun r w' => Kept Good A n w' ∨ Left A n w' ∧ r < 0) (fun _ => True) w := by
  rw [handleClient, wp_bind]
  refine wp_intro fun bs w₁ h₁ => ?_
  have hw₁ : Kept Good A n w₁ := (still_readClient.kept w hw).ok h₁
  rcases bs with _ | _ | ⟨b, bs⟩
  · exact .inl hw₁
  · exact (kept_clientEof L).lasts w₁ hw₁
  dsimp only
  rw [wp_bind]
  refine wp_intro fun m₀ w₂ h₂ => ?_
  have hw₂ : Kept Good A n w₂ := (quiet_structOf.still.kept w₁ hw₁).ok h₂
  cases hsize : callSize (leValue (m₀.read 0 4)) with
  | none =>
    cases hserve : serverCalls (leValue (m₀.read 0 4)) with
    | none => exact .inl hw₂
    | some call =>
      obtain rfl := serverCalls_ping hsize hserve
      exact kept_respond.lasts w₂ hw₂
  | some k =>
    rw [serverCalls_size hsize]
    dsimp only
    rw [withRequest, wp_bind]
    refine wp_intro fun r w₃ h₃ => ?_
    have hw₃ : Kept Good A n w₃ := (still_readStruct.kept w₂ hw₂).ok h₃
    cases r with
    | none => exact .inl hw₃
    | some m =>
      by_cases hcall : leValue (m₀.read 0 4) = PATTY_CLIENT_CONNECT
      · have hread : readCall c w = .ok (some (PATTY_CLIENT_CONNECT, m), w₃) := by
          rw [readCall, bind_ok h₁]
          dsimp only
          rw [bind_ok h₂, hsize]
          dsimp only
          rw [bind_ok h₃, hcall]
          rfl
        have hasks : w.asks c = some (PATTY_CLIENT_CONNECT, m, w₃) := by
          rw [World.asks, hread]
        rw [hcall]
        exact hconn m w₃ hasks hw₃
      · exact lasts_callRequest L hcall w₃ hw₃

end M

end Patty
