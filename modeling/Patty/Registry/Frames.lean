import Patty.Registry.Requests

/-! # The frames that open a connection, and the tables of addresses

A socket that SABM or XID makes takes a pair of addresses that no socket belongs to: it is made only
where none is found for the pair. -/

namespace Patty

open Prog Registry

namespace M

variable {w w' : World} {p : Ptr} {s : Sock}

/-- An accepted socket that has its entry. -/
theorem sabmEnd_registered {i : Nat} {frame : Frame} {listener : Sock} (h : w.registry.Registered)
    (hp : w.heap p = some s) : wp (do
      fdWatch s.fd
      if ← notifyAccept listener.fd s.fd s.remote s.pty then
        store p { s with timerT3 := s.timerT3.start }
        replyUa i frame PATTY_AX25_FRAME_FINAL
      else
        sockDestroy p
        pure (-1) : M Int) (fun _ w' => w'.registry.Registered) (fun _ => True) w := by
  rw [wp_bind]
  refine quiet_fdWatch.registry.wp (fun _ w₁ hw₁ => ?_) fun _ => trivial
  rw [wp_bind]
  refine tame_notifyAccept.registry.wp (fun ok w₂ hw₂ => ?_) fun _ => trivial
  have hw : w₂.registry = w.registry := hw₂.trans hw₁
  have hreg : w₂.registry.Registered := hw ▸ h
  rw [wp_ite]
  refine ⟨fun _ => ?_, fun _ => registered_destroy (hreg.drop p)⟩
  rw [wp_bind, wp_store]
  exact registered_leaves quiet_replyUa.registry
    (registered_setSock hreg (heap_of_registry hw hp) (.of_place rfl))

/-- A socket that is established: it is entered in the tables if it is not there yet. -/
theorem sabmSave_registered {i c : Nat} {frame : Frame} {listener : Sock} {created : Bool}
    (h : w.registry.Aside p s) (hs : s.state = .established)
    (hlookup : created = false → w.registry.socksRemote.lookup s.pairKey = some p) : wp (do
      let remote ← sockBindIf s i
      store p remote
      if ← (if created then sockSave c p else pure true) then
        fdWatch remote.fd
        if ← notifyAccept listener.fd remote.fd remote.remote remote.pty then
          store p { remote with timerT3 := remote.timerT3.start }
          replyUa i frame PATTY_AX25_FRAME_FINAL
        else
          sockDestroy p
          pure (-1)
      else
        sockDestroy p
        pure (-1) : M Int) (fun _ w' => w'.registry.Registered) (fun _ => True) w := by
  rw [wp_bind]
  refine wp_intro fun s₁ w₁ hrun => ?_
  have hw₁ : w₁.registry = w.registry := quiet_sockBindIf.registry _ _ _ hrun
  have hplace : s₁.place = s.place := sockBindIf_place.ok hrun
  have hstays : Stays s s₁ := .of_place hplace
  have hstate : s₁.state = .established := (congrArg Place.state hplace).trans hs
  have hconn : s₁.state.connecting := by
    rw [hstate]
    rfl
  rw [← hw₁] at h hlookup
  have haside : (w₁.setSock p s₁).registry.Aside p s₁ := h.of_stays hstays
  rw [wp_bind, wp_store, wp_bind]
  have hsave : wp (if created then sockSave c p else pure true : M Bool) (Entered p s₁)
      (fun _ => True) (w₁.setSock p s₁) := by
    rw [wp_ite]
    refine ⟨fun _ => sockSave_entered haside, fun hc => ⟨haside, fun _ => ?_⟩⟩
    refine haside.registered (fun hl => ?_) fun _ => ?_
    · rw [hstate] at hl
      cases hl
    · rw [(hstays.pairKey hconn).2]
      exact hlookup (by simpa using hc)
  refine hsave.post ?_
  rintro ok w₂ ⟨haside₂, hreg₂⟩
  rw [wp_ite]
  exact ⟨fun hok => sabmEnd_registered (hreg₂ hok) haside₂.sock,
    fun _ => registered_destroy haside₂.rest⟩

/-- A socket becomes established with the same addresses. -/
theorem stays_established {s' : Sock} (hs : s.state = .pendingAccept) (htype : s'.type = s.type)
    (hstate : s'.state = .established) (hlocal : s'.localAddr = s.localAddr)
    (hremote : s'.remote = s.remote) : Stays s s' := by
  refine ⟨htype, fun hl => ?_, fun _ => ⟨by rw [hs]; rfl, hlocal, hremote⟩⟩
  rw [hstate] at hl
  cases hl

theorem sabmAccept_registered {i c : Nat} {frame : Frame} {listener : Sock} {created : Bool}
    (h : w.registry.Aside p s) (hs : s.state = .pendingAccept)
    (hlookup : created = false → w.registry.socksRemote.lookup s.pairKey = some p) :
    wp (sabmAccept i frame listener c p created) (fun _ w' => w'.registry.Registered)
      (fun _ => True) w := by
  rw [sabmAccept, wp_bind]
  refine wp_deref_some h.sock ?_
  rw [wp_bind]
  refine wp_intro fun r w₁ hrun => ?_
  have hw₁ : w₁.registry = w.registry := quiet_initBufs.registry _ _ _ hrun
  obtain ⟨ok, s₁⟩ := r
  have hplace := (initBufs_place.ok hrun).trans (Sock.acceptMode_place frame.type)
  obtain ⟨htype, hstate, -, hlocal, hremote, -⟩ := Place.mk.inj hplace
  have hstays : Stays s s₁ := stays_established hs htype hstate hlocal hremote
  rw [← hw₁] at h hlookup
  have haside : (w₁.setSock p s₁).registry.Aside p s₁ := h.of_stays hstays
  dsimp only
  rw [wp_bind, wp_store, wp_ite]
  refine ⟨fun _ => sabmSave_registered haside hstate fun hc => ?_,
    fun _ => registered_destroy haside.rest⟩
  have hconn : s₁.state.connecting := by
    rw [hstate]
    rfl
  rw [(hstays.pairKey hconn).2]
  exact hlookup hc

/-- A new socket takes the pair of addresses of a frame that no socket belongs to. -/
theorem NewSock.aside {frame : Frame} {s' : Sock} (hnew : NewSock w p s w') (h : w.registry.Registered)
    (hnone : w.socksRemote.lookup (hashAddrpair frame.dest frame.src) = none)
    (htype : s'.type = s.type) (hstate : s'.state = .pendingAccept)
    (hkey : s'.pairKey = hashAddrpair frame.dest frame.src) :
    (w'.setSock p s').registry.Aside p s' := by
  refine hnew.registered.aside hnew.sock htype ?_ ?_ ?_
  · rw [hstate]
    intro hl
    cases hl
  · rw [hstate]
    intro hl
    cases hl
  · intro _ q t hq ht htc heq
    have hlookup := h.connecting q t (hnew.old q t hq ht) htc
    rw [heq, hkey] at hlookup
    exact Option.some_ne_none q (hlookup.symm.trans hnone)

theorem handleSabm_registered {i : Nat} {frame : Frame} (h : w.registry.Registered) :
    wp (handleSabm i frame) (fun _ w' => w'.registry.Registered) (fun _ => True) w := by
  have hreply : wp (replyDm i frame PATTY_AX25_FRAME_FINAL) (fun _ w' => w'.registry.Registered)
      (fun _ => True) w := registered_leaves quiet_replyDm.registry h
  rw [handleSabm, wp_bind, wp_sockByAddr]
  cases w.socksLocal.lookup (hashAddr frame.dest) with
  | none => exact hreply
  | some l =>
    dsimp only
    rw [wp_bind, wp_deref]
    refine ⟨fun listener hl => ?_, fun _ => trivial⟩
    rw [wp_ite]
    refine ⟨fun _ => hreply, fun hnot => ?_⟩
    rw [wp_bind, wp_clientBySock]
    cases clientOf w.clientsBySock listener.fd with
    | none => exact h
    | some c =>
      dsimp only
      rw [wp_bind, wp_sockByAddrpair]
      cases hpair : w.socksRemote.lookup (hashAddrpair frame.dest frame.src) with
      | none =>
        dsimp only
        rw [h.stream l listener hl, wp_bind]
        refine (sockNew_registered h).post fun r w₁ hnew => ?_
        cases r with
        | none => exact hnew
        | some r =>
          obtain ⟨s, hnew⟩ := hnew
          dsimp only
          rw [wp_bind]
          refine wp_deref_some hnew.sock ?_
          rw [wp_bind, wp_store]
          exact sabmAccept_registered (hnew.aside h hpair rfl rfl rfl) rfl fun hc => by cases hc
      | some r =>
        dsimp only
        rw [wp_bind, wp_deref]
        refine ⟨fun s hs => ?_, fun _ => trivial⟩
        cases hstate : s.state with
        | pendingAccept =>
          exact sabmAccept_registered (h.aside_self hs) hstate fun _ =>
            h.connecting r s hs (by rw [hstate]; rfl)
        | established =>
          dsimp only
          rw [wp_bind, wp_lift]
          refine ⟨fun s' hreset => ?_, fun _ _ => trivial⟩
          rw [wp_bind, wp_store]
          exact registered_leaves (.ite quiet_replyUa.registry .pure)
            (registered_setSock h hs (.of_place (Sock.reset_place hreset)))
        | closed | listening | pendingConnect | pendingDisconnect | promisc => exact hreply

/-- A socket that is closed has no place in the tables. -/
theorem stays_closed {s' : Sock} (htype : s'.type = s.type) (hstate : s'.state = .closed) :
    Stays s s' := by
  refine ⟨htype, fun hl => ?_, fun hc => ?_⟩
  · rw [hstate] at hl
    cases hl
  · rw [hstate] at hc
    cases hc

theorem xidResponse_registered {params : Params} (h : w.registry.Registered)
    (hp : w.heap p = some s) :
    wp (xidResponse p s params) (fun _ w' => w'.registry.Registered) (fun _ => True) w := by
  have hplace := s.paramsNegotiate_place params
  unfold xidResponse
  revert hplace
  rcases s.paramsNegotiate params with ⟨_ | e, s₁, params'⟩
  · intro hplace
    dsimp only at hplace ⊢
    rw [wp_bind]
    refine quiet_sendSabm.registry.wp (fun r w₁ hw₁ => ?_) fun _ => trivial
    rw [wp_bind, wp_store]
    have hp₁ : w₁.heap p = some s := heap_of_registry hw₁ hp
    obtain ⟨mode, hmode⟩ := Sock.xidMode_place
      (c := params'.hdlc &&& PATTY_AX25_PARAM_HDLC_MODULO_128 ≠ 0) hplace
    exact registered_setSock (hw₁ ▸ h) hp₁ (.of_mode hmode)
  · intro hplace
    dsimp only at hplace ⊢
    rw [wp_bind, wp_setErrno, wp_bind, wp_store, wp_bind, wp_clientBySock]
    have hreg₁ : ({ w with errno := e }.setSock p s₁ : World).registry.Registered :=
      registered_setSock (w := { w with errno := e }) h hp (.of_place hplace)
    split
    · exact hreg₁
    · rw [wp_bind, wp_store]
      have hinit : Stays s₁ s₁.init := stays_closed rfl rfl
      have hreg₂ := registered_setSock hreg₁ heap_setSock hinit
      rw [wp_bind, wp_lift]
      refine ⟨fun s₂ hreset => ?_, fun _ _ => trivial⟩
      rw [wp_bind, wp_store]
      exact registered_leaves (Leaves.get.bind fun _ => quiet_respond.registry)
        (registered_setSock hreg₂ heap_setSock (.of_place (Sock.reset_place hreset)))

/-- The end of `xidListen`: the socket with the addresses of the frame is entered in the tables. -/
theorem xidSave_registered {c : Nat} (h : (w.setSock p s).registry.Aside p s) : wp (do
      store p s
      if ← sockSave c p then
        let ret ← sendXid s .response
        store p { s with timerT1 := s.timerT1.start, retries := s.nRetry }
        pure ret
      else
        sockDestroy p
        pure (-1) : M Int) (fun _ w' => w'.registry.Registered) (fun _ => True) w := by
  rw [wp_bind, wp_store, wp_bind]
  refine (sockSave_entered h).post ?_
  rintro ok w₁ ⟨haside, hreg⟩
  rw [wp_ite]
  refine ⟨fun hok => ?_, fun _ => registered_destroy haside.rest⟩
  rw [wp_bind]
  refine quiet_sendXid.registry.wp (fun r w₂ hw₂ => ?_) fun _ => trivial
  rw [wp_bind, wp_store]
  exact registered_setSock (hw₂ ▸ hreg hok) (heap_of_registry hw₂ haside.sock) (.of_place rfl)

theorem xidListen_registered {i : Nat} {frame : Frame} {params : Params} (h : w.registry.Registered)
    (hstream : s.type = .stream)
    (hnone : w.socksRemote.lookup (hashAddrpair frame.dest frame.src) = none) :
    wp (xidListen i frame s params) (fun _ w' => w'.registry.Registered) (fun _ => True) w := by
  rw [xidListen, wp_bind, wp_clientBySock]
  cases clientOf w.clientsBySock s.fd with
  | none => exact h
  | some c =>
    dsimp only
    rw [hstream, wp_bind]
    refine (sockNew_registered h).post fun r w₁ hnew => ?_
    cases r with
    | none => exact hnew
    | some r =>
      obtain ⟨s₀, hnew⟩ := hnew
      dsimp only
      rw [wp_bind]
      refine wp_deref_some hnew.sock ?_
      rw [wp_bind]
      refine wp_intro fun s₁ w₂ hrun => ?_
      have hw₂ : w₂.registry = w₁.registry := quiet_sockBindIf.registry _ _ _ hrun
      obtain ⟨mode, hmode⟩ := Sock.xidMode_place (s := { s₀ with state := .pendingAccept })
        (c := params.hdlc &&& PATTY_AX25_PARAM_HDLC_MODULO_128 ≠ 0) rfl
      have hplace₁ : s₁.place = { s₀.place with state := .pendingAccept, mode := mode } :=
        (sockBindIf_place.ok hrun).trans hmode
      have hplace₂ := (s₁.paramsMax.paramsNegotiate_place params).trans hplace₁
      have hnew₂ : NewSock w r s₀ w₂ := by
        have hheap : w₂.heap = w₁.heap := congrArg Registry.heap hw₂
        exact ⟨hw₂ ▸ hnew.registered, heap_of_registry hw₂ hnew.sock, hnew.place, hheap ▸ hnew.old⟩
      revert hplace₂
      rcases s₁.paramsMax.paramsNegotiate params with ⟨_ | e, s₂, params'⟩
      · intro hplace₂
        obtain ⟨htype, hstate, -⟩ := Place.mk.inj hplace₂
        exact xidSave_registered (s := s₂.saveReplyAddr frame)
          (hnew₂.aside h hnone htype hstate rfl)
      · intro hplace₂
        dsimp only
        rw [wp_bind, wp_setErrno, wp_bind, wp_store]
        refine registered_destroy ?_
        show ((w₂.registry.store r s₂).drop r).Registered
        rw [drop_store]
        exact hnew₂.registered.drop r

theorem handleXid_registered {i : Nat} {frame : Frame} {buf : Mem} {offset len : Nat}
    (h : w.registry.Registered) : wp (handleXid i frame buf offset len)
      (fun _ w' => w'.registry.Registered) (fun _ => True) w := by
  rw [handleXid, wp_bind]
  refine quiet_getIface.registry.wp (fun iface w₁ hw₁ => ?_) fun _ => trivial
  rw [wp_ite]
  refine ⟨fun _ => (hw₁ ▸ h : w₁.registry.Registered), fun _ => ?_⟩
  rw [wp_bind]
  refine quiet_junk.registry.wp (fun m w₂ hw₂ => ?_) fun _ => trivial
  have h₂ : w₂.registry.Registered := (hw₂.trans hw₁) ▸ h
  cases decodeXid (.ofMem m) buf offset len with
  | none => exact registered_leaves (quiet_setErrno.registry.bind fun _ => .pure) h₂
  | some params =>
    dsimp only
    rw [wp_bind, wp_setErrno, wp_bind, wp_sockByAddrpair]
    have h₃ : ({ w₂ with errno := .zero } : World).registry.Registered := h₂
    have hreply : wp (replyDm i frame PATTY_AX25_FRAME_FINAL) (fun _ w' => w'.registry.Registered)
        (fun _ => True) { w₂ with errno := .zero } := registered_leaves quiet_replyDm.registry h₃
    cases hpair : ({ w₂ with errno := .zero } : World).socksRemote.lookup
      (hashAddrpair frame.dest frame.src) with
    | some p =>
      dsimp only
      rw [wp_bind, wp_deref]
      refine ⟨fun s hs => ?_, fun _ => trivial⟩
      rw [wp_ite]
      exact ⟨fun _ => hreply, fun _ => xidResponse_registered h₃ hs⟩
    | none =>
      dsimp only
      rw [wp_bind, wp_sockByAddr]
      split
      · exact hreply
      · rw [wp_bind, wp_deref]
        refine ⟨fun listener hl => ?_, fun _ => trivial⟩
        rw [wp_ite]
        exact ⟨fun _ => hreply, fun _ => xidListen_registered h₃ (h₃.stream _ _ hl) hpair⟩

end M

end Patty
