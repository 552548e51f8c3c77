import Patty.Negotiate
import Patty.Upkeep.Handshake

/-! # What two ends agree on

A socket that connects sends an XID, the listening station makes a socket for it and answers with an XID of
its own. What the socket of the listener may send then is more than the one that connects takes: it offers what
it could take at most and not what it was set to (`not_agrees`). -/

namespace Patty

open Prog

/-- Each end sends no more than the other one takes. -/
structure EndsAgree (c l : Sock) : Prop where
  maxlen : c.nMaxlenTx ≤ l.nMaxlenRx
  window : c.nWindowTx ≤ l.nWindowRx
  maxlen' : l.nMaxlenTx ≤ c.nMaxlenRx
  window' : l.nWindowTx ≤ c.nWindowRx

/-- The octets from `offset` up to `len` are the information that `patty_ax25_sock_send_xid` sends for `s`. -/
def CarriesXid (s : Sock) (buf : Mem) (offset len : Nat) : Prop := ∃ info,
  encodeXid (M.xidParams s) 256 = some info ∧ buf.read offset info.length = info ∧ len = offset + info.length

/-- The socket `p` is made for a client, and requests of clients change it. -/
inductive Opened (p : Ptr) : World → Prop
  | socket {c : Nat} {m : Mem} {w w' : World} {s : Sock} {r : Int} (hnew : w.heap p = none)
      (h : M.socketRequest c m w = .ok (r, w')) (hs : w'.heap p = some s) (htype : s.type = .stream) : Opened p w'
  | setsockopt {c : Nat} {m : Mem} {w w' : World} {r : Int} (hw : Opened p w)
      (h : M.setsockoptRequest c m w = .ok (r, w')) : Opened p w'
  | bind {c : Nat} {m : Mem} {w w' : World} {r : Int} (hw : Opened p w)
      (h : M.bindRequest c m w = .ok (r, w')) : Opened p w'
  | other {w w' : World} (hw : Opened p w) (h : w'.heap p = w.heap p) : Opened p w'

/-- What a socket is once `server_connect` has set it up. -/
def Connecting (s : Sock) : Prop := ∃ p c m w r w', Opened p w ∧ M.connectRequest c m w = .ok (r, w') ∧
  w'.heap p = some s ∧ s.type = .stream ∧ s.state = .pendingConnect

/-- `s` connects, `l` is the socket that `handle_xid` makes for its XID command, and `c` is what the XID
response of `l` makes of `s`. -/
structure Exchange (s c l : Sock) : Prop where
  connecting : Connecting s
  command : ∃ i frame buf offset len w r w', CarriesXid s buf offset len ∧ w.heap w.next = none ∧
    M.handleXid i frame buf offset len w = .ok (r, w') ∧ w'.heap w.next = some l
  response : ∃ i frame iface buf offset len p w r w', CarriesXid l buf offset len ∧
    w.ifaces[i]? = some iface ∧ iface.addrMatch frame.dest ∧
    w.socksRemote.lookup (hashAddrpair frame.dest frame.src) = some p ∧ w.heap p = some s ∧
    M.handleXid i frame buf offset len w = .ok (r, w') ∧ w'.heap p = some c

variable {s : Sock} {buf : Mem} {offset len : Nat} {params : Params}

/-! ## What is offered -/

/-- The offer of any socket. -/
structure Offered (params : Params) : Prop where
  flags : params.flags = 0x74c
  infoRx : params.infoRx = PATTY_AX25_SOCK_2_2_MAX_I_LEN <<< 3
  windowRx : params.windowRx = PATTY_AX25_SOCK_2_2_MAX_WINDOW

theorem saveXidParam_all (n₁ n₂ n₃ n₄ n₅ n₆ classes hdlc infoRx windowRx ack retry : Nat) :
    ([(PATTY_AX25_PARAM_CLASSES, n₁, classes), (PATTY_AX25_PARAM_HDLC, n₂, hdlc),
      (PATTY_AX25_PARAM_INFO_RX, n₃, infoRx), (PATTY_AX25_PARAM_WINDOW_RX, n₄, windowRx),
      (PATTY_AX25_PARAM_ACK, n₅, ack), (PATTY_AX25_PARAM_RETRY, n₆, retry)] : List XidParam).foldl
        (fun p v => saveXidParam p v.1 v.2.2) .zero =
      ⟨0x74c, classes, hdlc, 0, infoRx, 0, windowRx, ack, retry⟩ := by
  simp [saveXidParam, Params.zero]
  decide

/-- The other end reads the same offer, whatever the socket is set to. -/
theorem CarriesXid.offered (h : CarriesXid s buf offset len) (params₀ : Params) :
    ∃ params, decodeXid params₀ buf offset len = some params ∧ Offered params := by
  obtain ⟨info, hencode, hread, rfl⟩ := h
  obtain ⟨henc, -⟩ := s.encodeXid_xidParams
  rw [henc] at hencode
  obtain ⟨l, hl⟩ : ∃ l, l = (xidValues (M.xidParams s)).map storedParam := ⟨_, rfl⟩
  have hgroup : xidGroup l = info := by
    rw [← Option.some.inj hencode, hl, xidGroup, xidBody_stored]
    rfl
  have hfits : ∀ v ∈ l, XidFits v := by
    have hvalues : ∀ v ∈ xidValues (M.xidParams s), v.1 < 256 ∧ v.2.1 ≤ 4 := by
      simp only [xidValues, List.forall_mem_cons, List.not_mem_nil, false_implies, implies_true, and_true]
      exact ⟨⟨by decide, by decide⟩, ⟨by decide, by decide⟩, ⟨by decide, needbytes_le _⟩,
        ⟨by decide, by decide⟩, ⟨by decide, needbytes_le _⟩, by decide, needbytes_le _⟩
    rw [hl]
    intro v hv
    obtain ⟨x, hx, rfl⟩ := List.mem_map.mp hv
    exact storedParam_fits (hvalues x hx).1 (hvalues x hx).2
  have hfew : (xidBody l).length < 2 ^ 16 := by
    have hsix : l.length = 6 := by rw [hl]; rfl
    exact (length_xidBody_le fun v hv => (hfits v hv).bytes).trans_lt (by omega)
  subst hgroup
  have hdec : decodeXid params₀ buf offset (offset + (xidGroup l).length) =
      some (l.foldl (fun p v => saveXidParam p v.1 v.2.2) .zero) := by
    have hpos : 0 < offset + (xidGroup l).length := Nat.add_pos_right _ (Nat.succ_pos _)
    rw [decodeXid, decodeXidGroups_body hfits hfew hread hpos]
    exact if_neg fun hne => hne rfl
  refine ⟨_, hdec, ?_⟩
  rw [hl]
  have hinfo : (storedParam (PATTY_AX25_PARAM_INFO_RX, needbytes (PATTY_AX25_SOCK_2_2_MAX_I_LEN <<< 3 % 2 ^ 32),
      PATTY_AX25_SOCK_2_2_MAX_I_LEN <<< 3 % 2 ^ 32)).2.2 = PATTY_AX25_SOCK_2_2_MAX_I_LEN <<< 3 := by decide
  exact ⟨congrArg Params.flags (saveXidParam_all ..), (congrArg Params.infoRx (saveXidParam_all ..)).trans hinfo,
    congrArg Params.windowRx (saveXidParam_all ..)⟩

/-- The offer is never refused, and it bounds what is sent. -/
theorem Offered.negotiate (h : Offered params) (s : Sock) :
    s.paramsNegotiate params = (none, s.negotiateValues params, params) ∧
      (s.negotiateValues params).nMaxlenTx = min s.nMaxlenTx PATTY_AX25_SOCK_2_2_MAX_I_LEN ∧
      (s.negotiateValues params).nWindowTx = min s.nWindowTx PATTY_AX25_SOCK_2_2_MAX_WINDOW ∧
      (s.negotiateValues params).nMaxlenRx = s.nMaxlenRx ∧ (s.negotiateValues params).nWindowRx = s.nWindowRx := by
  obtain ⟨hmaxlen, hwindow, -, -⟩ := negotiateValues_fields s params
  have hclasses : Sock.negotiateClasses params = none := by
    refine if_neg (not_not_intro ?_)
    rw [h.flags]
    rfl
  have hhdlc : s.negotiateHdlc params = (none, s, params) := by
    refine if_neg (not_not_intro ?_)
    rw [h.flags]
    rfl
  refine ⟨by simp only [Sock.paramsNegotiate, hclasses, hhdlc], ?_, ?_, ?_, ?_⟩
  · rw [hmaxlen, h.flags, h.infoRx]
    rfl
  · rw [hwindow, h.flags, h.windowRx]
    rfl
  · unfold Sock.negotiateValues
    simp only [apply_ite Sock.nMaxlenRx, ite_self]
  · unfold Sock.negotiateValues
    simp only [apply_ite Sock.nWindowRx, ite_self]

/-! ## A socket that connects -/

/-- A STREAM socket takes what a new one takes. -/
def Sock.Plain (s : Sock) : Prop := s.type = .stream →
  s.nMaxlenRx = PATTY_AX25_SOCK_DEFAULT_I_LEN ∧ s.nWindowRx = PATTY_AX25_SOCK_DEFAULT_WINDOW

/-- `P`, for the socket `p`. -/
def For (p : Ptr) (P : Sock → Prop) (q : Ptr) (s : Sock) : Prop := q = p → P s

/-- The socket `p`, if it is in memory, has `P`. -/
abbrev Has (p : Ptr) (P : Sock → Prop) : World → Prop := Kept (For p P) (fun _ => True) 0

theorem has_iff {p : Ptr} {P : Sock → Prop} {w : World} : Has p P w ↔ ∀ s, w.heap p = some s → P s := by
  constructor
  · exact fun h s hs => h.socks p s hs rfl
  · refine fun h => ⟨fun q s hs hq => ?_, Nat.zero_le _, trivial⟩
    subst hq
    exact h s hs

/-- What `Plain` is about. -/
def Sock.takes (s : Sock) : SockType × Nat × Nat := (s.type, s.nMaxlenRx, s.nWindowRx)

theorem Sock.Plain.congr {s s' : Sock} (hs : s.Plain) (h : s'.takes = s.takes) : s'.Plain := by
  obtain ⟨htype, hrest⟩ := Prod.mk.inj h
  obtain ⟨hmaxlen, hwindow⟩ := Prod.mk.inj hrest
  intro ht
  rw [hmaxlen, hwindow]
  exact hs (htype ▸ ht)

theorem SetsockoptParams.apply_takes (data : SetsockoptParams) (s : Sock) : (data.apply s).takes = s.takes := by
  unfold SetsockoptParams.apply
  dsimp only
  split_ifs <;> rfl

namespace M

variable {p q : Ptr} {c : Nat} {m : Mem} {w : World}

theorem plain_socketRequest (hw : w.heap p = none) :
    wp (socketRequest c m) (fun _ w' => Has p Sock.Plain w') (fun _ => True) w := by
  have hK : Has p Sock.Plain w := has_iff.mpr fun s hs => nomatch hw.symm.trans hs
  rw [socketRequest, wp_bind]
  refine (sockNew_new.and (sockNew_makes (P := Sock.Plain) (fun _ _ h => nomatch h)
    (fun _ _ _ h => nomatch h) fun _ _ _ _ _ h => ?_)).post ?_
  · simp [show sockTypeOf _ = SockType.stream from h, Sock.init]
  rintro r w₁ ⟨hnew, hmakes⟩
  have hw₁ : Has p Sock.Plain w₁ := by
    refine has_iff.mpr fun s hs => ?_
    cases r with
    | none =>
      have hheap : w₁.heap = w.heap := congrArg Core.heap hnew
      rw [hheap, hw] at hs
      cases hs
    | some r =>
      obtain ⟨rfl, s₀, fd, -, -, hcore⟩ := hnew
      have hheap : w₁.heap = Function.update w.heap w.next (some s₀) := congrArg Core.heap hcore
      by_cases hp : p = w.next
      · exact hmakes w.next rfl s (hp ▸ hs)
      · rw [hheap, Function.update_of_ne hp, hw] at hs
        cases hs
  cases r with
  | none => exact hw₁
  | some r =>
    have hdestroy : Keeping (Has p Sock.Plain) (sockDestroy r) := fun _ hw => kept_sockDestroy hw.exempt
    exact (still_sockSave.kept.bind fun _ => .ite (fun _ => kept_deref fun _ _ => kept_respond)
      fun _ => hdestroy.bind fun _ => .pure) w₁ hw₁

theorem plain_store {s s' : Sock} (hs : For p Sock.Plain q s) (h : s'.takes = s.takes) :
    Keeping (Has p Sock.Plain) (store q s') := kept_store fun hq => (hs hq).congr h

theorem sockBindIf_takes {s : Sock} {i : Nat} :
    wp (sockBindIf s i) (fun s' _ => s'.takes = s.takes) (fun _ => True) w := by
  refine sockBindIf_binds.post fun s' _ h => ?_
  obtain ⟨flags, rfl⟩ := h
  rfl

theorem plain_paramsOption : Keeping (Has p Sock.Plain) (paramsOption c q m) := by
  refine kept_deref fun s hs => ?_
  have hsame := (SetsockoptParams.ofMem m).apply_takes s
  refine (plain_store hs hsame).bind fun _ => .ite (fun _ => ?_) fun _ => kept_respond
  refine quiet_initBufs.still.kept.bind_of (fun _ => initBufs_eq) fun r hr => ?_
  obtain ⟨tx, io, slots, hr⟩ := hr
  have hbufs : r.2.takes = s.takes := by
    rw [hr]
    exact hsame
  exact (plain_store hs hbufs).bind fun _ => .ite (fun _ => kept_respond) fun _ => .pure

theorem plain_setsockoptRequest : Keeping (Has p Sock.Plain) (setsockoptRequest c m) := by
  have hoption {len size : Nat} {call : Mem → M Int} (h : ∀ m, Keeping (Has p Sock.Plain) (call m)) :
      Keeping (Has p Sock.Plain) (withOption c len size call) := by
    refine still_readOption.kept.bind fun r => ?_
    cases r with
    | none => exact .pure
    | some m => exact h m
  refine Keeps.gets.bind fun r => ?_
  cases r with
  | none => exact kept_respond
  | some q =>
    refine .ite (fun _ => hoption fun _ => plain_paramsOption) fun _ => .ite (fun _ => ?_) fun _ => kept_respond
    refine kept_deref fun s hs => .ite (fun _ => kept_respond) fun _ => hoption fun m => .get_bind fun w _ => ?_
    cases ifGet w.ifaces (SetsockoptIf.ofMem m).name with
    | none => exact kept_respond
    | some i =>
      have hsame : (if (SetsockoptIf.ofMem m).state = sockPromisc then { s with state := .promisc } else s).takes =
          s.takes := by
        rw [apply_ite Sock.takes]
        exact ite_self _
      refine quiet_sockBindIf.still.kept.bind_of (fun _ => sockBindIf_takes) fun s₂ hs₂ => ?_
      exact (plain_store hs (hs₂.trans hsame)).bind fun _ => quiet_fdWatch.still.kept.bind fun _ => kept_respond

theorem plain_bindRequest : Keeping (Has p Sock.Plain) (bindRequest c m) := by
  refine Keeps.gets.bind fun r => ?_
  cases r with
  | none => exact kept_respond
  | some q =>
    refine kept_deref fun s hs => .ite (fun _ => kept_respond) fun _ => Keeps.gets.bind fun r => ?_
    cases r with
    | some _ => exact kept_respond
    | none => exact (plain_store hs (by rfl)).bind fun _ => kept_respond

theorem plain_connectStart {s : Sock} (hs : For p Sock.Plain q s) :
    Keeping (Has p Sock.Plain) (connectStart c q s) := by
  unfold connectStart
  split
  · exact (plain_store hs (by rfl)).bind fun _ => .pure
  · refine (plain_store hs (by rfl)).bind fun _ => quiet_sendXid.still.kept.bind fun _ =>
      .ite (fun _ => ?_) fun _ => ?_
    · exact .get_bind fun _ _ => kept_respond
    · exact (plain_store hs (by rfl)).bind fun _ => .pure
  · exact .pure

theorem plain_connectRequest : Keeping (Has p Sock.Plain) (connectRequest c m) := by
  refine Keeps.gets.bind fun r => ?_
  cases r with
  | none => exact kept_respond
  | some q =>
    refine kept_deref fun s hs => .ite (fun _ => kept_respond) fun _ => .ite (fun _ => kept_respond)
      fun _ => .ite (fun _ => kept_respond) fun _ => .get_bind fun w _ => ?_
    cases connectRoute w.routes s with
    | none => exact kept_respond
    | some route =>
      refine quiet_sockBindIf.still.kept.bind_of (fun _ => sockBindIf_binds) fun s₁ hs₁ => ?_
      obtain ⟨flags, rfl⟩ := hs₁
      refine quiet_getIface.still.kept.bind fun iface => (plain_store hs (by rfl)).bind fun _ =>
        still_sockSaveRemote.kept.bind fun _ => .ite (fun _ => ?_) fun _ => .pure
      exact still_clientSaveBySock.kept.bind fun _ => .ite (fun _ => plain_connectStart hs) fun _ => .pure

end M

theorem Opened.plain {p : Ptr} {w : World} (h : Opened p w) : Has p Sock.Plain w := by
  induction h with
  | socket hnew h => exact (M.plain_socketRequest hnew).ok h
  | setsockopt _ h ih => exact (M.plain_setsockoptRequest _ ih).ok h
  | bind _ h ih => exact (M.plain_bindRequest _ ih).ok h
  | other _ h ih =>
    rw [has_iff] at ih ⊢
    rw [h]
    exact ih

/-- The socket that connects takes what a new one takes. -/
theorem Connecting.plain {s : Sock} (h : Connecting s) : s.Plain := by
  obtain ⟨p, c, m, w, r, w', hopened, hrun, hs, -⟩ := h
  exact has_iff.mp ((M.plain_connectRequest w hopened.plain).ok hrun) s hs

/-! ## The socket of the listener -/

/-- How much a socket sends and takes. -/
structure Rates where
  maxlenTx : Nat
  windowTx : Nat
  maxlenRx : Nat
  windowRx : Nat

def Sock.rates (s : Sock) : Rates := ⟨s.nMaxlenTx, s.nWindowTx, s.nMaxlenRx, s.nWindowRx⟩

/-- What it sends after the offer. -/
def Rates.bounded (r : Rates) : Rates := { r with
  maxlenTx := min r.maxlenTx PATTY_AX25_SOCK_2_2_MAX_I_LEN, windowTx := min r.windowTx PATTY_AX25_SOCK_2_2_MAX_WINDOW }

/-- As much as there can be. -/
def Rates.max : Rates := ⟨PATTY_AX25_SOCK_2_2_MAX_I_LEN, PATTY_AX25_SOCK_2_2_MAX_WINDOW,
  PATTY_AX25_SOCK_2_2_MAX_I_LEN, PATTY_AX25_SOCK_2_2_MAX_WINDOW⟩

theorem Offered.rates (h : Offered params) (s : Sock) :
    (s.negotiateValues params).rates = s.rates.bounded := by
  obtain ⟨-, hmaxlen, hwindow, hmaxlen', hwindow'⟩ := h.negotiate s
  rw [Sock.rates, hmaxlen, hwindow, hmaxlen', hwindow']
  rfl

namespace M

variable {n p : Ptr} {i c : Nat} {frame : Frame} {listener remote : Sock} {w : World}

/-- The socket for the XID of another station sends and takes as much as there can be. -/
theorem widest_xidListen (hoffer : Offered params) :
    Keeping (Has n fun s => s.rates = .max) (xidListen i frame listener params) := by
  refine Keeps.gets.bind fun c => ?_
  cases c with
  | none => exact .pure
  | some c =>
    intro w hw
    rw [wp_bind]
    refine sockNew_new.post ?_
    rintro (_ | r) w₁ hnew
    · have hheap : w₁.heap = w.heap := congrArg Core.heap hnew
      exact has_iff.mpr fun s hs => has_iff.mp hw s (by rwa [hheap] at hs)
    obtain ⟨rfl, s₀, fd, -, -, hcore⟩ := hnew
    have hheap : w₁.heap = Function.update w.heap w.next (some s₀) := congrArg Core.heap hcore
    -- nothing is said of the new socket until it is stored
    have hw₁ : Kept (Exempt w.next (For n fun s => s.rates = .max)) (fun _ => True) 0 w₁ := by
      refine ⟨fun q s hq => ?_, Nat.zero_le _, trivial⟩
      by_cases hne : q = w.next
      · exact .inl hne
      · rw [hheap, Function.update_of_ne hne] at hq
        exact .inr (hw.socks q s hq)
    dsimp only
    rw [wp_bind, wp_deref]
    refine ⟨fun s₁ _ => ?_, fun _ => trivial⟩
    rw [wp_bind]
    refine (quiet_sockBindIf.still.kept w₁ hw₁).post fun s₂ w₂ hw₂ => ?_
    obtain ⟨hneg, -⟩ := hoffer.negotiate s₂.paramsMax
    have hmax : (s₂.paramsMax.negotiateValues params).rates = .max := hoffer.rates s₂.paramsMax
    rw [hneg]
    dsimp only
    generalize s₂.paramsMax.negotiateValues params = s₃ at hmax
    have hdestroy : Keeping (Has n fun s => s.rates = .max) (do
        sockDestroy w.next
        pure (-1) : M Int) := Keeps.bind (fun _ hw => kept_sockDestroy hw.exempt) fun _ => .pure
    have hrest : Keeping (Has n fun s => s.rates = .max) (do
        if ← sockSave c w.next then
          let ret ← sendXid (s₃.saveReplyAddr frame) .response
          store w.next { s₃.saveReplyAddr frame with
            timerT1 := (s₃.saveReplyAddr frame).timerT1.start, retries := (s₃.saveReplyAddr frame).nRetry }
          pure ret
        else
          sockDestroy w.next
          pure (-1) : M Int) := by
      refine still_sockSave.kept.bind fun _ => .ite (fun _ => ?_) fun _ => hdestroy
      exact quiet_sendXid.still.kept.bind fun _ => (kept_store fun _ => hmax).bind fun _ => .pure
    rw [wp_bind, wp_store]
    exact hrest _ (hw₂.setSock fun _ => hmax)

/-- The offer bounds what the socket that connects sends. -/
theorem xidResponse_offered (p : Ptr) (remote : Sock) (hoffer : Offered params) :
    ∃ s₁ s₂, s₂.rates = remote.rates.bounded ∧
    xidResponse p remote params = (do
      let ret ← sendSabm s₁ PATTY_AX25_FRAME_POLL
      store p s₂
      pure ret) := by
  obtain ⟨hneg, -⟩ := hoffer.negotiate remote
  have hrates := hoffer.rates remote
  rw [xidResponse, hneg]
  refine ⟨_, _, ?_, rfl⟩
  have hmode : (if params.hdlc &&& PATTY_AX25_PARAM_HDLC_MODULO_128 ≠ 0 then
      { remote.negotiateValues params with mode := .sabme } else remote.negotiateValues params).rates =
        remote.rates.bounded := by
    rw [apply_ite Sock.rates]
    exact (ite_self _).trans hrates
  exact hmode

/-- `handle_xid` for the XID command of a station. -/
theorem widest_handleXid (h : CarriesXid s buf offset len) :
    Keeping (Has n fun s => s.rates = .max) (handleXid i frame buf offset len) := by
  refine quiet_getIface.still.kept.bind fun iface => .ite (fun _ => .pure) fun _ =>
    quiet_junk.still.kept.bind fun m => ?_
  obtain ⟨params, hdec, hoffer⟩ := h.offered (.ofMem m)
  rw [hdec]
  refine quiet_setErrno.still.kept.bind fun _ => Keeps.gets.bind fun r => ?_
  cases r with
  | some p =>
    refine kept_deref fun remote hremote => .ite (fun _ => quiet_replyDm.still.kept) fun _ => ?_
    obtain ⟨s₁, s₂, hrates, hrun⟩ := xidResponse_offered p remote hoffer
    rw [hrun]
    refine quiet_sendSabm.still.kept.bind fun _ => (kept_store fun hp => ?_).bind fun _ => .pure
    have hmax : remote.rates = .max := hremote hp
    rw [hmax] at hrates
    exact hrates
  | none =>
    refine Keeps.gets.bind fun r => ?_
    cases r with
    | none => exact quiet_replyDm.still.kept
    | some l =>
      exact kept_deref fun listener _ => .ite (fun _ => quiet_replyDm.still.kept) fun _ =>
        widest_xidListen hoffer

/-- `handle_xid` for the XID response to a socket that connects. -/
theorem bounded_handleXid {iface : Iface} {l : Sock} (h : CarriesXid l buf offset len)
    (hi : w.ifaces[i]? = some iface) (hmatch : iface.addrMatch frame.dest)
    (hp : w.socksRemote.lookup (hashAddrpair frame.dest frame.src) = some p) (hs : w.heap p = some s)
    (hstate : s.state = .pendingConnect) :
    wp (handleXid i frame buf offset len) (fun _ w' => Has p (fun c => c.rates = s.rates.bounded) w')
      (fun _ => True) w := by
  rw [handleXid, wp_bind, wp_getIface]
  refine ⟨fun iface' hi' => ?_, fun _ => trivial⟩
  rw [hi] at hi'
  cases hi'
  rw [wp_ite]
  refine ⟨fun hno => absurd hmatch (by simpa using hno), fun _ => ?_⟩
  rw [wp_bind]
  refine quiet_junk.core.wp (fun m w₁ hw₁ => ?_) fun _ => trivial
  obtain ⟨params, hdec, hoffer⟩ := h.offered (.ofMem m)
  rw [hdec]
  dsimp only
  have hp₁ : w₁.socksRemote.lookup (hashAddrpair frame.dest frame.src) = some p := by
    rw [show w₁.socksRemote = w.socksRemote from congrArg Core.socksRemote hw₁, hp]
  have hs₁ : w₁.heap p = some s := by
    rw [show w₁.heap = w.heap from congrArg Core.heap hw₁, hs]
  rw [wp_bind, wp_setErrno, wp_bind, wp_sockByAddrpair]
  dsimp only
  rw [hp₁]
  dsimp only
  rw [wp_bind]
  refine wp_deref_some hs₁ ?_
  rw [wp_ite]
  refine ⟨fun hne => absurd hstate hne, fun _ => ?_⟩
  obtain ⟨s₁, s₂, hrates, hrun⟩ := xidResponse_offered p s hoffer
  rw [hrun, wp_bind]
  refine wp_intro fun _ w₂ _ => ?_
  rw [wp_bind, wp_store]
  refine has_iff.mpr fun c hc => ?_
  rw [heap_setSock] at hc
  cases hc
  exact hrates

end M

/-! ## Both ends -/

variable {c l : Sock}

/-- What the two ends send and take after the exchange. -/
theorem Exchange.rates (h : Exchange s c l) : l.rates = .max ∧ c.rates = s.rates.bounded := by
  constructor
  · obtain ⟨i, frame, buf, offset, len, w, r, w', hcarries, hnew, hrun, hl⟩ := h.command
    have hnone : Has w.next (fun s => s.rates = .max) w := has_iff.mpr fun s hs => nomatch hnew.symm.trans hs
    exact has_iff.mp ((M.widest_handleXid hcarries w hnone).ok hrun) l hl
  · obtain ⟨i, frame, iface, buf, offset, len, p, w, r, w', hcarries, hi, hmatch, hp, hs, hrun, hc⟩ := h.response
    obtain ⟨-, -, -, -, -, -, -, -, -, -, hstate⟩ := h.connecting
    exact has_iff.mp ((M.bounded_handleXid hcarries hi hmatch hp hs hstate).ok hrun) c hc

/-- The listener takes what the socket that connects sends. -/
theorem Exchange.forth (h : Exchange s c l) : c.nMaxlenTx ≤ l.nMaxlenRx ∧ c.nWindowTx ≤ l.nWindowRx := by
  obtain ⟨hl, hc⟩ := h.rates
  obtain ⟨-, -, hmaxlen, hwindow⟩ := Rates.mk.inj hl
  obtain ⟨hmaxlen', hwindow', -, -⟩ := Rates.mk.inj hc
  rw [hmaxlen, hwindow, hmaxlen', hwindow']
  exact ⟨Nat.min_le_right .., Nat.min_le_right ..⟩

/-- The two ends never agree: the socket that connects takes what a new one takes, and the listener sends as
much as there can be. -/
theorem not_agrees (h : Exchange s c l) : ¬EndsAgree c l := by
  intro hagree
  obtain ⟨hl, hc⟩ := h.rates
  have hmaxlen : l.nMaxlenTx = PATTY_AX25_SOCK_2_2_MAX_I_LEN := congrArg Rates.maxlenTx hl
  have hsame : c.nMaxlenRx = s.nMaxlenRx := congrArg Rates.maxlenRx hc
  have htype : s.type = .stream := by
    obtain ⟨_, _, _, _, _, _, -, -, -, htype, -⟩ := h.connecting
    exact htype
  obtain ⟨hplain, -⟩ := h.connecting.plain htype
  have hle := hagree.maxlen'
  rw [hmaxlen, hsame, hplain] at hle
  exact absurd hle (by decide)

/-! ## A client that connects with the defaults -/

/-- The station that connects, with a client. -/
def callingStation : World := (World.start routedInterface).after [⟨.accept 5, .allOk⟩]

/-- The structure of a request. -/
def Request.struct (r : Request) : Mem := .ofBytes r.body fun _ => 0

/-- The other station. -/
def calledAddr : Addr := ⟨fun _ => 0x84, 0x60⟩

/-- The client asks for a socket. -/
def openedStation : World :=
  ((M.socketRequest 5 (Request.socket 0xf0 0).struct).after callingStation).getD .bare

/-- It asks for a connection. -/
def connectedStation : World :=
  ((M.connectRequest 5 (Request.connect 3 calledAddr).struct).after openedStation).getD .bare

/-- The other station, where a client listens. -/
def calledStation : World :=
  (World.start { oneInterface with ifaces := [{ sampleIface with addr := calledAddr }] }).after
  [⟨.accept 5, .allOk⟩,
   ⟨.write 5 (Request.socket 0xf0 0).bytes, .allOk⟩, ⟨.client 5, .allOk⟩,
   ⟨.write 5 (Request.bind 3 calledAddr).bytes, .allOk⟩, ⟨.client 5, .allOk⟩,
   ⟨.write 5 (Request.listen 3).bytes, .allOk⟩, ⟨.client 5, .allOk⟩]

/-- The socket that connects. -/
def callingSock : Sock := (connectedStation.heap 0).getD .zero

/-- The octets of the offer of a socket. -/
def Sock.offer (s : Sock) : Bytes := xidGroup (xidValues (M.xidParams s))

/-- `handle_xid` for the offer of a socket in a frame from one station to the other. -/
def takeOffer (s : Sock) (dest src : Addr) (cr : FrameCr) : M Int :=
  M.handleXid 0 { Frame.blank with type := .xid, dest, src, cr } (.ofBytes s.offer fun _ => 0) 0 s.offer.length

/-- It has taken the XID command. -/
def answeringStation : World :=
  ((takeOffer callingSock calledAddr sampleIface.addr .command).after calledStation).getD .bare

/-- The socket of the listener. -/
def calledSock : Sock := (answeringStation.heap 1).getD .zero

/-- The first station has taken the XID response. -/
def agreedStation : World :=
  ((takeOffer calledSock sampleIface.addr calledAddr .response).after connectedStation).getD .bare

/-- What became of the socket that connects. -/
def agreedSock : Sock := (agreedStation.heap 0).getD .zero

theorem carries_offer (s : Sock) : CarriesXid s (.ofBytes s.offer fun _ => 0) 0 s.offer.length :=
  ⟨s.offer, s.encodeXid_xidParams.1, Mem.read_ofBytes _, (Nat.zero_add _).symm⟩

theorem getD_of_isSome {o : Option Sock} (h : o.isSome) : o = some (o.getD .zero) := by
  obtain ⟨s, hs⟩ := Option.isSome_iff_exists.mp h
  rw [hs]
  rfl

theorem connecting_calling : Connecting callingSock := by
  obtain ⟨r, hsocket⟩ := after_getD (m := M.socketRequest 5 (Request.socket 0xf0 0).struct) (s := callingStation)
    (d := .bare) (by decide +kernel)
  obtain ⟨r', hconnect⟩ := after_getD (m := M.connectRequest 5 (Request.connect 3 calledAddr).struct)
    (s := openedStation) (d := .bare) (by decide +kernel)
  have hnew : callingStation.heap 0 = none := Option.isNone_iff_eq_none.mp (by decide +kernel)
  have hs : openedStation.heap 0 = some ((openedStation.heap 0).getD .zero) := getD_of_isSome (by decide +kernel)
  have hopened : Opened 0 openedStation := .socket hnew hsocket hs (by decide +kernel)
  exact ⟨0, 5, _, openedStation, r', connectedStation, hopened, hconnect, getD_of_isSome (by decide +kernel),
    by decide +kernel, by decide +kernel⟩

theorem exchange_calling : Exchange callingSock agreedSock calledSock where
  connecting := connecting_calling
  command := by
    obtain ⟨r, hrun⟩ := after_getD (m := takeOffer callingSock calledAddr sampleIface.addr .command)
      (s := calledStation) (d := .bare) (by decide +kernel)
    have hnext : calledStation.next = 1 := by decide +kernel
    have hnew : calledStation.heap calledStation.next = none := Option.isNone_iff_eq_none.mp (by decide +kernel)
    refine ⟨0, _, _, 0, _, calledStation, r, answeringStation, carries_offer _, hnew, hrun, ?_⟩
    rw [hnext]
    exact getD_of_isSome (by decide +kernel)
  response := by
    obtain ⟨r, hrun⟩ := after_getD (m := takeOffer calledSock sampleIface.addr calledAddr .response)
      (s := connectedStation) (d := .bare) (by decide +kernel)
    obtain ⟨iface, hi⟩ := Option.isSome_iff_exists.mp
      (show (connectedStation.ifaces[0]?).isSome by decide +kernel)
    have hmatch : ∀ iface ∈ connectedStation.ifaces[0]?, iface.addrMatch sampleIface.addr := by decide +kernel
    exact ⟨0, _, iface, _, 0, _, 0, connectedStation, r, agreedStation, carries_offer _, hi, hmatch iface hi,
      by decide +kernel, getD_of_isSome (by decide +kernel), hrun, getD_of_isSome (by decide +kernel)⟩

/-- They do not agree. -/
theorem not_agrees_calling : ¬EndsAgree agreedSock calledSock := not_agrees exchange_calling

theorem not_endsAgree : ¬∀ s c l, Exchange s c l → EndsAgree c l := by
  intro h
  have hle := (h _ _ _ exchange_calling).maxlen'
  exact absurd hle (by decide +kernel)

end Patty
