import Patty.Link.Turn
import Patty.Station.Stream

/-! # RAW sockets that send (`server.c`)

`handle_sock_raw` takes the KISS frames out of what the client of a RAW socket has written to its pty and sends them on
the interface of the socket. The decoder puts the octets of a frame into the transmit buffer of the interface, and
leaves the beginning of a frame there when a read ends inside it; the buffer is the interface's, not the socket's. As
long as nothing else writes over it meanwhile, the frames are sent as they were written, whatever the reads are
(`relay_run`). -/

namespace Patty

open Prog Chunks

/-! ## The system -/

/-- A RAW socket with its server, what was read from its pty, and what was sent in its turns. -/
structure Relay where
  world : World
  reads : List Bytes
  relayed : List (Nat × Bytes)

/-- A turn of the socket, or whatever else the server does. -/
inductive RelayInput
  | turn (t : Turn)
  | other (w : World)

/-- What reading from the pty gives a decoder. -/
def Turn.octets (t : Turn) : List Bytes :=
  match t.inp with
  | .ok bs => [bs.take PATTY_KISS_TNC_BUFSZ]
  | .error _ => []

/-- What the RAW socket `p` reads in the turn. -/
def World.rawReads (w : World) (p : Ptr) (t : Turn) : List Bytes :=
  if (w.heap p).any fun s => t.ready && w.fdsWatch s.fd then t.octets else []

/-- A step after which the server goes on. What is not a turn of the socket leaves it alone. -/
inductive RelayStep (p : Ptr) (R : Relay) : RelayInput → Relay → Prop
  | turn {t : Turn} {r : Int} {w' : World} :
    M.handleSock p t.elapsed t.ready t.inp { R.world with sys := t.sys } = .ok (r, w') → 0 ≤ r →
    RelayStep p R (.turn t)
      ⟨w', R.reads ++ R.world.rawReads p t, R.relayed ++ w'.sent.drop R.world.sent.length⟩
  | other {w' : World} : w'.heap p = R.world.heap p → RelayStep p R (.other w') { R with world := w' }

/-- No driver drops a frame without an error, the client does not close its end, and what else happens leaves the MTU of
the interface and the octets of the transmit buffer that the decoder of the socket has filled. -/
def SparesBuf (p : Ptr) (R : Relay) : RelayInput → Prop
  | .turn t => (∀ a ∈ t.sys.send, a ≠ .ignored) ∧ t.inp ≠ .ok []
  | .other w' => ∀ s tnc i iface, R.world.heap p = some s → s.raw = some tnc → s.iface = some i →
      R.world.ifaces[i]? = some iface → ∃ iface', w'.ifaces[i]? = some iface' ∧ iface'.mtu = iface.mtu ∧
        ∀ a < tnc.offsetO, iface'.txBuf a = iface.txBuf a

/-- The RAW socket `p` is bound to the interface `i`, whose MTU is `mtu`, and its decoder is new. -/
structure Relays (p : Ptr) (i mtu : Nat) (R : Relay) : Prop where
  sock : ∃ s junk, R.world.heap p = some s ∧ s.type = .raw ∧ s.iface = some i ∧ s.raw = some (.new junk)
  iface : ∃ iface, R.world.ifaces[i]? = some iface ∧ iface.mtu = mtu
  reads : R.reads = []
  relayed : R.relayed = []

/-! ## Sending a frame -/

/-- The MTU and the transmit buffer of each interface. -/
def World.txBufs (w : World) : List (Nat × Mem) := w.ifaces.map fun iface => (iface.mtu, iface.txBuf)

namespace M

variable {w : World} {p : Ptr} {i fuel : Nat} {s : Sock} {tnc tnc' : Tnc} {iface : Iface} {out' : Mem} {ps : List Bytes}
  {frame bs : Bytes} {t : Patty.Turn}

theorem txBufs_unseen : Unseen World.txBufs fun _ => True where
  errno _ _ := rfl
  sys _ _ := rfl
  log _ _ _ := rfl
  stats w i _ := map_modify_same (fun iface : Iface => (iface.mtu, iface.txBuf)) (fun _ => by rfl) w.ifaces i

/-- The copies of a frame leave what the drivers are to answer. -/
theorem leaves_ifSent : Leaves (fun w => w.sys.send) (ifSent i iface bs) := by
  have hcopy : ∀ fd ∈ iface.promiscFds.keys, Leaves (fun w => w.sys.send) (handlePromiscFrame bs fd) := by
    refine fun fd _ => Leaves.bind ((leaves_answer fun _ _ => rfl).bind fun a => ?_) fun _ => .ite .pure .pure
    cases a with
    | none => exact .bind (.modify (by intro; rfl)) fun _ => .pure
    | some e => exact .bind (.modify (by intro; rfl)) fun _ => .pure
  exact Leaves.bind (.modify fun _ => rfl) fun _ => (Leaves.forEach hcopy).bind fun _ => .ite .pure .pure

/-- A frame is handed to the driver, if it does not fail and is not to drop it. -/
theorem ifSend_relays (hsys : ∀ a ∈ w.sys.send, a ≠ .ignored) : wp (ifSend i frame)
    (fun r w' => w'.heap = w.heap ∧ w'.txBufs = w.txBufs ∧ (0 ≤ r → w'.sent = w.sent ++ [(i, frame)]) ∧
      ∀ a ∈ w'.sys.send, a ≠ .ignored) (fun _ => True) w := by
  have hsent {w₁ : World} {iface : Iface} (h₁ : w₁.sent = w.sent) (hsys₁ : ∀ a ∈ w₁.sys.send, a ≠ .ignored) :
      wp (do emit (.ifSend i frame); ifSent i iface frame) (fun r w' => (0 ≤ r → w'.sent = w.sent ++ [(i, frame)]) ∧
        ∀ a ∈ w'.sys.send, a ≠ .ignored) (fun _ => True) w₁ := by
    rw [wp_bind]
    refine ((silent_ifSent.wp (fun _ _ h => h) fun _ => trivial).and
      (leaves_ifSent.wp (fun _ _ h => h) fun _ => trivial)).post ?_
    rintro r w' ⟨hlog, hsend⟩
    refine ⟨fun _ => ?_, hsend ▸ hsys₁⟩
    rw [hlog, ← h₁]
    simp [World.sent]
  have hrelays : wp (ifSend i frame) (fun r w' => (0 ≤ r → w'.sent = w.sent ++ [(i, frame)]) ∧
      ∀ a ∈ w'.sys.send, a ≠ .ignored) (fun _ => True) w := by
    rw [ifSend, wp_bind, wp_getIface]
    refine ⟨fun iface _ => ?_, fun _ => trivial⟩
    rw [wp_bind, wp_answer]
    refine ⟨fun _ => hsent rfl hsys, fun a as has => ?_⟩
    have hrest : ∀ b ∈ as, b ≠ SendOutcome.ignored := fun b hb => hsys b (has ▸ List.mem_cons_of_mem _ hb)
    cases a with
    | sent => exact hsent rfl hrest
    | ignored => exact absurd rfl (hsys _ (has ▸ List.mem_cons_self))
    | failed e => exact ⟨fun h => absurd h (by decide), hrest⟩
  refine ((hrelays.and (quiet_ifSend.core.wp (fun _ _ h => h) fun _ => trivial)).and
    ((txBufs_unseen.ifSend (fun _ _ => trivial) fun _ _ => trivial).wp (fun _ _ h => h) fun _ => trivial)).post ?_
  rintro r w' ⟨⟨⟨hr, hsend⟩, hcore⟩, hbufs⟩
  exact ⟨congrArg Core.heap hcore, hbufs, hr, hsend⟩

/-- The interface is that of the buffers. -/
theorem iface_of_txBufs {w' : World} (h : w'.txBufs = w.txBufs) (hi : w.ifaces[i]? = some iface) :
    ∃ iface', w'.ifaces[i]? = some iface' ∧ iface'.mtu = iface.mtu ∧ iface'.txBuf = iface.txBuf := by
  have hget : w'.txBufs[i]? = some (iface.mtu, iface.txBuf) := by
    rw [h, World.txBufs, List.getElem?_map, hi]
    rfl
  rw [World.txBufs, List.getElem?_map] at hget
  obtain ⟨iface', hi', heq⟩ := Option.map_eq_some_iff.mp hget
  obtain ⟨hmtu, hbuf⟩ := Prod.mk.inj heq
  exact ⟨iface', hi', hmtu, hbuf⟩

/-! ## A turn of the socket -/

/-- The loop of `handle_sock_raw` sends what the decoder gives it. -/
theorem sendRaw_relays {r : Int} {w' : World} (hp : w.heap p = some s) (hraw : s.raw = some tnc)
    (hi : w.ifaces[i]? = some iface) (hsys : ∀ a ∈ w.sys.send, a ≠ .ignored)
    (hloop : Tnc.ifaceLoop iface.mtu fuel tnc iface.txBuf = .ok (true, ps, tnc', out'))
    (h : sendRaw p i fuel w = .ok (r, w')) (hr : 0 ≤ r) :
    w'.heap p = some { s with raw := some tnc' } ∧ w'.sent = w.sent ++ ps.map (i, ·) ∧
      ∃ iface', w'.ifaces[i]? = some iface' ∧ iface'.mtu = iface.mtu ∧ iface'.txBuf = out' := by
  induction fuel generalizing w s tnc iface ps with
  | zero =>
    cases h
    cases hloop
    refine ⟨?_, (List.append_nil _).symm, iface, hi, rfl, rfl⟩
    rw [hp, ← hraw]
  | succ fuel ih =>
    rw [sendRaw, bind_ok (deref_ok hp)] at h
    simp only [hraw] at h
    obtain ⟨iface₀, w₀, hget, h₁⟩ := bind_eq_ok.mp h
    obtain ⟨hi₀, hw₀⟩ := getIface_ok hget
    subst hw₀
    cases hi.symm.trans hi₀
    obtain ⟨⟨x, tnc₁, out₁⟩, w₁, hlift, h₂⟩ := bind_eq_ok.mp h₁
    obtain ⟨hdrain, hw₁⟩ := lift_ok hlift
    subst hw₁
    obtain ⟨_, w₂, hset, h₃⟩ := bind_eq_ok.mp h₂
    cases hset
    obtain ⟨_, w₃, hstore, h₄⟩ := bind_eq_ok.mp h₃
    cases hstore
    dsimp only at h₄
    have hi₃ : (w₁.ifaces.modify i fun iface => { iface with txBuf := out₁ })[i]? =
        some { iface with txBuf := out₁ } := by
      rw [List.getElem?_modify, hi]
      simp
    split_ifs at h₄ with hx hpending
    · cases h₄
      exact absurd hr (by decide)
    · cases h₄
      rw [Bool.not_eq_true'] at hpending
      rw [Tnc.ifaceLoop_idle hdrain hx hpending] at hloop
      cases hloop
      exact ⟨heap_setSock, (List.append_nil _).symm, _, hi₃, rfl, rfl⟩
    · have hpending : tnc₁.pending = true := by simpa using hpending
      obtain ⟨ps', rfl, hloop'⟩ := Tnc.ifaceLoop_pending hdrain hx hpending hloop
      obtain ⟨_, w₄, hstore, h₅⟩ := bind_eq_ok.mp h₄
      cases hstore
      obtain ⟨n, w₅, hsend, h₆⟩ := bind_eq_ok.mp h₅
      split_ifs at h₆ with hn
      · cases h₆
        exact absurd hr (by decide)
      · obtain ⟨hheap, hbufs, hsent, hsys₅⟩ := (ifSend_relays (by exact hsys)).ok hsend
        obtain ⟨iface₅, hi₅, hmtu₅, hbuf₅⟩ := iface_of_txBufs hbufs hi₃
        have hp₅ : w₅.heap p = some { s with raw := some tnc₁.flush.2 } := (congrFun hheap p).trans heap_setSock
        obtain ⟨hp', hsent', iface', hi', hmtu', hbuf'⟩ :=
          ih hp₅ rfl hi₅ hsys₅ (by rw [hmtu₅, hbuf₅]; exact hloop') h₆
        refine ⟨hp', ?_, iface', hi', hmtu'.trans hmtu₅, hbuf'⟩
        rw [hsent', hsent (Int.not_lt.mp hn), List.append_assoc]
        rfl

/-- The decoder of the socket `s` has found frames among the `payloads`, which were sent on the interface `i` since `w`,
and is to find the others in `ms`. -/
def Relayed (p : Ptr) (i mtu : Nat) (s : Sock) (ms : List (UInt8 × Bool)) (payloads : List Bytes) (d : Dec)
    (w w' : World) : Prop :=
  ∃ tnc iface ps more, w'.heap p = some { s with raw := some tnc } ∧ w'.sent = w.sent ++ ps.map (i, ·) ∧
    w'.ifaces[i]? = some iface ∧ iface.mtu = mtu ∧ tnc.Fits mtu ∧
    Dec.run mtu false false (tnc.dec iface.txBuf) ms = some (more, d) ∧ payloads = ps ++ more

/-- A turn sends what the decoder finds in what it reads. -/
theorem handleSock_relays {r : Int} {w' : World} {ms : List (UInt8 × Bool)} {payloads : List Bytes} {d : Dec}
    (hp : w.heap p = some s) (htype : s.type = .raw) (hraw : s.raw = some tnc) (hiface : s.iface = some i)
    (hi : w.ifaces[i]? = some iface) (hsys : ∀ a ∈ w.sys.send, a ≠ .ignored) (hinp : t.inp ≠ .ok [])
    (hfits : tnc.Fits iface.mtu)
    (hrun : Dec.run iface.mtu false false (tnc.dec iface.txBuf) ((w.rawReads p t).flatMap marks ++ ms) =
      some (payloads, d))
    (h : handleSock p t.elapsed t.ready t.inp w = .ok (r, w')) (hr : 0 ≤ r) :
    Relayed p i iface.mtu s ms payloads d w w' := by
  have hreads : w.rawReads p t = if t.ready && w.fdsWatch s.fd then t.octets else [] := by
    rw [World.rawReads, hp]
    rfl
  rw [handleSock, bind_ok (deref_ok hp)] at h
  simp only [htype] at h
  rw [handleSockRaw, bind_ok (deref_ok hp), fdIsset, bind_run, gets_run] at h
  dsimp only at h
  rw [hreads] at hrun
  cases hready : (t.ready && w.fdsWatch s.fd) with
  | false =>
    rw [hready] at h hrun
    cases h
    exact ⟨tnc, iface, [], payloads, hraw ▸ hp, (List.append_nil _).symm, hi, rfl, hfits, hrun, rfl⟩
  | true =>
    rw [hready, if_pos rfl, Turn.octets] at hrun
    rw [hready] at h
    simp only [hraw, hiface] at h
    cases hok : t.inp with
    | error e =>
      rw [hok] at h
      cases h
      exact absurd hr (by decide)
    | ok octets =>
      cases octets with
      | nil => exact absurd hok hinp
      | cons c octets =>
        rw [hok] at h hrun
        obtain ⟨_, w₁, hstore, h₁⟩ := bind_eq_ok.mp h
        cases hstore
        have hne : (c :: octets).take PATTY_KISS_TNC_BUFSZ ≠ [] := List.cons_ne_nil c _
        rw [List.flatMap_singleton, ← tnc.fill_dec] at hrun
        obtain ⟨ps, tnc', out', more, hloop, hfits', hmore, hps⟩ := @Tnc.ifaceLoop_run iface.mtu
          (tnc.fill ((c :: octets).take PATTY_KISS_TNC_BUFSZ)) iface.txBuf ms payloads d (PATTY_KISS_TNC_BUFSZ + 1)
          (Tnc.fill_fits hfits (List.length_take_le ..))
          (by rw [Tnc.fill_unread]; exact Nat.lt_succ_of_le (List.length_take_le ..))
          (fun hnil => absurd (Tnc.fill_unread.symm.trans hnil) hne) (by rw [Tnc.fill_unread]; exact hrun)
        obtain ⟨hp', hsent, iface', hi', hmtu, hbuf⟩ := sendRaw_relays heap_setSock rfl hi hsys hloop h₁ hr
        refine ⟨tnc', iface', ps, more, ?_, hsent, hi', hmtu, hfits', hbuf ▸ hmore, hps⟩
        rw [hp', hiface]

end M

/-! ## Runs -/

/-- What was sent in the turns of the socket follows what was read from its pty. -/
def Relay.Tracks (p : Ptr) (i mtu : Nat) (R : Relay) : Prop :=
  ∀ ms payloads d, Dec.run mtu false false .fresh (R.reads.flatMap marks ++ ms) = some (payloads, d) →
    ∃ s tnc iface ps more, R.world.heap p = some s ∧ s.type = .raw ∧ s.iface = some i ∧ s.raw = some tnc ∧
      R.world.ifaces[i]? = some iface ∧ iface.mtu = mtu ∧ tnc.Fits mtu ∧
      Dec.run mtu false false (tnc.dec iface.txBuf) ms = some (more, d) ∧ R.relayed = ps.map (i, ·) ∧
      payloads = ps ++ more

variable {p : Ptr} {i mtu : Nat} {R R' : Relay} {x : RelayInput}

theorem tracks_relays (h : Relays p i mtu R) : R.Tracks p i mtu := by
  intro ms payloads d hrun
  obtain ⟨s, junk, hp, htype, hiface, hraw⟩ := h.sock
  obtain ⟨iface, hi, hmtu⟩ := h.iface
  rw [h.reads, List.flatMap_nil, List.nil_append] at hrun
  exact ⟨s, .new junk, iface, [], payloads, hp, htype, hiface, hraw, hi, hmtu, new_fits junk mtu, hrun, h.relayed, rfl⟩

theorem tracks_relayStep (T : R.Tracks p i mtu) (hC : SparesBuf p R x) (h : RelayStep p R x R') :
    R'.Tracks p i mtu := by
  intro ms payloads d hstream
  cases h with
  | other hsame =>
    -- the beginning of a frame is still in the buffer
    obtain ⟨s, tnc, iface, ps, more, hp, htype, hiface, hraw, hi, hmtu, hfits, hmore, hrelayed, hps⟩ :=
      T ms payloads d hstream
    obtain ⟨iface', hi', hmtu', hbuf⟩ := hC s tnc i iface hp hraw hiface hi
    have hdec : tnc.dec iface'.txBuf = tnc.dec iface.txBuf := by
      rw [Tnc.dec, Tnc.dec, Mem.read_congr fun a _ ha => hbuf a (by omega)]
    exact ⟨s, tnc, iface', ps, more, hsame.trans hp, htype, hiface, hraw, hi', hmtu'.trans hmtu, hfits, hdec ▸ hmore,
      hrelayed, hps⟩
  | @turn t r w' hrun hr =>
    rw [List.flatMap_append, List.append_assoc] at hstream
    obtain ⟨s, tnc, iface, ps, more, hp, htype, hiface, hraw, hi, rfl, hfits, hmore, hrelayed, rfl⟩ :=
      T _ payloads d hstream
    obtain ⟨tnc', iface', ps', more', hp', hsent, hi', hmtu', hfits', hmore', rfl⟩ :=
      M.handleSock_relays (w := { R.world with sys := t.sys }) hp htype hraw hiface hi hC.1 hC.2 hfits hmore hrun hr
    refine ⟨_, tnc', iface', ps ++ ps', more', hp', htype, hiface, rfl, hi', hmtu', hfits', hmore', ?_,
      (List.append_assoc ..).symm⟩
    have hnew : w'.sent.drop R.world.sent.length = ps'.map (i, ·) := by
      rw [hsent]
      exact List.drop_left
    rw [hnew, hrelayed, List.map_append]

/-- KISS carries the frames of a RAW socket unchanged: in every run that spares the transmit buffer, what was sent in
its turns is, one by one and in order, what its client has written, as far as it was read. -/
theorem relay_run (h0 : Relays p i mtu R) (h : Run (RelayStep p) (SparesBuf p) R R') :
    ∀ payloads rest, (∀ f ∈ payloads, f ≠ [] ∧ f.length < mtu) → R'.reads.flatten ++ rest = payloads.flatMap kissFrame →
      ∃ ps, R'.relayed = ps.map (i, ·) ∧ ps <+: payloads ∧ (rest = [] → ps = payloads) := by
  intro payloads rest hpay hstream
  have T : R'.Tracks p i mtu :=
    h.invariant (fun _ _ _ hT hC hstep => tracks_relayStep hT hC hstep) (tracks_relays h0)
  have hms : (R'.reads.flatMap marks ++ marks rest).map (·.1) = payloads.flatMap kissFrame := by
    rw [List.map_append, flatMap_marks, marks_fst, hstream]
  obtain ⟨d, hrun⟩ := @Dec.run_sent mtu false .fresh _ payloads rfl rfl hms hpay
  obtain ⟨s, tnc, iface, ps, more, -, -, -, -, -, -, -, hmore, hrelayed, rfl⟩ := T _ payloads d hrun
  refine ⟨ps, hrelayed, List.prefix_append ps more, fun hrest => ?_⟩
  subst hrest
  cases hmore
  exact (List.append_nil _).symm

/-! ## Runs on given reads -/

/-- Turns of the RAW socket `p`, one after the other. -/
def Relay.turns (p : Ptr) : Relay → List Turn → Option Relay
  | R, [] => some R
  | R, t :: ts =>
    match M.handleSock p t.elapsed t.ready t.inp { R.world with sys := t.sys } with
    | .ok (r, w') =>
      if 0 ≤ r then
        turns p ⟨w', R.reads ++ R.world.rawReads p t, R.relayed ++ w'.sent.drop R.world.sent.length⟩ ts
      else none
    | .error _ => none

theorem run_turns_relay {ts : List Turn} (hC : ∀ t ∈ ts, (∀ a ∈ t.sys.send, a ≠ .ignored) ∧ t.inp ≠ .ok [])
    (h : R.turns p ts = some R') : Run (RelayStep p) (SparesBuf p) R R' := by
  induction ts generalizing R with
  | nil =>
    cases h
    exact .refl
  | cons t ts ih =>
    rw [List.forall_mem_cons] at hC
    rw [Relay.turns] at h
    split at h
    · next r w' hrun =>
      split_ifs at h with hr
      have hstep := RelayStep.turn (R := R) hrun hr
      have hspares : SparesBuf p R (.turn t) := hC.1
      exact (Run.single hspares hstep).trans (ih hC.2 h)
    · cases h

/-- A RAW socket that is bound to the interface. -/
def rawSock : Sock :=
  { Sock.zero with type := .raw, state := .established, raw := some (.new fun _ => 0), iface := some 0, fd := 3 }

def rawRelay : Relay := ⟨.withSock rawSock, [], []⟩

/-- The client has written these octets. -/
def rawTurn (bs : Bytes) : Turn := ⟨⟨0, 0⟩, true, .ok bs, .allOk⟩

/-- A frame that arrives in two reads. -/
def byteTurns : List Turn := [rawTurn ((kissFrame [0x61]).take 3), rawTurn ((kissFrame [0x61]).drop 3)]

theorem relay_run_byte : ∃ R, Run (RelayStep 0) (SparesBuf 0) rawRelay R ∧
    R.reads = [(kissFrame [0x61]).take 3, (kissFrame [0x61]).drop 3] ∧ R.relayed = [(0, [0x61])] := by
  obtain ⟨R, hR⟩ := Option.isSome_iff_exists.mp (show (rawRelay.turns 0 byteTurns).isSome by decide +kernel)
  have hreads : ∀ R ∈ rawRelay.turns 0 byteTurns,
      R.reads = [(kissFrame [0x61]).take 3, (kissFrame [0x61]).drop 3] := by decide +kernel
  have hturns : ∀ t ∈ byteTurns, (∀ a ∈ t.sys.send, a ≠ .ignored) ∧ t.inp ≠ .ok [] := by
    intro t ht
    simp only [byteTurns, List.mem_cons, List.not_mem_nil, or_false] at ht
    obtain rfl | rfl := ht
    all_goals exact ⟨fun _ h => absurd h List.not_mem_nil, by decide⟩
  have hrun := run_turns_relay hturns hR
  have h0 : Relays 0 0 sampleIface.mtu rawRelay :=
    ⟨⟨rawSock, fun _ => 0, M.heap_setSock, rfl, rfl, rfl⟩, ⟨sampleIface, rfl, rfl⟩, rfl, rfl⟩
  have hstream : R.reads.flatten ++ [] = [[0x61]].flatMap kissFrame := by
    rw [hreads R hR]
    decide
  obtain ⟨ps, hrelayed, -, hall⟩ := relay_run h0 hrun [[0x61]] [] (by decide) hstream
  refine ⟨R, hrun, hreads R hR, ?_⟩
  rw [hrelayed, hall rfl]
  rfl

end Patty
