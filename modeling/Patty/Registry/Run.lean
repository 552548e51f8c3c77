import Patty.Calls
import Patty.ClientStream
import Patty.Registry.Frames

/-! # Registrations

`bind` looks whether a socket listens on the address, but the table is filled by `listen`, and `listen`
and `connect` overwrite the entry that is there. So in every run in which clients make STREAM sockets,
bind them, listen and connect, and XID and SABM frames come in, every socket that listens, waits for a
connection or has one is found through the tables, and there is only one of a kind, as long as no
request makes a second one (`registered_run`). -/

namespace Patty

open Prog Registry

/-- A request for a STREAM socket, or to bind it, to listen or to connect. -/
def opening (call : Nat) (m : Mem) : Bool :=
  (call = PATTY_CLIENT_SOCKET && (SocketRequest.ofMem m).type = 0) || call = PATTY_CLIENT_BIND ||
    call = PATTY_CLIENT_LISTEN || call = PATTY_CLIENT_CONNECT

/-- The frame in the `len` octets at `buf`, if it can be decoded, is an XID, SABM or SABME. -/
def openingFrame (buf : Mem) (len : Nat) : Bool :=
  match decodeAddress .blank buf len with
  | none => true
  | some (frame, offset) => [FrameFormat.normal, .extended].all fun format =>
    match decodeControl frame format buf offset len with
    | none => true
    | some (frame, _) => frame.type = .xid || frame.type = .sabm || frame.type = .sabme

/-- The inputs: clients connect, write, and ask to open connections, and frames ask for the same. -/
def asksToOpen (w : World) (inp : Input) : Bool :=
  match inp.event with
  | .accept _ | .write .. => true
  | .client c => ({ w with sys := inp.sys }.asks c).any fun (x : Nat × Mem × World) =>
    opening x.1 x.2.1
  | .frame _ buf len => openingFrame buf len
  | .sock .. => false

/-- A step of the server with such an input. -/
def OpenStep (w : World) (inp : Input) (w' : World) : Prop := asksToOpen w inp ∧ w.Step inp w'

/-- No socket listens on the address of the one that is to listen. -/
def ListensAlone (w : World) (fd : Nat) : Prop :=
  ∀ p ∈ w.socksByFd.lookup fd, ∀ s ∈ w.heap p, s.localAddr.isSet → w.registry.NoListener p s.localKey

/-- No socket belongs to the pair of addresses that the one that is to connect would have. -/
def ConnectsAlone (w : World) (fd : Nat) (peer : Addr) : Prop :=
  ∀ p ∈ w.socksByFd.lookup fd, ∀ s ∈ w.heap p, s.state ≠ .listening → s.state ≠ .established →
    ∀ route ∈ connectRoute w.routes s, ∀ iface ∈ w.ifaces[route.iface]?, w.registry.NoPair p
      (hashAddrpair (if s.localAddr.isSet then s.localAddr else iface.addr) peer)

/-- The socket to be bound, if it has no address, does not belong to a pair of addresses. -/
def BindsFree (w : World) (fd : Nat) : Prop :=
  ∀ p ∈ w.socksByFd.lookup fd, ∀ s ∈ w.heap p, ¬s.localAddr.isSet → ¬s.state.connecting

/-- The request does not make a second socket of a kind. -/
structure MakesNoSecond (call : Nat) (m : Mem) (w : World) : Prop where
  bind : call = PATTY_CLIENT_BIND → BindsFree w (BindRequest.ofMem m).fd
  listen : call = PATTY_CLIENT_LISTEN → ListensAlone w (leValue (m.read 0 4))
  connect : call = PATTY_CLIENT_CONNECT →
    ConnectsAlone w (ConnectRequest.ofMem m).fd (ConnectRequest.ofMem m).peer

/-- The request that is read in the turn of a client does not make a second socket of a kind. -/
def NoSecond (w : World) (inp : Input) : Prop :=
  ∀ c, inp.event = .client c → ∀ x ∈ { w with sys := inp.sys }.asks c, MakesNoSecond x.1 x.2.1 x.2.2

namespace M

variable {w : World} {c : Nat}

theorem callRequest_settled {call : Nat} {m : Mem} (hopen : opening call m)
    (hno : MakesNoSecond call m w) (h : w.registry.Registered) :
    wp (callRequest call c m) Settled (fun _ => True) w := by
  simp only [opening, Bool.or_eq_true, Bool.and_eq_true, decide_eq_true_eq] at hopen
  rcases hopen with ((⟨rfl, htype⟩ | rfl) | rfl) | rfl
  · exact socketRequest_settled htype h
  · exact bindRequest_settled h fun p s hp hs => hno.bind rfl p hp s hs
  · exact listenRequest_settled h fun p s hp hs => hno.listen rfl p hp s hs
  · exact connectRequest_settled h fun p s route iface hp hs hl he hr hi =>
      hno.connect rfl p hp s hs hl he route hr iface hi

theorem openingFrame_type {buf : Mem} {len offset offset' : Nat} {frame frame' : Frame}
    {format : FrameFormat} (h : openingFrame buf len)
    (haddr : decodeAddress .blank buf len = some (frame, offset))
    (hcontrol : decodeControl frame format buf offset len = some (frame', offset')) :
    frame'.type = .xid ∨ frame'.type = .sabm ∨ frame'.type = .sabme := by
  have hformat : format ∈ [FrameFormat.normal, .extended] := by cases format <;> simp
  rw [openingFrame, haddr] at h
  have htype := List.all_eq_true.mp h format hformat
  rw [hcontrol] at htype
  simpa only [Bool.or_eq_true, decide_eq_true_eq, or_assoc] using htype

theorem handleFrame_registered {i : Nat} {buf : Mem} {len : Nat} (hframe : openingFrame buf len)
    (h : w.registry.Registered) :
    wp (handleFrame i buf len) (fun _ w' => w'.registry.Registered) (fun _ => True) w := by
  unfold handleFrame
  cases haddr : decodeAddress .blank buf len with
  | none => exact registered_leaves (quiet_ifDrop.registry.bind fun _ => .pure) h
  | some x =>
    obtain ⟨frame, offset⟩ := x
    dsimp only
    have hformat {sock : Option Ptr} : Leaves World.registry (formatOf sock) := by
      cases sock with
      | none => exact .pure
      | some p => exact quiet_deref.registry.bind fun _ => .pure
    rw [wp_bind, wp_sockByAddrpair, wp_bind]
    refine hformat.wp (fun format w₁ hw₁ => ?_) fun _ => trivial
    have h₁ : w₁.registry.Registered := hw₁ ▸ h
    cases hcontrol : decodeControl frame format buf offset len with
    | none => exact registered_leaves (quiet_ifDrop.registry.bind fun _ => .pure) h₁
    | some y =>
      obtain ⟨frame', offset'⟩ := y
      have h₂ : ({ w₁ with errno := .zero } : World).registry.Registered := h₁
      dsimp only
      rw [wp_bind, wp_setErrno]
      rcases openingFrame_type hframe haddr hcontrol with htype | htype | htype <;>
        rw [handleType, htype]
      · exact handleXid_registered h₂
      · exact handleSabm_registered h₂
      · exact handleSabm_registered h₂

theorem registry_frameResult {i : Nat} {r : Int} : Leaves World.registry (frameResult i r) :=
  Leaves.get.bind fun _ => .ite (quiet_getIface.registry.bind fun _ => quiet_setIface.registry.bind
    fun _ => quiet_fdClear.registry.bind fun _ => .pure) .pure

/-- Each input settles. -/
theorem handleEvent_settled {inp : Input} (hopen : asksToOpen w inp) (hno : NoSecond w inp)
    (h : w.registry.Registered) :
    wp (handleEvent inp.event) Settled (fun _ => True) { w with sys := inp.sys } := by
  have h' : ({ w with sys := inp.sys } : World).registry.Registered := h
  unfold asksToOpen at hopen
  cases hev : inp.event with
  | sock fd elapsed ready i =>
    rw [hev] at hopen
    exact absurd hopen Bool.false_ne_true
  | accept fd => exact settled_leaves registry_acceptClient h'
  | write client bs =>
    exact settled_leaves (.bind (.modify (by intro; rfl)) fun _ => .pure) h'
  | client client =>
    rw [hev] at hopen
    obtain ⟨⟨call, m, w₁⟩, hasks, hcall⟩ := (Option.any_eq_true ..).mp hopen
    have hread := asks_eq_some hasks
    have hcore : w₁.core = w.core := core_readCall { w with sys := inp.sys } _ _ hread
    have hcore : w₁.registry = w.registry := congrArg Core.registry hcore
    have hreg₁ : w₁.registry.Registered := by
      rw [hcore]
      exact h
    have hno₁ := hno client hev _ hasks
    rw [handleEvent, wp_bind, wp_get, wp_ite]
    refine ⟨fun _ => ?_, fun _ => .of_registered h'⟩
    unfold wp
    rw [handleClient_readCall hread]
    exact callRequest_settled hcall hno₁ hreg₁
  | frame i buf len =>
    rw [hev] at hopen
    rw [handleEvent, wp_bind, wp_get]
    split
    · exact .of_registered h'
    · rw [wp_ite]
      refine ⟨fun _ => .of_registered h', fun _ => ?_⟩
      rw [wp_bind]
      exact (handleFrame_registered hopen h').post fun r w₁ h₁ =>
        settled_leaves registry_frameResult h₁

end M

/-! ## Runs -/

/-- The invariant of the runs: a request that ends the run may leave a socket without its entry. -/
def OnlyOnes (w : World) : Prop := w.registry.AtMostOne ∧ (w.running → w.registry.Registered)

theorem onlyOnes_start (c : Config) : OnlyOnes (.start c) := by
  have h : (World.start c).registry.Registered := by
    refine ⟨⟨?_, ?_⟩, fun _ _ => rfl, ?_, ?_⟩
    all_goals intro p s hp; cases hp
  exact ⟨h.atMostOne, fun _ => h⟩

theorem onlyOnes_step {w w' : World} {inp : Input} (h : OnlyOnes w) (hno : NoSecond w inp)
    (hs : OpenStep w inp w') : OnlyOnes w' := by
  obtain ⟨hrun, r, w₁, hr, rfl⟩ := M.step_handles hs.2
  have hsettled := (M.handleEvent_settled hs.1 hno (h.2 hrun)).ok hr
  split_ifs with hneg
  · exact ⟨hsettled.1, fun hf => by cases hf⟩
  · exact ⟨hsettled.1, fun _ => hsettled.2 (not_lt.mp hneg)⟩

theorem onlyOnes_run {c : Config} {w : World} (h : Run OpenStep NoSecond (.start c) w) :
    OnlyOnes w := h.invariant (fun _ _ _ => onlyOnes_step) (onlyOnes_start c)

/-- In every run none of whose requests makes a second socket of a kind, there is at most one of each
in every state, and it is found through the tables. -/
theorem registered_run {c : Config} {w : World} (h : Run OpenStep NoSecond (.start c) w) :
    w.registry.AtMostOne ∧ (w.running → w.registry.Filed) := by
  obtain ⟨hone, hreg⟩ := onlyOnes_run h
  exact ⟨hone, fun hrun => (hreg hrun).toFiled⟩

/-- The steps for the inputs, as far as each of them asks to open a connection. -/
def World.openAll : World → List Input → Option World
  | w, [] => some w
  | w, inp :: inps => if asksToOpen w inp then (w.exec inp).bind (·.openAll inps) else none

theorem run_openAll {w w' : World} {inps : List Input} (h : w.openAll inps = some w') :
    Run OpenStep (fun _ _ => True) w w' := by
  induction inps generalizing w with
  | nil =>
    cases h
    exact .refl
  | cons inp inps ih =>
    rw [World.openAll] at h
    split_ifs at h with hopen
    obtain ⟨t, ht, h⟩ := Option.bind_eq_some_iff.mp h
    exact (Run.single trivial ⟨hopen, ht⟩).trans (ih h)

/-! ## Two sockets that listen -/

/-- The address of these sockets. -/
def listenAddr : Addr := ⟨fun _ => 0x82, 0x60⟩

theorem toBytes_injective : Function.Injective Addr.toBytes := by
  rintro ⟨callsign, ssid⟩ ⟨callsign', ssid'⟩ h
  obtain ⟨hcall, hssid⟩ := List.append_inj' h rfl
  obtain rfl := List.ofFn_injective hcall
  cases hssid
  rfl

/-- A client makes two STREAM sockets, binds both to an address, and listens on both. -/
def secondListener : List Input :=
  [⟨.accept 5, .allOk⟩,
   ⟨.write 5 (Request.socket 0xf0 0).bytes, .allOk⟩, ⟨.client 5, .allOk⟩,
   ⟨.write 5 (Request.socket 0xf0 0).bytes, .allOk⟩, ⟨.client 5, .allOk⟩,
   ⟨.write 5 (Request.bind 3 listenAddr).bytes, .allOk⟩, ⟨.client 5, .allOk⟩,
   ⟨.write 5 (Request.bind 6 listenAddr).bytes, .allOk⟩, ⟨.client 5, .allOk⟩,
   ⟨.write 5 (Request.listen 3).bytes, .allOk⟩, ⟨.client 5, .allOk⟩,
   ⟨.write 5 (Request.listen 6).bytes, .allOk⟩, ⟨.client 5, .allOk⟩]

theorem secondListener_socks : (World.bare.openAll secondListener).map (fun w =>
    [w.heap 0, w.heap 1].map (·.map fun s => (s.state, s.localAddr.toBytes))) =
      some [some (.listening, listenAddr.toBytes), some (.listening, listenAddr.toBytes)] := by
  decide

theorem not_registered_second : ¬∀ (c : Config) (w : World),
    Run OpenStep (fun _ _ => True) (.start c) w →
      w.registry.AtMostOne ∧ (w.running → w.registry.Filed) := by
  intro h
  obtain ⟨w, hw, hsocks⟩ := Option.map_eq_some_iff.mp secondListener_socks
  obtain ⟨hone, -⟩ := h ⟨[], ∅, [], fun _ => false, 0⟩ w (run_openAll hw)
  simp only [List.map_cons, List.cons.injEq, Option.map_eq_some_iff, Prod.mk.injEq] at hsocks
  obtain ⟨⟨s, hs, hls, has⟩, ⟨t, ht, hlt, hat⟩, -⟩ := hsocks
  exact absurd (hone.listening 0 1 s t hs ht hls hlt (toBytes_injective (has.trans hat.symm) ▸ .refl _)) (by decide)

/-! ## A socket that listens -/

/-- A client makes a STREAM socket, binds it, and listens. -/
def listenInputs : List Input :=
  [⟨.accept 5, .allOk⟩,
   ⟨.write 5 (Request.socket 0xf0 0).bytes, .allOk⟩, ⟨.client 5, .allOk⟩,
   ⟨.write 5 (Request.bind 3 listenAddr).bytes, .allOk⟩, ⟨.client 5, .allOk⟩,
   ⟨.write 5 (Request.listen 3).bytes, .allOk⟩, ⟨.client 5, .allOk⟩]

/-- The run goes on with an input. -/
theorem run_snoc {w : World} (inps : List Input) (inp : Input)
    (h : Run OpenStep NoSecond w (w.after inps)) (hopen : asksToOpen (w.after inps) inp)
    (hno : NoSecond (w.after inps) inp) (hsome : (w.execAll (inps ++ [inp])).isSome) :
    Run OpenStep NoSecond w (w.after (inps ++ [inp])) :=
  .tail h hno ⟨hopen, World.step_after inps hsome⟩

/-- Where no request is read that listens or connects. -/
theorem noSecond_of_calls {w : World} {inp : Input} (h : ∀ c, inp.event = .client c →
    ∀ x ∈ { w with sys := inp.sys }.asks c, x.1 ≠ PATTY_CLIENT_LISTEN ∧ x.1 ≠ PATTY_CLIENT_CONNECT ∧
      (x.1 = PATTY_CLIENT_BIND → BindsFree x.2.2 (BindRequest.ofMem x.2.1).fd)) :
    NoSecond w inp := by
  intro c hev x hx
  obtain ⟨hl, hc, hb⟩ := h c hev x hx
  exact ⟨hb, fun h => absurd h hl, fun h => absurd h hc⟩

instance {w : World} {fd : Nat} : Decidable (BindsFree w fd) :=
  inferInstanceAs (Decidable (∀ p ∈ w.socksByFd.lookup fd, ∀ s ∈ w.heap p, ¬s.localAddr.isSet →
    ¬s.state.connecting))

/-- Until the last input, no request could make a second socket. -/
theorem bound_run : Run OpenStep NoSecond .bare (World.bare.after (listenInputs.take 6)) := by
  have hnoClient {w : World} {inp : Input} (h : ∀ c, inp.event ≠ .client c) : NoSecond w inp :=
    fun c hev => absurd hev (h c)
  have h₁ : Run OpenStep NoSecond .bare (World.bare.after (listenInputs.take 1)) :=
    run_snoc [] _ .refl rfl (hnoClient (by simp)) (by decide)
  have h₂ : Run OpenStep NoSecond .bare (World.bare.after (listenInputs.take 2)) :=
    run_snoc (listenInputs.take 1) _ h₁ rfl (hnoClient (by simp)) (by decide)
  have h₃ : Run OpenStep NoSecond .bare (World.bare.after (listenInputs.take 3)) := by
    refine run_snoc (listenInputs.take 2) ⟨.client 5, .allOk⟩ h₂ (by decide)
      (noSecond_of_calls fun c hev => ?_) (by decide)
    obtain rfl := Event.client.inj hev
    decide
  have h₄ : Run OpenStep NoSecond .bare (World.bare.after (listenInputs.take 4)) :=
    run_snoc (listenInputs.take 3) _ h₃ rfl (hnoClient (by simp)) (by decide)
  have h₅ : Run OpenStep NoSecond .bare (World.bare.after (listenInputs.take 5)) := by
    refine run_snoc (listenInputs.take 4) ⟨.client 5, .allOk⟩ h₄ (by decide)
      (noSecond_of_calls fun c hev => ?_) (by decide)
    obtain rfl := Event.client.inj hev
    decide
  exact run_snoc (listenInputs.take 5) _ h₅ rfl (hnoClient (by simp)) (by decide)

/-- The last request is for the only socket there is. -/
theorem noSecond_listen : NoSecond (World.bare.after (listenInputs.take 6)) ⟨.client 5, .allOk⟩ := by
  intro c hev x hx
  obtain rfl := Event.client.inj hev
  have hcall : ∀ x ∈ { World.bare.after (listenInputs.take 6) with sys := .allOk }.asks 5,
      x.1 = PATTY_CLIENT_LISTEN := by decide
  have hcall := hcall x hx
  have hcore : x.2.2.core = (World.bare.after (listenInputs.take 6)).core :=
    M.core_readCall _ _ _ (M.asks_eq_some hx)
  have hnext : x.2.2.registry.next = 1 := by
    rw [show x.2.2.registry = _ from congrArg Core.registry hcore]
    decide
  have hreg : x.2.2.registry.Registered := by
    rw [show x.2.2.registry = _ from congrArg Core.registry hcore]
    exact (onlyOnes_run (c := ⟨[], ∅, [], fun _ => false, 0⟩) bound_run).2 (by decide)
  refine ⟨fun h => ?_, fun _ p _ s hs _ q t hq ht _ => ?_, fun h => ?_⟩
  · rw [hcall] at h
    exact absurd h (by decide)
  · have hp : p = 0 := Nat.lt_one_iff.mp (hnext ▸ hreg.lt hs)
    have hq₀ : q = 0 := Nat.lt_one_iff.mp (hnext ▸ hreg.lt ht)
    exact absurd (hq₀.trans hp.symm) hq
  · rw [hcall] at h
    exact absurd h (by decide)

/-- A socket that listens alone is found through its address. -/
theorem registered_listen :
    (World.bare.after listenInputs).registry.AtMostOne ∧
      ((World.bare.after listenInputs).running → (World.bare.after listenInputs).registry.Filed) :=
  registered_run (c := ⟨[], ∅, [], fun _ => false, 0⟩)
    (run_snoc (listenInputs.take 6) ⟨.client 5, .allOk⟩ bound_run (by decide)
      noSecond_listen (by decide))

end Patty
