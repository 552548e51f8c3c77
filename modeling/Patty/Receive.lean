import Patty.Lib.Checked
import Patty.Rules

/-! # The receiving side of a connection

`handle_i` compares N(S) with V(R) as integers: the expected frame is delivered and V(R) moves on, a
frame ahead is asked for again, and a frame with a smaller number is delivered as if it were new. So
exactly the expected frames are delivered, over a whole run, as long as no I frame arrives with a
number below V(R) (`receives_path`). -/

namespace Patty

open Prog

/-! ## Acknowledgement leaves the receiving side alone -/

namespace Sock

variable {s s' : Sock}

theorem ackLoop_eq : ∀ {n i ret ret' : Nat} {s s' : Sock}, s.ackLoop n i ret = .ok (ret', s') →
    ∃ slots va, s' = { s with txSlots := slots, va }
  | 0, _, _, _, s, _, h => by
    cases h
    exact ⟨s.txSlots, s.va, rfl⟩
  | n + 1, i, ret, ret', s, s', h => by
    rw [ackLoop] at h
    obtain ⟨⟨buf, off⟩, -, h⟩ := Except.bind_eq_ok h
    dsimp only at h
    split at h
    · obtain ⟨slots, va, rfl⟩ := ackLoop_eq h
      exact ⟨slots, va, rfl⟩
    · exact ackLoop_eq h

theorem ack_eq {nr ret : Nat} (h : s.ack nr = .ok (ret, s')) :
    ∃ slots va, s' = { s with txSlots := slots, va } := by
  rw [ack] at h
  split at h
  · cases h
    exact ⟨s.txSlots, s.va, rfl⟩
  · exact ackLoop_eq h

theorem ackTimer_eq {acked : Nat} (h : s.ackTimer acked = .ok s') :
    ∃ t1 retries, s' = { s with timerT1 := t1, retries } := by
  rw [ackTimer] at h
  split at h
  · obtain ⟨n, -, h⟩ := Except.bind_eq_ok h
    cases h
    split <;> exact ⟨_, _, rfl⟩
  · cases h
    exact ⟨_, _, rfl⟩

theorem ackFinal_eq (s : Sock) (frame : Frame) :
    ∃ vs retries, s.ackFinal frame = { s with vs, retries } := by
  unfold ackFinal
  dsimp only
  split_ifs <;> exact ⟨_, _, rfl⟩

/-- What `frame_ack` may change. -/
theorem frameAck_eq {frame : Frame} (h : s.frameAck frame = .ok s') :
    ∃ slots va vs t1 retries, s' = { s with
      txSlots := slots, va, vs, rxPending := 0, timerT1 := t1, timerT3 := s.timerT3.start
      retries } := by
  obtain ⟨⟨acked, s₁⟩, hack, h⟩ := Except.bind_eq_ok h
  obtain ⟨s₂, htimer, h⟩ := Except.bind_eq_ok h
  obtain ⟨slots, va, rfl⟩ := ack_eq hack
  obtain ⟨t1, retries, rfl⟩ := ackTimer_eq htimer
  cases h
  obtain ⟨vs, retries, heq⟩ := ackFinal_eq _ frame
  exact ⟨slots, va, vs, t1, retries, heq⟩

theorem vrIncr_vr (h : s.mode ≠ .dm) : s.vrIncr.vr = (s.vr + 1) % s.slots := by
  have h8 : (s.vr + 1) &&& 0x07 = (s.vr + 1) % 8 := Nat.and_two_pow_sub_one_eq_mod _ 3
  have h128 : (s.vr + 1) &&& 0x7f = (s.vr + 1) % 128 := Nat.and_two_pow_sub_one_eq_mod _ 7
  cases hm : s.mode
  · exact absurd hm h
  · simp [vrIncr, slots, hm, h8]
  · simp [vrIncr, slots, hm, h128]

end Sock

/-! ## One frame -/

/-- An I frame received on an interface, and what the system answers while it is handled. -/
structure Arrival where
  iface : Nat
  frame : Frame
  sys : Sys

/-- The server after `handle_i` has taken the frame for the socket `p`. -/
def World.arrive (w : World) (p : Ptr) (x : Arrival) : Option World :=
  (M.handleI x.iface (some p) x.frame).after { w with sys := x.sys }

/-- `handle_i` takes the frame, which is not a segment, for the socket `p`. -/
def IStep (p : Ptr) (w : World) (x : Arrival) (w' : World) : Prop :=
  x.frame.proto ≠ PATTY_AX25_PROTO_FRAGMENT ∧ w.arrive p x = some w'

/-- The socket `p` is a STREAM socket that is ESTABLISHED in mode SABM or SABME. -/
def Receiving (p : Ptr) (w : World) : Prop :=
  ∃ s, w.heap p = some s ∧ s.type = .stream ∧ s.state = .established ∧ s.mode ≠ .dm

/-- The frame is taken as the protocol has it: if it is the one expected, its payload is written to
the pty, unless the pty refuses it, and V(R) moves on; if not, nothing is written and V(R) stays. -/
def Accepts (p : Ptr) (w : World) (x : Arrival) (w' : World) : Prop :=
  ∃ s s', w.heap p = some s ∧ w'.heap p = some s' ∧
    if x.frame.ns = s.vr then
      s'.vr = (s.vr + 1) % s.slots ∧
        (¬x.sys.refuses → w'.written = w.written ++ [(s.fd, x.frame.infoBytes)])
    else s'.vr = s.vr ∧ w'.written = w.written

/-- N(S) is not below V(R), or the pty would refuse what is written to it. -/
def NotBehind (p : Ptr) (w : World) (x : Arrival) : Prop :=
  ∀ s, w.heap p = some s → s.vr ≤ x.frame.ns ∨ x.sys.refuses

/-- `s'` has the type, the state and the mode of `s`. -/
structure Sock.Alike (s s' : Sock) : Prop where
  type : s'.type = s.type
  state : s'.state = s.state
  mode : s'.mode = s.mode

/-- The socket `p` is like `s` with `vr` for V(R), and this is what was written to the ptys. -/
structure Received (p : Ptr) (s : Sock) (vr : Nat) (written : List (Nat × Bytes)) (w : World) :
    Prop where
  sock : ∃ s', w.heap p = some s' ∧ s.Alike s' ∧ s'.vr = vr
  written : w.written = written

theorem Received.alike {p : Ptr} {s s' : Sock} {vr : Nat} {written : List (Nat × Bytes)} {w : World}
    (h : Received p s' vr written w) (hs : s.Alike s') : Received p s vr written w where
  sock := by
    obtain ⟨s'', hp, hlike, hvr⟩ := h.sock
    exact ⟨s'', hp, ⟨hlike.type.trans hs.type, hlike.state.trans hs.state,
      hlike.mode.trans hs.mode⟩, hvr⟩
  written := h.written

namespace M

variable {E : Fault → Prop} {w : World} {p : Ptr} {s : Sock} {frame : Frame}

theorem heap_setSock : (w.setSock p s).heap p = some s := Function.update_self ..

/-- A frame that is sent changes nothing of this. -/
theorem received_send {m : M Int} (hm : Quiet m) (hm' : Mute m) {s' : Sock} {vr : Nat}
    (hp : w.heap p = some s') (hs : s.Alike s') (hvr : s'.vr = vr) :
    wp m (fun _ w' => Received p s vr w.written w') (fun _ => True) w := by
  refine wp_intro fun r w' hr => ⟨⟨s', ?_, hs, hvr⟩, hm' _ _ _ hr⟩
  exact (congrFun (congrArg Core.heap (hm.core _ _ _ hr)) p).trans hp

/-- After the delivery, neither V(R) nor what was written changes any more. -/
theorem iAnswer_spec (hp : w.heap p = some s) :
    wp (iAnswer p frame) (fun _ w' => Received p s s.vr w.written w') (fun _ => True) w := by
  rw [iAnswer, wp_bind]
  refine wp_deref_some hp ?_
  rw [wp_ite, wp_ite]
  refine ⟨fun _ => ?_, fun _ => ⟨fun _ => ?_, fun _ => ?_⟩⟩
  · rw [wp_bind, wp_store]
    exact received_send quiet_sendRr mute_frameSend heap_setSock ⟨rfl, rfl, rfl⟩ rfl
  · exact ⟨⟨_, heap_setSock, ⟨rfl, rfl, rfl⟩, rfl⟩, rfl⟩
  · exact ⟨⟨_, heap_setSock, ⟨rfl, rfl, rfl⟩, rfl⟩, rfl⟩

/-- The delivery of a frame writes its payload unless the pty refuses it. -/
theorem iDeliver_spec (hp : w.heap p = some s) (hproto : frame.proto ≠ PATTY_AX25_PROTO_FRAGMENT) :
    wp (iDeliver p frame) (fun _ w' => Received p s s.vr
      (if w.sys.refuses then w.written else w.written ++ [(s.fd, frame.infoBytes)]) w')
      (fun _ => True) w := by
  rw [iDeliver, if_neg hproto, wp_bind]
  refine wp_deref_some hp ?_
  rw [wp_bind]
  refine writePty_spec.post fun ok w₁ => ?_
  rintro ⟨hcore, rfl, hlog⟩
  have hp₁ : w₁.heap p = some s := (congrFun (congrArg Core.heap hcore) p).trans hp
  have hw₁ : w₁.written =
      if w.sys.refuses then w.written else w.written ++ [(s.fd, frame.infoBytes)] := by
    rw [World.written, hlog]
    split <;> simp [World.written]
  rw [wp_ite, ← hw₁]
  exact ⟨fun _ => iAnswer_spec hp₁, fun _ => ⟨⟨s, hp₁, ⟨rfl, rfl, rfl⟩, rfl⟩, rfl⟩⟩

/-- What `handle_i` does with N(S). -/
theorem iReceive_spec (hp : w.heap p = some s) (hmode : s.mode ≠ .dm)
    (hproto : frame.proto ≠ PATTY_AX25_PROTO_FRAGMENT) :
    wp (iReceive p frame) (fun _ w' => Received p s
      (if frame.ns = s.vr then (s.vr + 1) % s.slots else s.vr)
      (if s.vr < frame.ns ∨ w.sys.refuses then w.written
        else w.written ++ [(s.fd, frame.infoBytes)]) w') (fun _ => True) w := by
  rw [iReceive, wp_bind]
  refine wp_deref_some hp ?_
  rw [wp_ite, wp_ite, wp_ite]
  refine ⟨fun heq => ?_, fun hne => ⟨fun _ => ?_, fun _ => ⟨fun _ => ?_, fun hlt => ?_⟩⟩⟩
  · rw [wp_bind, wp_store, if_pos heq, ← Sock.vrIncr_vr hmode]
    simp only [heq, lt_irrefl, false_or]
    exact (iDeliver_spec (s := s.vrIncr) heap_setSock hproto).post fun _ w' h =>
      h.alike ⟨rfl, rfl, rfl⟩
  · rw [if_neg hne, if_pos (.inl (by omega))]
    exact received_send quiet_sendSrej mute_frameSend hp ⟨rfl, rfl, rfl⟩ rfl
  · rw [if_neg hne, if_pos (.inl (by omega))]
    exact received_send quiet_sendRej mute_frameSend hp ⟨rfl, rfl, rfl⟩ rfl
  · refine (iDeliver_spec hp hproto).post fun _ w' h => ?_
    simpa only [if_neg hne, show ¬s.vr < frame.ns by omega, false_or] using h

/-- `handle_i` for an established connection. -/
theorem handleI_spec {i : Nat} (hp : w.heap p = some s) (hstate : s.state = .established)
    (hmode : s.mode ≠ .dm) (hproto : frame.proto ≠ PATTY_AX25_PROTO_FRAGMENT) :
    wp (handleI i (some p) frame) (fun _ w' => Received p s
      (if frame.ns = s.vr then (s.vr + 1) % s.slots else s.vr)
      (if s.vr < frame.ns ∨ w.sys.refuses then w.written
        else w.written ++ [(s.fd, frame.infoBytes)]) w') (fun _ => True) w := by
  rw [handleI, wp_bind]
  refine wp_deref_some hp ?_
  rw [if_neg (by simp [hstate]), wp_bind, wp_lift]
  refine ⟨fun s' hs' => ?_, fun _ _ => trivial⟩
  rw [wp_bind, wp_store]
  obtain ⟨slots, va, vs, t1, retries, hs₁⟩ := Sock.frameAck_eq hs'
  refine (iReceive_spec (s := s') heap_setSock (hs₁ ▸ hmode) hproto).post fun _ w' h => ?_
  rw [hs₁] at h
  exact h.alike ⟨rfl, rfl, rfl⟩

end M

/-! ## Runs -/

theorem IStep.receiving {p : Ptr} {w w' : World} {x : Arrival} (hw : Receiving p w)
    (h : IStep p w x w') : Receiving p w' := by
  obtain ⟨s, hp, htype, hstate, hmode⟩ := hw
  obtain ⟨s', hp', hlike, -⟩ := ((M.handleI_spec (w := { w with sys := x.sys }) hp hstate hmode
    h.1).after h.2).sock
  exact ⟨s', hp', hlike.type.trans htype, hlike.state.trans hstate, hlike.mode ▸ hmode⟩

/-- A frame is taken as the protocol has it exactly if it is not behind. -/
theorem accepts_step {p : Ptr} {w w' : World} {x : Arrival} (hw : Receiving p w)
    (h : IStep p w x w') : Accepts p w x w' ↔ NotBehind p w x := by
  obtain ⟨s, hp, -, hstate, hmode⟩ := hw
  obtain ⟨⟨s', hp', -, hvr⟩, hwritten⟩ := (M.handleI_spec (w := { w with sys := x.sys }) hp hstate
    hmode h.1).after h.2
  have hold : ({ w with sys := x.sys } : World).written = w.written := rfl
  simp only [Accepts, NotBehind, hp, hp', Option.some.injEq, hold] at hwritten ⊢
  by_cases heq : x.frame.ns = s.vr
  · simp [heq, hvr, hwritten]
  · by_cases hlt : s.vr < x.frame.ns
    · simp [heq, hvr, hwritten, hlt, hlt.le]
    · have hle : ¬s.vr ≤ x.frame.ns := by omega
      cases hsys : x.sys.refuses <;> simp [heq, hvr, hwritten, hlt, hle, hsys]

/-- In every run of I frames, each is taken as the protocol has it exactly if none is behind. -/
theorem receives_path {p : Ptr} {w : World} (hw : Receiving p w) {l : List (Arrival × World)}
    (hl : Trace (IStep p) w l) : Each (Accepts p) w l ↔ Meets (NotBehind p) w l :=
  Trace.each_iff (fun _ _ _ hw h => ⟨h.receiving hw, accepts_step hw h⟩) hw hl

/-! ## A connection with the defaults -/

/-- A STREAM socket as it is after it was accepted by SABM with the default parameters. -/
def acceptedSock : Sock :=
  { Sock.zero.init with
    proto := 0xf0
    version := .v2_0
    state := .established
    mode := .sabm
    iface := some 0
    localAddr := ⟨fun _ => 0x82, 0x60⟩
    remote := ⟨fun _ => 0x84, 0x60⟩
    fd := 3
    txBuf := some 200
    ioBuf := some 200
    txSlots := some ⟨8 * 143, fun _ => 0⟩ }

/-- An interface with the address of this socket. -/
def sampleIface : Iface where
  fd := 4
  name := [0x6b]
  flagsClasses := 0
  mru := 4096
  mtu := 4096
  txBuf := fun _ => 0
  status := .up
  addr := ⟨fun _ => 0x82, 0x60⟩
  aliases := []
  promiscFds := ∅
  stats := ⟨0, 0, 0, 0, 0⟩

/-- A server with one interface and the socket `s`, which is watched. -/
def World.withSock (s : Sock) : World :=
  { World.start ⟨[sampleIface], ∅, [3, 4], fun fd => fd == 3, 4⟩ with next := 1 }.setSock 0 s

/-- An I frame with the payload `bs`. -/
def iFrame (ns nr : Nat) (bs : Bytes) : Frame :=
  { Frame.blank with type := .i, ns, nr, proto := 0xf0, info := some (.ofBytes bs fun _ => 0)
                     infolen := bs.length }

/-- The first I frame of a connection. -/
def firstArrival : Arrival := ⟨0, iFrame 0 0 [0x61], .allOk⟩

theorem firstArrival_isSome : ((World.withSock acceptedSock).arrive 0 firstArrival).isSome := by
  decide

/-- The server after the first I frame. -/
def World.afterFirst : World := ((World.withSock acceptedSock).arrive 0 firstArrival).get
  firstArrival_isSome

theorem firstArrival_step : IStep 0 (.withSock acceptedSock) firstArrival .afterFirst :=
  ⟨by decide, (Option.some_get _).symm⟩

/-- The first I frame is taken as the protocol has it. -/
theorem receives_first :
    Each (Accepts 0) (.withSock acceptedSock) [(firstArrival, .afterFirst)] ↔
    Meets (NotBehind 0) (.withSock acceptedSock) [(firstArrival, .afterFirst)] :=
  receives_path ⟨acceptedSock, rfl, rfl, rfl, by decide⟩ (.cons firstArrival_step .nil)

/-- An I frame that is received a second time is written to the pty a second time. -/
theorem not_receives_duplicate : ¬∀ (p : Ptr) (w : World) (l : List (Arrival × World)),
    Receiving p w → Trace (IStep p) w l → Each (Accepts p) w l := by
  intro h
  obtain ⟨w₂, hw₂⟩ := Option.isSome_iff_exists.mp
    (show (World.afterFirst.arrive 0 firstArrival).isSome by decide)
  obtain ⟨-, ⟨s, s', hs, -, hacc⟩, -⟩ := h 0 (.withSock acceptedSock)
    [(firstArrival, .afterFirst), (firstArrival, w₂)] ⟨acceptedSock, rfl, rfl, rfl, by decide⟩
    (.cons firstArrival_step (.cons ⟨by decide, hw₂⟩ .nil))
  have hvr : s.vr = 1 := by
    have hvr : (World.afterFirst.heap 0).map (·.vr) = some 1 := by decide
    simpa [hs] using hvr
  rw [if_neg (by rw [hvr]; decide)] at hacc
  have hwritten : (World.afterFirst.arrive 0 firstArrival).map (·.written) ≠
      some World.afterFirst.written := by decide
  rw [hw₂] at hwritten
  exact hwritten (congrArg some hacc.2)

end Patty
