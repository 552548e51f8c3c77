import Patty.Negotiate
import Patty.Place
import Patty.Timing

/-! # The time T1 waits (`sock.c`)

The acknowledgement time of a socket is kept twice, in `n_ack` and in T1. `patty_ax25_sock_init` and
`patty_ax25_sock_params_negotiate` write both; `patty_ax25_sock_ack_set` writes `n_ack` alone, so that after
`setsockopt` T1 waits another time than the one that is advertised (`acksInTime_iff`). -/

namespace Patty

/-- What is done to the parameters of a socket. -/
inductive ParamOp
  | setsockopt (data : SetsockoptParams)
  | negotiate (params : Params)
  | init
  | reset
  | accept (type : FrameType)
  | max

namespace Sock

/-- The buffers are made anew. -/
def Realloced (s s' : Sock) : Prop := ∃ w ok w', M.initBufs s w = .ok ((ok, s'), w')

/-- What becomes of the socket. `accept` is for a SABM or a SABME, as in `handle_sabm`. -/
def ParamStep (s : Sock) : ParamOp → Sock → Prop
  | .setsockopt data, s' => if data.reallocs then (data.apply s).Realloced s' else s' = data.apply s
  | .negotiate params, s' => s' = (s.paramsNegotiate params).2.1
  | .init, s' => s' = s.init
  | .reset, s' => s.reset = .ok s'
  | .accept type, s' => (if type = FrameType.sabme then { s.paramsUpgrade with mode := .sabme }
      else { s with mode := .sabm }).Realloced s'
  | .max, s' => s' = s.paramsMax

/-- T1 runs with the acknowledgement time, which is the one that XID offers. -/
structure AcksInTime (s : Sock) : Prop where
  ms : s.timerT1.ms = s.nAck
  start : s.timerT1.start.left = s.nAck * 1000000
  offered : s.timerT1.ms = (M.xidParams s).ack

/-- If `setsockopt` gives an acknowledgement time, it is the one the socket has. -/
def SameAck (s : Sock) : ParamOp → Prop
  | .setsockopt data => data.flags &&& PATTY_AX25_SOCK_PARAM_ACK ≠ 0 → data.ack = s.nAck
  | _ => True

variable {s s' : Sock}

theorem acksInTime_of_ms (h : s.timerT1.ms = s.nAck) : s.AcksInTime where
  ms := h
  start := by
    have hstart := Timer.start_left (t := s.timerT1) (by omega)
    rw [hstart.1, h]
  offered := h

theorem Realloced.ack (h : s.Realloced s') : s'.nAck = s.nAck ∧ s'.timerT1 = s.timerT1 := by
  obtain ⟨w, ok, w', h⟩ := h
  obtain ⟨tx, io, slots, rfl⟩ := M.initBufs_eq.ok h
  exact ⟨rfl, rfl⟩

/-- Of the setters only one writes the acknowledgement time. -/
theorem apply_ack (data : SetsockoptParams) (s : Sock) : (data.apply s).timerT1 = s.timerT1 ∧ (data.apply s).nAck =
    if data.flags &&& PATTY_AX25_SOCK_PARAM_ACK ≠ 0 then data.ack else s.nAck := by
  unfold SetsockoptParams.apply
  dsimp only
  constructor
  · simp only [apply_ite Sock.timerT1, ite_self]
  · simp only [apply_ite Sock.nAck, ite_self]

theorem reset_ack (h : s.reset = .ok s') : s'.nAck = s.nAck ∧ s'.timerT1.ms = s.timerT1.ms := by
  rw [reset] at h
  obtain ⟨s₁, hclear, h⟩ := Except.bind_eq_ok h
  obtain ⟨slots, rfl⟩ := clearSlots_eq hclear
  cases h
  exact ⟨rfl, rfl⟩

theorem paramsUpgrade_ack (s : Sock) : s.paramsUpgrade.nAck = s.nAck ∧ s.paramsUpgrade.timerT1 = s.timerT1 := by
  unfold paramsUpgrade
  split
  · exact ⟨rfl, rfl⟩
  · exact ⟨rfl, rfl⟩

theorem acceptMode_ack (t : FrameType) (h : (if t = FrameType.sabme then { s.paramsUpgrade with mode := .sabme }
    else { s with mode := .sabm } : Sock).Realloced s') : s'.nAck = s.nAck ∧ s'.timerT1 = s.timerT1 := by
  split at h
  · obtain ⟨hack, ht1⟩ := h.ack
    obtain ⟨hack', ht1'⟩ := s.paramsUpgrade_ack
    exact ⟨hack.trans hack', ht1.trans ht1'⟩
  · exact h.ack

theorem negotiateValues_ms (params : Params) (h : s.timerT1.ms = s.nAck) :
    (s.negotiateValues params).timerT1.ms = (s.negotiateValues params).nAck := by
  unfold negotiateValues
  dsimp only
  split_ifs <;> first | exact h | rfl

/-- What the negotiator takes over it gives to T1 as well. -/
theorem paramsNegotiate_ms (params : Params) (h : s.timerT1.ms = s.nAck) :
    (s.paramsNegotiate params).2.1.timerT1.ms = (s.paramsNegotiate params).2.1.nAck := by
  unfold paramsNegotiate
  cases negotiateClasses params with
  | some e => exact h
  | none =>
    obtain ⟨flags, hhdlc⟩ := negotiateHdlc_eq s params
    revert hhdlc
    rcases s.negotiateHdlc params with ⟨_ | e, s₁, params'⟩
    · rintro rfl
      exact negotiateValues_ms params' h
    · rintro rfl
      exact h

theorem acksInTime_step {op : ParamOp} (h : s.AcksInTime) (hst : ParamStep s op s') : s'.AcksInTime ↔ s.SameAck op := by
  have hms := h.ms
  cases op with
  | setsockopt data =>
    obtain ⟨ht1, hack⟩ := apply_ack data s
    have hafter : s'.timerT1 = s.timerT1 ∧ s'.nAck = (data.apply s).nAck := by
      rw [ParamStep] at hst
      split at hst
      · obtain ⟨hack', ht1'⟩ := hst.ack
        exact ⟨ht1'.trans ht1, hack'⟩
      · subst hst
        exact ⟨ht1, rfl⟩
    rw [hack] at hafter
    constructor
    · intro h' hflag
      have hms' := h'.ms
      rw [hafter.1, hafter.2, if_pos hflag] at hms'
      omega
    · intro hsame
      refine acksInTime_of_ms ?_
      rw [hafter.1, hafter.2]
      split
      · rename_i hflag
        rw [hsame hflag]
        exact hms
      · exact hms
  | negotiate params =>
    subst hst
    exact ⟨fun _ => trivial, fun _ => acksInTime_of_ms (paramsNegotiate_ms params hms)⟩
  | init =>
    subst hst
    exact ⟨fun _ => trivial, fun _ => acksInTime_of_ms rfl⟩
  | reset =>
    obtain ⟨hack, ht1⟩ := reset_ack hst
    refine ⟨fun _ => trivial, fun _ => acksInTime_of_ms ?_⟩
    rw [hack, ht1]
    exact hms
  | accept type =>
    obtain ⟨hack, ht1⟩ := acceptMode_ack type hst
    refine ⟨fun _ => trivial, fun _ => acksInTime_of_ms ?_⟩
    rw [hack, ht1]
    exact hms
  | max =>
    subst hst
    exact ⟨fun _ => trivial, fun _ => acksInTime_of_ms hms⟩

end Sock

namespace M

open Prog

variable {w : World} {proto : Nat} {type : SockType}

/-- A socket is made with its acknowledgement time in T1. -/
theorem sockNew_acksInTime : wp (sockNew proto type) (Makes Sock.AcksInTime) (fun _ => True) w := by
  refine sockNew_makes (fun fd pty => ?_) (fun fd pty m => ?_) fun fd pty tx io slots => ?_
  · exact Sock.acksInTime_of_ms rfl
  · exact Sock.acksInTime_of_ms rfl
  · apply Sock.acksInTime_of_ms
    split
    · rfl
    · rfl

end M

namespace Sock

/-- In every run on a STREAM socket as it is created, T1 runs with the acknowledgement time exactly when no
`setsockopt` changes it. -/
theorem acksInTime_iff {proto : Nat} {p : Ptr} {w w' : World} {s : Sock} {l : List (ParamOp × Sock)}
    (hnew : M.sockNew proto .stream w = .ok (some p, w')) (hp : w'.heap p = some s) (h : Trace ParamStep s l) :
    (∀ t ∈ l, t.2.AcksInTime) ↔ Meets SameAck s l := by
  have hs := M.sockNew_acksInTime.ok hnew p rfl s hp
  exact h.invariant_iff (fun _ _ _ => acksInTime_step) hs

/-- The acknowledgement time a client asks for. -/
def ackParams (ack : Nat) : SetsockoptParams := ⟨PATTY_AX25_SOCK_PARAM_ACK, 0, 0, 0, ack⟩

/-- An upgrade by SABME, with the time set that the socket has. -/
theorem acksInTime_default : ∃ (s : Sock) (l : List (ParamOp × Sock)), Trace ParamStep s l ∧
    l.map (·.1) = [.setsockopt (ackParams 3000), .init, .max] ∧ ∀ t ∈ l, t.2.AcksInTime := by
  obtain ⟨w, s, hnew, hp, hack⟩ : ∃ w s, M.sockNew 0xf0 .stream .bare = .ok (some 0, w) ∧ w.heap 0 = some s ∧
      s.nAck = 3000 := ⟨_, _, rfl, rfl, rfl⟩
  have htrace : Trace ParamStep s [(.setsockopt (ackParams 3000), _), (.init, _), (.max, _)] :=
    .cons rfl (.cons rfl (.cons rfl .nil))
  exact ⟨s, _, htrace, rfl, (acksInTime_iff hnew hp htrace).mpr ⟨fun _ => hack.symm, trivial, trivial, trivial⟩⟩

/-- A client asks for five seconds. -/
theorem not_acksInTime : ¬∀ (proto p : Nat) (w w' : World) (s : Sock) (l : List (ParamOp × Sock)),
    M.sockNew proto .stream w = .ok (some p, w') → w'.heap p = some s → Trace ParamStep s l →
    ∀ t ∈ l, t.2.AcksInTime := by
  intro h
  obtain ⟨w, s, hnew, hp, hms⟩ : ∃ w s, M.sockNew 0xf0 .stream .bare = .ok (some 0, w) ∧ w.heap 0 = some s ∧
      s.timerT1.ms = 3000 := ⟨_, _, rfl, rfl, rfl⟩
  have hacks := h 0xf0 0 _ w s [(.setsockopt (ackParams 5000), _)] hnew hp (.cons rfl .nil) _
    (List.mem_singleton_self _)
  have hms' : (3000 : Int) = (5000 : Nat) := hms.symm.trans hacks.ms
  exact absurd hms' (by decide)

end Sock

end Patty
