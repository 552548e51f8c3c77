import Patty.Upkeep.Socks

/-! # Where the sends succeed

The drivers and the ptys of a `Willing` system refuse nothing, so that `frame_send` succeeds for a socket whose
frames pass its tests (`frameSend_willing`). -/

namespace Patty

open Prog

/-- No driver and no pty will fail. -/
structure Sys.Willing (sys : Sys) : Prop where
  send : ∀ o ∈ sys.send, ∀ e, o ≠ .failed e
  ptyWrite : ∀ x ∈ sys.ptyWrite, x = none

theorem Sys.willing_allOk : Sys.allOk.Willing :=
  ⟨fun _ h => absurd h List.not_mem_nil, fun _ h => absurd h List.not_mem_nil⟩

theorem Sys.Willing.congr {sys sys' : Sys} (h : sys.Willing) (hsend : sys'.send = sys.send)
    (hpty : sys'.ptyWrite = sys.ptyWrite) : sys'.Willing :=
  ⟨by rw [hsend]; exact h.send, by rw [hpty]; exact h.ptyWrite⟩

namespace Sock

variable {s s' : Sock} {len : Nat}

/-- The tests that `frame_send` makes of a socket and of `len` octets of information. -/
structure Passes (s : Sock) (len : Nat) : Prop where
  iface : s.iface.isSome
  remote : s.remote.isSet
  info : ¬s.toobig len
  hops : ¬s.txBufsz < (2 + s.hops) * 7

instance : Decidable (s.Passes len) :=
  decidable_of_iff (s.iface.isSome ∧ s.remote.isSet ∧ ¬s.toobig len ∧ ¬s.txBufsz < (2 + s.hops) * 7)
    ⟨fun ⟨h₁, h₂, h₃, h₄⟩ => ⟨h₁, h₂, h₃, h₄⟩, fun ⟨h₁, h₂, h₃, h₄⟩ => ⟨h₁, h₂, h₃, h₄⟩⟩

theorem Passes.congr (h : s.Passes len) (hwire : s'.wire = s.wire) : s'.Passes len := by
  obtain ⟨-, -, hiface, hremote, hhops, hlen⟩ := Wire.mk.inj hwire
  refine ⟨hiface ▸ h.iface, hremote ▸ h.remote, ?_, ?_⟩
  · rw [toobig, hlen]
    exact h.info
  · rw [txBufsz, hlen, hhops]
    exact h.hops

theorem encodeFrame_passes {cr : FrameCr} {control : Nat} {proto : UInt8} {info : Bytes}
    {r : Except (Option Errno) Bytes} (h : s.Passes len) (hlen : info.length ≤ len)
    (hr : s.encodeFrame cr control proto info = .ok r) : ∃ frame, r = .ok frame := by
  have hinfo : ¬s.toobig info.length := by
    have hlarge := h.info
    simp only [toobig, decide_eq_true_eq] at hlarge ⊢
    omega
  have hiface := h.iface
  unfold encodeFrame at hr
  rw [if_neg (by simpa [Option.isSome_iff_ne_none] using hiface), if_neg (by simpa using h.remote),
    if_neg hinfo, if_neg h.hops] at hr
  split at hr
  · cases hr
  · dsimp only at hr
    split at hr <;> cases hr
    exact ⟨_, rfl⟩

end Sock

namespace M

variable {s : Sock} {w : World}

/-! ## Nothing is refused -/

/-- The answer of a willing system to a call that may fail. -/
theorem writePty_willing {o : Out} (hw : w.sys.Willing) :
    wp (writePty o) (fun ok w' => ok = true ∧ w'.sys.Willing) (fun _ => True) w := by
  rw [writePty, wp_bind, wp_answer]
  refine ⟨fun _ => ⟨rfl, hw⟩, fun a as h => ?_⟩
  obtain rfl : a = none := hw.ptyWrite a (by rw [h]; exact List.mem_cons_self)
  exact ⟨rfl, hw.send, fun x hx => hw.ptyWrite x (by rw [h]; exact List.mem_cons_of_mem _ hx)⟩

theorem promisc_willing {bs : Bytes} {fds : List Nat} (hw : w.sys.Willing) :
    wp (forEach fds (handlePromiscFrame bs)) (fun r w' => 0 ≤ r ∧ w'.sys.Willing) (fun _ => True) w := by
  induction fds generalizing w with
  | nil => exact ⟨le_rfl, hw⟩
  | cons fd fds ih =>
    rw [forEach, wp_bind, handlePromiscFrame, wp_bind]
    refine (writePty_willing hw).post ?_
    rintro ok w₁ ⟨rfl, hw₁⟩
    rw [if_pos rfl, wp_pure, wp_ite]
    exact ⟨fun h => absurd h (by omega), fun _ => ih hw₁⟩

theorem ifSent_willing {i : Nat} {iface : Iface} {bs : Bytes} (hw : w.sys.Willing) :
    wp (ifSent i iface bs) (fun r w' => 0 ≤ r ∧ w'.sys.Willing) (fun _ => True) w := by
  rw [ifSent, wp_bind, setIface, wp_modify, wp_bind]
  refine (promisc_willing (by exact hw)).post ?_
  rintro r w₁ ⟨hr, hw₁⟩
  rw [wp_ite]
  exact ⟨fun h => absurd h (by omega), fun _ => ⟨Int.natCast_nonneg _, hw₁⟩⟩

theorem ifSend_willing {i : Nat} {frame : Bytes} (hw : w.sys.Willing) :
    wp (ifSend i frame) (fun r w' => 0 ≤ r ∧ w'.sys.Willing) (fun _ => True) w := by
  rw [ifSend, wp_bind, wp_getIface]
  refine ⟨fun iface _ => ?_, fun _ => trivial⟩
  rw [wp_bind, wp_answer]
  refine ⟨fun _ => ?_, fun a as h => ?_⟩
  · rw [wp_bind]
    exact ifSent_willing (by exact hw)
  · have hrest : Sys.Willing { w.sys with send := as } :=
      ⟨fun o ho => hw.send o (by rw [h]; exact List.mem_cons_of_mem _ ho), hw.ptyWrite⟩
    cases a with
    | sent =>
      rw [wp_bind]
      exact ifSent_willing (by exact hrest)
    | ignored => exact ifSent_willing hrest
    | failed e => exact absurd rfl (hw.send (.failed e) (by rw [h]; exact List.mem_cons_self) e)

/-- `frame_send` succeeds for a frame that passes its tests. -/
theorem frameSend_willing {cr : FrameCr} {control len : Nat} {proto : UInt8} {info : Bytes}
    (hs : s.Passes len) (hlen : info.length ≤ len) (hw : w.sys.Willing) :
    wp (frameSend s cr control proto info) (fun r w' => 0 ≤ r ∧ w'.sys.Willing) (fun _ => True) w := by
  rw [frameSend, wp_bind, wp_lift]
  refine ⟨fun r hr => ?_, fun _ _ => trivial⟩
  obtain ⟨frame, rfl⟩ := Sock.encodeFrame_passes hs hlen hr
  obtain ⟨i, hi⟩ := Option.isSome_iff_exists.mp hs.iface
  simp only [hi]
  exact ifSend_willing hw

/-- `m` leaves the system willing. -/
abbrev Fair {α : Type} (m : M α) : Prop := Keeping (fun w => w.sys.Willing) m

theorem fair_frameSend {cr : FrameCr} {control : Nat} {proto : UInt8} {info : Bytes} :
    Fair (frameSend s cr control proto info) := by
  refine .lift_bind (fun _ _ => trivial) fun r _ => ?_
  rcases r with (_ | e) | frame
  · exact .pure
  · exact Keeps.bind (fun _ hw => hw) fun _ => .pure
  · dsimp only
    cases s.iface with
    | none => exact .pure
    | some i => exact fun w hw => (ifSend_willing hw).post fun _ _ h => h.2

theorem fair_sockResend {seq : Nat} : Fair (sockResend s seq) := by
  unfold sockResend
  refine .lift_bind (fun _ _ => trivial) fun r _ => ?_
  obtain ⟨buf, off⟩ := r
  dsimp only
  split
  · exact fair_frameSend
  · exact .pure

theorem fair_sockResendPending : Fair (sockResendPending s) := by
  unfold sockResendPending
  refine .lift_bind (fun _ _ => trivial) fun r _ => ?_
  obtain ⟨buf, off⟩ := r
  dsimp only
  split
  · exact fair_sockResend.bind fun _ => .ite (fun _ => .pure) fun _ => .pure
  · exact .pure

theorem fair_readPty {inp : Except Errno Bytes} : Fair (readPty s inp) := by
  cases inp with
  | error e => exact Keeps.bind (fun _ hw => hw) fun _ => .pure
  | ok bs =>
    refine .ite (fun _ => .pure) fun _ => ?_
    cases s.ioBuf with
    | none => exact Keeps.bind (fun _ hw => hw) fun _ => .pure
    | some size => exact .ite (fun _ => .fault trivial) fun _ => .pure

end M

/-- The system is willing, and `frame_send` tests the socket `p` as it tests one like `x`. -/
structure Sending (x : Wire) (p : Ptr) (w : World) : Prop where
  willing : w.sys.Willing
  sock : ∀ s, w.heap p = some s → s.wire = x

theorem Sending.held (x : Wire) (p : Ptr) : Held (Sending x p) (fun s => s.wire = x) p where
  sock h hp := h.sock _ hp
  wire hs h := h.trans hs
  store h hs := ⟨h.willing, fun s hp => by
    rw [M.heap_setSock] at hp
    cases hp
    exact hs⟩
  fdClear _ h := ⟨h.willing, h.sock⟩
  resend w h := by
    refine ((M.fair_sockResendPending w h.willing).and
      (M.quiet_sockResendPending.core.wp (fun _ _ h => h) fun _ => trivial)).post ?_
    rintro r w' ⟨hw, hcore⟩
    exact ⟨hw, by rw [show w'.heap = w.heap from congrArg Core.heap hcore]; exact h.sock⟩
  read w h := by
    refine ((M.fair_readPty w h.willing).and
      (M.quiet_readPty.core.wp (fun _ _ h => h) fun _ => trivial)).post ?_
    rintro r w' ⟨hw, hcore⟩
    exact ⟨hw, by rw [show w'.heap = w.heap from congrArg Core.heap hcore]; exact h.sock⟩

end Patty
