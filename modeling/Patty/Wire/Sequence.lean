import Patty.Receive
import Patty.Link.Turn
import Patty.Wire.Control

/-! # Sequence numbers on the wire

What a peer of the same mode decodes in the I and S frames that a socket sends. The masks of the decoder
have six bits for a number in SABME, where the encoder stores seven, so that a frame is understood
exactly when its numbers are below 64 there (`carries_iff`). -/

namespace Patty

open Prog

/-- What a frame with sequence numbers says. -/
structure Sense where
  type : FrameType
  ns : Option Nat
  nr : Nat
  pf : Nat
  cr : FrameCr
  deriving DecidableEq

/-- A decoded frame says `x`. -/
structure Frame.Says (f : Frame) (x : Sense) : Prop where
  type : f.type = x.type
  ns : ∀ ns, x.ns = some ns → f.ns = ns
  nr : f.nr = x.nr
  pf : f.pf = x.pf
  cr : f.cr = x.cr

/-- A call of a function of `sock.c` that sends a frame with sequence numbers. -/
inductive SendCall
  | write (bs : Bytes)
  | resend (seq : Nat)
  | rr (cr : FrameCr) (pf : Nat)
  | rnr (cr : FrameCr) (pf : Nat)
  | rej (cr : FrameCr) (pf : Nat)
  | srej (cr : FrameCr)

namespace SendCall

def run (s : Sock) : SendCall → M Unit
  | write bs => do let _ ← M.sockWrite s (.ofBytes bs fun _ => 0) bs.length
  | resend seq => do let _ ← M.sockResend s seq
  | rr cr pf => do let _ ← M.sendRr s cr pf
  | rnr cr pf => do let _ ← M.sendRnr s cr pf
  | rej cr pf => do let _ ← M.sendRej s cr pf
  | srej cr => do let _ ← M.sendSrej s cr

/-- The payload fits a frame, the number is one of the mode, and the P/F bit is a bit. -/
def Valid (s : Sock) : SendCall → Prop
  | write bs => bs ≠ [] ∧ bs.length ≤ s.nMaxlenTx
  | resend seq => seq < s.slots
  | rr _ pf | rnr _ pf | rej _ pf => pf ≤ 1
  | srej _ => True

/-- What the frame is sent to say. -/
def sense (s : Sock) : SendCall → Sense
  | write _ => ⟨.i, some s.vs, s.vr, s.pollFlag, .command⟩
  | resend seq => ⟨.i, some seq, s.vr, s.pollFlag, .command⟩
  | rr cr pf => ⟨.rr, none, s.vr, pf, cr⟩
  | rnr cr pf => ⟨.rnr, none, s.vr, pf, cr⟩
  | rej cr pf => ⟨.rej, none, s.vr, pf, cr⟩
  | srej cr => ⟨.srej, none, s.vr, 1, cr⟩

end SendCall

/-- A peer in the mode of `s` decodes in the octets what they were sent to say. -/
def Carries (s : Sock) (octets : Bytes) (x : Sense) : Prop :=
  ∀ (frame : Frame) (rest : Mem), ∃ f next,
    decodeFrame frame s.format (.ofBytes octets rest) octets.length = some (f, next) ∧ f.Says x

/-! ## The octets that are sent -/

namespace M

variable {w w' : World} {s : Sock} {i : Nat} {octets : Bytes}

/-- The frame that `frame_send` hands to a driver, if it does. -/
theorem frameSend_sent {cr : FrameCr} {control : Nat} {proto : UInt8} {info : Bytes} :
    wp (frameSend s cr control proto info) (fun _ w' => w'.sent = w.sent ∨
      ∃ i, w'.sent = w.sent ++ [(i, s.frameOctets cr control proto info)]) (fun _ => True) w := by
  rw [frameSend, wp_bind, wp_lift]
  refine ⟨?_, fun _ _ => trivial⟩
  rintro ((_ | e) | frame) h
  · exact .inl rfl
  · exact .inl rfl
  · dsimp only
    cases s.iface with
    | none => exact .inl rfl
    | some i =>
      refine ifSend_sent.post fun _ w' h' => h'.imp_right fun h' => ⟨i, ?_⟩
      rw [h', encodeFrame_ok h]
      rfl

theorem sockWrite_sent {bs : Bytes} (htype : s.type = .stream) (hmode : s.mode ≠ .dm)
    (hlen : bs.length ≤ s.nMaxlenTx) : wp (sockWrite s (.ofBytes bs fun _ => 0) bs.length)
    (fun _ w' => w'.sent = w.sent ∨ ∃ i, w'.sent = w.sent ++
      [(i, s.frameOctets .command (s.controlI s.vs) (UInt8.ofNat s.proto) bs)])
    (fun _ => True) w := by
  rw [sockWrite, if_neg hmode]
  simp only [htype]
  rw [if_neg (by omega), Mem.read_ofBytes, wp_bind, wp_lift]
  refine ⟨fun s' h => ?_, fun _ _ => trivial⟩
  obtain ⟨buf, rfl⟩ := Sock.txSlotSave_eq h
  rw [wp_bind]
  refine frameSend_sent.post fun r w' h' => ?_
  rw [wp_ite]
  exact ⟨fun _ => h', fun _ => h'⟩

theorem sockResend_sent {seq : Nat} : wp (sockResend s seq)
    (fun _ w' => w'.sent = w.sent ∨ ∃ i info, info ≠ [] ∧ w'.sent = w.sent ++
      [(i, s.frameOctets .command (s.controlI seq) (UInt8.ofNat s.proto) info)])
    (fun _ => True) w := by
  rw [sockResend, wp_bind, wp_lift]
  refine ⟨fun r _ => ?_, fun _ _ => trivial⟩
  obtain ⟨buf, off⟩ := r
  dsimp only
  rw [wp_ite]
  refine ⟨fun hpos => frameSend_sent.post fun r w' h => h.imp_right ?_, fun _ => .inl rfl⟩
  rintro ⟨i, h⟩
  refine ⟨i, _, fun hnil => ?_, h⟩
  have hlen : (Sock.slotData buf.mem off).length = Sock.slotLen buf.mem off := Mem.length_read
  rw [hnil, List.length_nil] at hlen
  omega

end M

/-! ## The fields of the frames -/

variable {s : Sock}

/-- The numbers fit the six bits that the decoder looks at. -/
def SixBits (s : Sock) (x : Sense) : Prop :=
  s.mode = .sabme → x.nr < 64 ∧ ∀ ns, x.ns = some ns → ns < 64

theorem slots_cases (hmode : s.mode ≠ .dm) :
    s.mode = .sabm ∧ s.slots = 8 ∧ s.format = .normal ∨
      s.mode = .sabme ∧ s.slots = 128 ∧ s.format = .extended := by
  cases h : s.mode with
  | dm => exact absurd h hmode
  | sabm => exact .inl ⟨rfl, by simp [Sock.slots, h], by simp [Sock.format, h]⟩
  | sabme => exact .inr ⟨rfl, by simp [Sock.slots, h], by simp [Sock.format, h]⟩

/-- The control field of an I frame, and what is read in it. -/
theorem controlI_fields {ns : Nat} (hmode : s.mode ≠ .dm) (hvr : s.vr < s.slots) (hns : ns < s.slots) :
    s.FitsControl (s.controlI ns) ∧ controlI (s.controlI ns) ∧
      decodePf (s.controlI ns) s.format = s.pollFlag ∧
      (decodeNr (s.controlI ns) s.format = s.vr ∧ decodeNs (s.controlI ns) s.format = ns ↔
        (s.mode = .sabme → s.vr < 64 ∧ ns < 64)) := by
  have hpoll := s.pollFlag_le
  obtain ⟨hm, hslots, hformat⟩ | ⟨hm, hslots, hformat⟩ := slots_cases hmode
  · rw [hslots] at hvr hns
    rw [hformat, Sock.FitsControl, controlI_eq, decodePf_normal, decodeNr_normal, decodeNs_normal,
      controlI_sabm hm, hm, beq_iff_eq]
    have hsum : s.vr % 8 * 32 + s.pollFlag * 16 + ns % 8 * 2 < 2 ^ 8 := by omega
    refine ⟨by simpa using hsum, by omega, by omega, ⟨fun _ h => ?_, fun _ => by omega⟩⟩
    cases h
  · rw [hslots] at hvr hns
    have heven : controlI (s.vr % 128 * 512 + s.pollFlag * 256 + ns % 128 * 2) := by
      rw [controlI_eq, beq_iff_eq]
      omega
    have hU : ¬controlU (s.vr % 128 * 512 + s.pollFlag * 256 + ns % 128 * 2) := by
      rw [controlU_eq, beq_iff_eq]
      omega
    rw [hformat, Sock.FitsControl, decodePf_extended, decodeNr_extended, decodeNs_extended,
      controlI_sabme hm, if_pos ⟨hm, hU⟩]
    refine ⟨by omega, heven, by omega, ⟨fun h _ => by omega, fun h => ?_⟩⟩
    have hlt := h hm
    omega

theorem frameTypeS_code {type : FrameType} (h : type = .rr ∨ type = .rnr ∨ type = .rej ∨ type = .srej) :
    type.code % 4 = 1 ∧ type.code < 16 ∧ frameTypeS type.code = type := by
  obtain rfl | rfl | rfl | rfl := h <;> decide

/-- The control field of an S frame, and what is read in it. -/
theorem controlS_fields {type : FrameType} {pf : Nat}
    (htype : type = .rr ∨ type = .rnr ∨ type = .rej ∨ type = .srej) (hmode : s.mode ≠ .dm)
    (hvr : s.vr < s.slots) (hpf : pf ≤ 1) :
    s.FitsControl (s.controlS type pf) ∧ controlS (s.controlS type pf) ∧
      frameTypeS (s.controlS type pf &&& PATTY_AX25_FRAME_S_MASK) = type ∧
      decodePf (s.controlS type pf) s.format = pf ∧
      (decodeNr (s.controlS type pf) s.format = s.vr ↔ (s.mode = .sabme → s.vr < 64)) := by
  obtain ⟨hcode, hlt, hdec⟩ := frameTypeS_code htype
  have hmask (n : Nat) : n &&& PATTY_AX25_FRAME_S_MASK = n % 16 := Nat.and_two_pow_sub_one_eq_mod n 4
  have hlow {n : Nat} (h : n % 16 = type.code) : frameTypeS (n &&& PATTY_AX25_FRAME_S_MASK) = type := by
    rw [hmask, h, hdec]
  obtain ⟨hm, hslots, hformat⟩ | ⟨hm, hslots, hformat⟩ := slots_cases hmode
  · rw [hslots] at hvr
    rw [hformat, Sock.FitsControl, controlS_eq, decodePf_normal, decodeNr_normal, controlS_sabm hm hpf,
      hm, beq_iff_eq]
    have hsum : s.vr % 8 * 32 + pf * 16 + type.code % 16 < 2 ^ 8 := by omega
    refine ⟨by simpa using hsum, by omega, hlow (by omega), by omega, ⟨fun _ h => ?_, fun _ => by omega⟩⟩
    cases h
  · rw [hslots] at hvr
    have hS : controlS (s.vr % 128 * 512 + pf * 256 + type.code % 16) := by
      rw [controlS_eq, beq_iff_eq]
      omega
    have hU : ¬controlU (s.vr % 128 * 512 + pf * 256 + type.code % 16) := by
      rw [controlU_eq, beq_iff_eq]
      omega
    rw [hformat, Sock.FitsControl, decodePf_extended, decodeNr_extended, controlS_sabme hm hpf,
      if_pos ⟨hm, hU⟩]
    refine ⟨by omega, hS, hlow (by omega), by omega, ⟨fun h _ => by omega, fun h => ?_⟩⟩
    have hlt := h hm
    omega

/-! ## Frames that are understood -/

/-- An I frame is understood if and only if its numbers fit. -/
theorem carries_i {ns : Nat} {proto : UInt8} {info : Bytes} (haddr : s.Addressed) (hmode : s.mode ≠ .dm)
    (hvr : s.vr < s.slots) (hns : ns < s.slots) (hne : info ≠ []) :
    Carries s (s.frameOctets .command (s.controlI ns) proto info)
      ⟨.i, some ns, s.vr, s.pollFlag, .command⟩ ↔
      SixBits s ⟨.i, some ns, s.vr, s.pollFlag, .command⟩ := by
  obtain ⟨hfits, hI, hpf, hiff⟩ := controlI_fields hmode hvr hns
  have hsix : SixBits s ⟨.i, some ns, s.vr, s.pollFlag, .command⟩ ↔
      (s.mode = .sabme → s.vr < 64 ∧ ns < 64) := by simp [SixBits]
  have hdec (frame : Frame) (rest : Mem) := decodeFrame_i frame .command proto rest haddr hfits hI hne
  rw [hsix, ← hiff]
  constructor
  · intro h
    obtain ⟨f, next, hf, hcarry⟩ := h .blank fun _ => 0
    obtain ⟨f', hf', hI', -⟩ := hdec .blank fun _ => 0
    rw [hf'] at hf
    cases hf
    exact ⟨hI'.nr.symm.trans hcarry.nr, hI'.ns.symm.trans (hcarry.ns _ rfl)⟩
  · rintro ⟨hnr, hns'⟩ frame rest
    obtain ⟨f, hf, hI', -⟩ := hdec frame rest
    refine ⟨f, _, hf, hI'.type, fun n hn => ?_, hI'.nr.trans hnr, hI'.pf.trans hpf, hI'.cr⟩
    cases hn
    exact hI'.ns.trans hns'

/-- An S frame is understood if and only if its number fits. -/
theorem carries_s {type : FrameType} {cr : FrameCr} {pf : Nat} {proto : UInt8}
    (htype : type = .rr ∨ type = .rnr ∨ type = .rej ∨ type = .srej) (haddr : s.Addressed)
    (hmode : s.mode ≠ .dm) (hvr : s.vr < s.slots) (hpf : pf ≤ 1) :
    Carries s (s.frameOctets cr (s.controlS type pf) proto []) ⟨type, none, s.vr, pf, cr⟩ ↔
      SixBits s ⟨type, none, s.vr, pf, cr⟩ := by
  obtain ⟨hfits, hS, hcode, hflag, hiff⟩ := controlS_fields htype hmode hvr hpf
  have hsix : SixBits s ⟨type, none, s.vr, pf, cr⟩ ↔ (s.mode = .sabme → s.vr < 64) := by
    simp [SixBits]
  have hknown : type ≠ .unknown := by
    obtain rfl | rfl | rfl | rfl := htype <;> decide
  have hdec (frame : Frame) (rest : Mem) := decodeFrame_s frame cr proto rest haddr hfits hS hcode hknown
  rw [hsix, ← hiff]
  constructor
  · intro h
    obtain ⟨f, next, hf, hcarry⟩ := h .blank fun _ => 0
    obtain ⟨f', hf', -, -, hnr, -⟩ := hdec .blank fun _ => 0
    rw [hf'] at hf
    cases hf
    exact hnr.symm.trans hcarry.nr
  · intro hnr frame rest
    obtain ⟨f, hf, ht, hcr, hnr', hpf'⟩ := hdec frame rest
    exact ⟨f, _, hf, ht, fun n hn => (by cases hn), hnr'.trans hnr, hpf'.trans hflag, hcr⟩

/-- The frame that a call sends is understood if and only if its numbers fit the masks of the decoder. -/
theorem carries_iff {w w' : World} {i : Nat} {octets : Bytes} (s : Sock) (call : SendCall)
    (haddr : s.Addressed) (htype : s.type = .stream) (hmode : s.mode ≠ .dm) (hvs : s.vs < s.slots)
    (hvr : s.vr < s.slots) (hcall : call.Valid s) (hrun : (call.run s).after w = some w')
    (hsent : w'.sent = w.sent ++ [(i, octets)]) :
    Carries s octets (call.sense s) ↔ SixBits s (call.sense s) := by
  have hone {i' : Nat} {octets' : Bytes}
      (h : w'.sent = w.sent ∨ w'.sent = w.sent ++ [(i', octets')]) : octets = octets' := by
    rw [hsent] at h
    exact (by simpa using h : i = i' ∧ octets = octets').2
  have hs {type : FrameType} {cr : FrameCr} {pf : Nat}
      (hS : type = .rr ∨ type = .rnr ∨ type = .rej ∨ type = .srej) (hpf : pf ≤ 1)
      (h : (do let _ ← M.sendS type s cr pf : M Unit).after w = some w') :
      Carries s octets ⟨type, none, s.vr, pf, cr⟩ ↔ SixBits s ⟨type, none, s.vr, pf, cr⟩ := by
    obtain h | ⟨i', h⟩ := (wp_bind.mpr M.frameSend_sent).after h
    · exact absurd (hsent.symm.trans h) (by simp)
    · rw [hone (.inr h)]
      exact carries_s hS haddr hmode hvr hpf
  cases call with
  | write bs =>
    obtain h | ⟨i', h⟩ := (wp_bind.mpr (M.sockWrite_sent htype hmode hcall.2)).after hrun
    · exact absurd (hsent.symm.trans h) (by simp)
    · rw [hone (.inr h)]
      exact carries_i haddr hmode hvr hvs hcall.1
  | resend seq =>
    obtain h | ⟨i', info, hne, h⟩ := (wp_bind.mpr M.sockResend_sent).after hrun
    · exact absurd (hsent.symm.trans h) (by simp)
    · rw [hone (.inr h)]
      exact carries_i haddr hmode hvr hcall hne
  | rr cr pf => exact hs (by simp) hcall hrun
  | rnr cr pf => exact hs (by simp) hcall hrun
  | rej cr pf => exact hs (by simp) hcall hrun
  | srej cr => exact hs (by simp) (Nat.le_refl 1) hrun

/-! ## A frame that is not understood -/

theorem acceptedSock_addressed : acceptedSock.Addressed where
  remote := (by decide : decodeCallsign _ false = true)
  localAddr := (by decide : decodeCallsign _ false = true)
  hops := Nat.zero_le _
  repeaters _ h := absurd h (Nat.not_lt_zero _)

/-- The first byte that is written is sent in a frame that is understood. -/
theorem carries_first : ∃ w' octets,
    ((SendCall.write [0x61]).run acceptedSock).after (.withSock acceptedSock) = some w' ∧
    w'.sent = [(0, octets)] ∧ Carries acceptedSock octets ⟨.i, some 0, 0, 0, .command⟩ := by
  have hrun : (((SendCall.write [0x61]).run acceptedSock).after (.withSock acceptedSock)).any fun w' =>
      w'.sent == [(0, acceptedSock.frameOctets .command 0 0xf0 [0x61])] := by decide
  obtain ⟨w', hw', hsent⟩ := Option.any_eq_true _ _ |>.mp hrun
  rw [beq_iff_eq] at hsent
  have hiff := carries_iff acceptedSock (.write [0x61]) acceptedSock_addressed rfl (by decide) (by decide)
    (by decide) ⟨by simp, by decide⟩ hw' (i := 0) (by rw [hsent]; rfl)
  exact ⟨w', _, hw', hsent, hiff.mpr fun h => absurd h (by decide)⟩

/-- A socket in SABME that has received 64 frames. -/
def halfwaySock : Sock := { acceptedSock with mode := .sabme, vr := 64 }

theorem halfwaySock_addressed : halfwaySock.Addressed :=
  ⟨acceptedSock_addressed.remote, acceptedSock_addressed.localAddr, acceptedSock_addressed.hops,
    acceptedSock_addressed.repeaters⟩

/-- The number 64 that it sends in a RR frame is read as 0. -/
theorem not_carries_halfway : ¬∀ (s : Sock) (call : SendCall) (w w' : World) (i : Nat) (octets : Bytes),
    s.Addressed → s.type = .stream → s.mode ≠ .dm → s.vs < s.slots → s.vr < s.slots → call.Valid s →
    (call.run s).after w = some w' → w'.sent = w.sent ++ [(i, octets)] →
    Carries s octets (call.sense s) := by
  intro h
  have hrun : (((SendCall.rr .response 0).run halfwaySock).after (.withSock halfwaySock)).any fun w' =>
      w'.sent == [(0, halfwaySock.frameOctets .response 0x8001 0 [])] := by decide
  obtain ⟨w', hw', hsent⟩ := Option.any_eq_true _ _ |>.mp hrun
  rw [beq_iff_eq] at hsent
  obtain ⟨f, next, hdec, hcarry⟩ := h halfwaySock (.rr .response 0) (.withSock halfwaySock) w' 0 _
    halfwaySock_addressed rfl (by decide) (by decide) (by decide) (Nat.zero_le 1) hw'
    (by rw [hsent]; rfl) .blank fun _ => 0
  have hzero : (decodeFrame .blank .extended
      (.ofBytes (halfwaySock.frameOctets .response 0x8001 0 []) fun _ => 0)
      (halfwaySock.frameOctets .response 0x8001 0 []).length).map (·.1.nr) = some 0 := by decide
  have hnr : f.nr = 64 := hcarry.nr
  rw [show (decodeFrame .blank .extended _ _ = some (f, next)) from hdec] at hzero
  rw [Option.map_some, hnr] at hzero
  cases hzero

end Patty
