import Patty.FrameReads
import Patty.Lib.Bits
import Patty.Wire.Address

/-! # Control fields on the wire

The control fields of I and S frames as sums of their fields, and what the decoder finds in a frame
that a socket has sent: the control field, and the information field of an I frame. -/

namespace Patty

variable {s : Sock} {ns : Nat} {type : FrameType} {cr : FrameCr}

/-! ## The fields of a control field -/

/-- The format in which `handle_frame` decodes the frames for a socket. -/
def Sock.format (s : Sock) : FrameFormat := if s.mode = .sabme then .extended else .normal

/-- The P bit of an I frame. -/
def Sock.pollFlag (s : Sock) : Nat := if s.flowLeft = 1 then 1 else 0

theorem Sock.pollFlag_le (s : Sock) : s.pollFlag ≤ 1 := by
  unfold Sock.pollFlag
  split <;> omega

/-- The word of a control field, from its fields. -/
theorem control_word {a b f i j : Nat} (hf : f ≤ 1) (hb : b < 2 ^ i) (hij : 2 ^ i + b < 2 ^ j) :
    a <<< j ||| b ||| f <<< i = a * 2 ^ j + f * 2 ^ i + b := by
  refine Bits.word hb (lt_of_le_of_lt ?_ hij)
  exact Nat.add_le_add_right ((Nat.mul_le_mul_right _ hf).trans_eq (Nat.one_mul _)) b

theorem controlI_sabm (h : s.mode = .sabm) :
    s.controlI ns = s.vr % 8 * 32 + s.pollFlag * 16 + ns % 8 * 2 := by
  have h7 (n : Nat) : n &&& 0x07 = n % 8 := Nat.and_two_pow_sub_one_eq_mod n 3
  have hns : (ns % 8) <<< 1 = ns % 8 * 2 := Nat.shiftLeft_eq ..
  have hsum : s.controlI ns = (s.vr % 8) <<< 5 ||| ns % 8 * 2 ||| s.pollFlag <<< 4 := by
    simp only [Sock.controlI, h, h7, hns]
    rfl
  exact hsum.trans (control_word s.pollFlag_le (by omega) (by omega))

theorem controlI_sabme (h : s.mode = .sabme) :
    s.controlI ns = s.vr % 128 * 512 + s.pollFlag * 256 + ns % 128 * 2 := by
  have h7f (n : Nat) : n &&& 0x7f = n % 128 := Nat.and_two_pow_sub_one_eq_mod n 7
  have hns : (ns % 128) <<< 1 = ns % 128 * 2 := Nat.shiftLeft_eq ..
  have hsum : s.controlI ns = (s.vr % 128) <<< 9 ||| ns % 128 * 2 ||| s.pollFlag <<< 8 := by
    simp only [Sock.controlI, h, h7f, hns]
    rfl
  exact hsum.trans (control_word s.pollFlag_le (by omega) (by omega))

theorem controlS_sabm (h : s.mode = .sabm) {pf : Nat} (hpf : pf ≤ 1) :
    s.controlS type pf = s.vr % 8 * 32 + pf * 16 + type.code % 16 := by
  have h7 (n : Nat) : n &&& 0x07 = n % 8 := Nat.and_two_pow_sub_one_eq_mod n 3
  have hf (n : Nat) : n &&& 0x0f = n % 16 := Nat.and_two_pow_sub_one_eq_mod n 4
  have hsum : s.controlS type pf = (s.vr % 8) <<< 5 ||| type.code % 16 ||| pf <<< 4 := by
    simp only [Sock.controlS, h, h7, hf]
  exact hsum.trans (control_word hpf (by omega) (by omega))

theorem controlS_sabme (h : s.mode = .sabme) {pf : Nat} (hpf : pf ≤ 1) :
    s.controlS type pf = s.vr % 128 * 512 + pf * 256 + type.code % 16 := by
  have h7f (n : Nat) : n &&& 0x7f = n % 128 := Nat.and_two_pow_sub_one_eq_mod n 7
  have hf (n : Nat) : n &&& 0x0f = n % 16 := Nat.and_two_pow_sub_one_eq_mod n 4
  have hsum : s.controlS type pf = (s.vr % 128) <<< 9 ||| type.code % 16 ||| pf <<< 8 := by
    simp only [Sock.controlS, h, h7f, hf]
  exact hsum.trans (control_word hpf (by omega) (by omega))

/-! ## Decoding it -/

theorem decodeNr_normal (c : Nat) : decodeNr c .normal = c / 32 % 8 := Bits.field c 5 3

theorem decodeNr_extended (c : Nat) : decodeNr c .extended = c / 512 % 64 := Bits.field c 9 6

theorem decodeNs_normal (c : Nat) : decodeNs c .normal = c / 2 % 8 := Bits.field c 1 3

theorem decodeNs_extended (c : Nat) : decodeNs c .extended = c / 2 % 64 := Bits.field c 1 6

theorem decodePf_normal (c : Nat) : decodePf c .normal = c / 16 % 2 := Bits.field c 4 1

theorem decodePf_extended (c : Nat) : decodePf c .extended = c / 256 % 2 := Bits.field c 8 1

theorem controlI_eq (c : Nat) : controlI c = (c % 2 == 0) := by
  rw [controlI, show c &&& 0x01 = c % 2 from Nat.and_two_pow_sub_one_eq_mod c 1]

theorem controlS_eq (c : Nat) : controlS c = (c % 4 == 1) := by
  rw [controlS, show c &&& 0x03 = c % 4 from Nat.and_two_pow_sub_one_eq_mod c 2]

theorem controlU_eq (c : Nat) : controlU c = (c % 4 == 3) := by
  rw [controlU, show c &&& 0x03 = c % 4 from Nat.and_two_pow_sub_one_eq_mod c 2]

/-! ## Frames that were sent -/

/-- The octets of a control field. -/
def Sock.controlOctets (s : Sock) (control : Nat) : Bytes :=
  UInt8.ofNat (control &&& 0x00ff) ::
    if s.mode = .sabme && !controlU control then [UInt8.ofNat ((control &&& 0xff00) >>> 8)] else []

theorem frameHeader_eq (s : Sock) (cr : FrameCr) (control : Nat) (proto : UInt8) (info : Bool) :
    s.frameHeader cr control proto info = s.addressField cr ++ s.controlOctets control ++
      if info && controlI control then [proto] else [] := by
  simp [Sock.frameHeader, Sock.controlOctets]

/-- The control field is one of the mode: two octets in an I or S frame of SABME, else one. -/
def Sock.FitsControl (s : Sock) (control : Nat) : Prop :=
  control < if s.mode = .sabme ∧ ¬controlU control then 2 ^ 16 else 2 ^ 8

theorem toNat_low (c : Nat) : (UInt8.ofNat (c &&& 0x00ff)).toNat = c % 256 := by
  rw [show c &&& 0x00ff = c % 256 from Nat.and_two_pow_sub_one_eq_mod c 8, UInt8.toNat_ofNat']
  omega

theorem toNat_high (c : Nat) : (UInt8.ofNat ((c &&& 0xff00) >>> 8)).toNat = c / 256 % 256 := by
  rw [show (c &&& 0xff00) >>> 8 = c / 256 % 256 from Bits.field c 8 8, UInt8.toNat_ofNat']
  omega

/-- What is left of a control field on the wire. -/
def FrameFormat.kept (format : FrameFormat) (control : Nat) : Nat :=
  if format = .extended ∧ ¬controlU control then control % 2 ^ 16 else control % 2 ^ 8

/-- The control field is one of the format: two octets in an extended I or S frame, else one. -/
def FrameFormat.Fits (format : FrameFormat) (control : Nat) : Prop :=
  control < if format = .extended ∧ ¬controlU control then 2 ^ 16 else 2 ^ 8

theorem FrameFormat.Fits.kept {format : FrameFormat} {control : Nat} (h : format.Fits control) :
    format.kept control = control := by
  unfold FrameFormat.Fits at h
  unfold FrameFormat.kept
  split at h
  · rw [if_pos ‹_›, Nat.mod_eq_of_lt h]
  · rw [if_neg ‹_›, Nat.mod_eq_of_lt h]

theorem toNat_ofNat_mod (c : Nat) : (UInt8.ofNat c).toNat = c % 256 := UInt8.toNat_ofNat'

/-- A control field is read back. -/
theorem readControl_encode {buf : Mem} {off control : Nat} {format : FrameFormat}
    (hread : buf.read off (encodeControl format control).length = encodeControl format control) :
    readControl format buf off = (format.kept control, off + (encodeControl format control).length) := by
  have hU : controlU (control % 256) = controlU control := by
    rw [controlU_eq, controlU_eq, Nat.mod_mod_of_dvd _ (by decide : 4 ∣ 256)]
  cases format with
  | normal =>
    rw [encodeControl, List.length_singleton, Mem.read_succ] at hread
    have hlow : (buf off).toNat = control % 256 := by rw [(List.cons.inj hread).1, toNat_ofNat_mod]
    rw [readControl, hlow]
    rfl
  | extended =>
    by_cases hc : controlU control
    · simp only [encodeControl, hc, if_true, List.length_singleton] at hread ⊢
      rw [Mem.read_succ] at hread
      have hlow : (buf off).toNat = control % 256 := by rw [(List.cons.inj hread).1, toNat_low]
      simp only [readControl, hlow, hU, hc, if_true, FrameFormat.kept, not_true, and_false, if_false]
      rfl
    · simp only [encodeControl, hc, Bool.false_eq_true, if_false, List.length_cons, List.length_nil] at hread ⊢
      rw [Mem.read_succ, Mem.read_succ] at hread
      obtain ⟨hfst, hsnd⟩ := List.cons.inj hread
      have hlow : (buf off).toNat = control % 256 := by rw [hfst, toNat_low]
      have hhigh : (buf (off + 1)).toNat = control / 256 % 256 := by
        rw [(List.cons.inj hsnd).1, toNat_high]
      have hsum : control % 256 ||| (control / 256 % 256) <<< 8 = control % 2 ^ 16 := by
        rw [Nat.or_comm, ← Nat.shiftLeft_add_eq_or_of_lt (Nat.mod_lt _ (by decide)), Nat.shiftLeft_eq]
        omega
      simp only [readControl, hlow, hhigh, hU, hc, hsum, FrameFormat.kept, Bool.false_eq_true,
        not_false_eq_true, and_self, if_true, if_false]

theorem controlOctets_eq (s : Sock) (control : Nat) :
    s.controlOctets control = encodeControl s.format control := by
  have hmask : UInt8.ofNat (control &&& 0x00ff) = UInt8.ofNat control := by
    apply UInt8.toNat_inj.mp
    rw [toNat_low, toNat_ofNat_mod]
  by_cases hmode : s.mode = .sabme
  · cases hc : controlU control <;> simp [Sock.controlOctets, Sock.format, encodeControl, hmode, hc]
  · simp [Sock.controlOctets, Sock.format, encodeControl, hmode, hmask]

theorem Sock.FitsControl.fits {control : Nat} (h : s.FitsControl control) : s.format.Fits control := by
  unfold Sock.FitsControl at h
  by_cases hmode : s.mode = .sabme
  · simpa [FrameFormat.Fits, Sock.format, hmode] using h
  · simpa [FrameFormat.Fits, Sock.format, hmode] using h

/-- The control field that a socket has sent is read back. -/
theorem readControl_octets {buf : Mem} {off control : Nat} (h : s.FitsControl control)
    (hread : buf.read off (s.controlOctets control).length = s.controlOctets control) :
    readControl s.format buf off = (control, off + (s.controlOctets control).length) := by
  rw [controlOctets_eq] at hread ⊢
  rw [readControl_encode hread, h.fits.kept]

/-- The octets of a frame that a socket sends. -/
def Sock.frameOctets (s : Sock) (cr : FrameCr) (control : Nat) (proto : UInt8) (info : Bytes) : Bytes :=
  s.frameHeader cr control proto (!info.isEmpty) ++ info

variable {control : Nat} {proto : UInt8} {info : Bytes}

/-- Where the control field of the frames of a socket ends. -/
def Sock.controlEnd (s : Sock) (control : Nat) : Nat :=
  7 * (2 + s.hops) + (s.controlOctets control).length

/-- What is read back in a frame that a socket has sent. -/
theorem decodeFrame_sent (frame : Frame) (cr : FrameCr) (proto : UInt8) (info : Bytes) (rest : Mem)
    (h : s.Addressed) (hc : s.FitsControl control) : ∃ f, f.cr = cr ∧
      decodeFrame frame s.format (.ofBytes (s.frameOctets cr control proto info) rest)
        (s.frameOctets cr control proto info).length =
      decodeControl f s.format (.ofBytes (s.frameOctets cr control proto info) rest) (7 * (2 + s.hops))
        (s.frameOctets cr control proto info).length ∧
      readControl s.format (.ofBytes (s.frameOctets cr control proto info) rest) (7 * (2 + s.hops)) =
        (control, s.controlEnd control) := by
  have haddr := @length_addressField cr s h.hops
  have hoctets : s.frameOctets cr control proto info = s.addressField cr ++ (s.controlOctets control ++
      ((if !info.isEmpty && controlI control then [proto] else []) ++ info)) := by
    rw [Sock.frameOctets, frameHeader_eq]
    simp only [List.append_assoc]
  have hstart : (Mem.ofBytes (s.frameOctets cr control proto info) rest).read 0 (7 * (2 + s.hops)) =
      s.addressField cr := by
    rw [hoctets, ← haddr]
    exact Mem.read_ofBytes_mid [] (s.addressField cr) _ rest
  have hlen : 7 * (2 + s.hops) ≤ (s.frameOctets cr control proto info).length := by
    rw [hoctets, ← haddr, List.length_append]
    exact Nat.le_add_right ..
  obtain ⟨f, hf, hcr⟩ := decodeAddress_addressField frame h hlen hstart
  refine ⟨f, hcr.cr, ?_, readControl_octets hc ?_⟩
  · rw [decodeFrame, hf]
  · rw [hoctets, ← haddr]
    exact Mem.read_ofBytes_mid _ _ _ _

/-- What the decoder finds in an I frame. -/
structure IsFrameI (f : Frame) (format : FrameFormat) (cr : FrameCr) (control : Nat)
    (proto : UInt8) : Prop where
  type : f.type = .i
  cr : f.cr = cr
  nr : f.nr = decodeNr control format
  ns : f.ns = decodeNs control format
  pf : f.pf = decodePf control format
  proto : f.proto = proto

/-- The control field of an I frame that a socket has sent, and what follows it. -/
theorem decodeControl_i (frame : Frame) (cr : FrameCr) (proto : UInt8) (rest : Mem)
    (hc : s.FitsControl control) (hI : controlI control) (hne : info ≠ []) :
    ∃ f, decodeControl frame s.format (.ofBytes (s.frameOctets cr control proto info) rest)
        (s.addressField cr).length (s.frameOctets cr control proto info).length =
      some (f, (s.frameOctets cr control proto info).length) ∧
      IsFrameI f s.format frame.cr control proto ∧
      (∃ m, f.info = some m ∧ m.read 0 info.length = info) ∧
      ((s.frameOctets cr control proto info).length < 2 ^ 64 → f.infolen = info.length) := by
  have hempty : info.isEmpty = false := by simpa using hne
  have hoctets : s.frameOctets cr control proto info =
      (s.addressField cr ++ s.controlOctets control) ++ ([proto] ++ info) := by
    rw [Sock.frameOctets, frameHeader_eq, hempty, hI]
    simp only [Bool.not_false, Bool.and_self, if_true, List.append_assoc]
  have hread : readControl s.format (.ofBytes (s.frameOctets cr control proto info) rest)
      (s.addressField cr).length = (control, (s.addressField cr ++ s.controlOctets control).length) := by
    rw [List.length_append]
    refine readControl_octets hc ?_
    rw [hoctets, List.append_assoc]
    exact Mem.read_ofBytes_mid _ _ _ _
  have hproto : Mem.ofBytes (s.frameOctets cr control proto info) rest
      (s.addressField cr ++ s.controlOctets control).length = proto := by
    rw [hoctets]
    have := Mem.read_ofBytes_mid (s.addressField cr ++ s.controlOctets control) [proto] info rest
    exact List.singleton_inj.mp this
  have hinfo : (Mem.ofBytes (s.frameOctets cr control proto info) rest).read
      ((s.addressField cr ++ s.controlOctets control).length + 1) info.length = info := by
    rw [hoctets, ← List.append_assoc]
    have := Mem.read_ofBytes_mid (s.addressField cr ++ s.controlOctets control ++ [proto]) info [] rest
    rw [List.append_nil, @List.length_append _ _ [proto]] at this
    exact this
  rw [decodeControl_eq, hread]
  simp only [Frame.classed, hI, if_true, hproto]
  refine ⟨_, rfl, ⟨rfl, rfl, rfl, rfl, rfl, rfl⟩, ⟨_, rfl, ?_⟩, fun hlen => ?_⟩
  · rw [Mem.read_shift, hinfo]
  · have htotal : (s.frameOctets cr control proto info).length =
        (s.addressField cr ++ s.controlOctets control).length + 1 + info.length := by
      rw [hoctets, List.length_append, @List.length_append _ [proto] info, List.length_singleton,
        Nat.add_assoc]
    have hsub := @Nat.add_sub_cancel_left
      ((s.addressField cr ++ s.controlOctets control).length + 1) info.length
    rw [← htotal] at hsub
    exact (sizeSub_of_le (by omega) hlen).trans hsub

/-- An I frame that a socket has sent. -/
theorem decodeFrame_i (frame : Frame) (cr : FrameCr) (proto : UInt8) (rest : Mem) (h : s.Addressed)
    (hc : s.FitsControl control) (hI : controlI control) (hne : info ≠ []) :
    ∃ f, decodeFrame frame s.format (.ofBytes (s.frameOctets cr control proto info) rest)
        (s.frameOctets cr control proto info).length =
      some (f, (s.frameOctets cr control proto info).length) ∧
      IsFrameI f s.format cr control proto ∧
      ((s.frameOctets cr control proto info).length < 2 ^ 64 →
        f.infolen = info.length ∧ f.infoBytes = info) := by
  obtain ⟨f₀, hcr, hdec, -⟩ := decodeFrame_sent frame cr proto info rest h hc
  obtain ⟨f, hf, hI', ⟨m, hm, hread⟩, hlen⟩ := decodeControl_i f₀ cr proto rest hc hI hne
  rw [length_addressField h.hops] at hf
  refine ⟨f, hdec.trans hf, hcr ▸ hI', fun hlt => ⟨hlen hlt, ?_⟩⟩
  rw [Frame.infoBytes, hm, hlen hlt]
  exact hread

/-- An S frame that a socket has sent. -/
theorem decodeFrame_s (frame : Frame) (cr : FrameCr) (proto : UInt8) (rest : Mem) (h : s.Addressed)
    (hc : s.FitsControl control) (hS : controlS control)
    (htype : frameTypeS (control &&& PATTY_AX25_FRAME_S_MASK) = type) (hknown : type ≠ .unknown) :
    ∃ f, decodeFrame frame s.format (.ofBytes (s.frameOctets cr control proto []) rest)
        (s.frameOctets cr control proto []).length = some (f, s.controlEnd control) ∧
      f.type = type ∧ f.cr = cr ∧ f.nr = decodeNr control s.format ∧
      f.pf = decodePf control s.format := by
  obtain ⟨f, hcr, hdec, hread⟩ := decodeFrame_sent frame cr proto [] rest h hc
  have hI : ¬controlI control := by
    rw [controlS_eq, beq_iff_eq] at hS
    rw [controlI_eq, beq_iff_eq]
    omega
  have hne := frameTypeS_ne (control &&& PATTY_AX25_FRAME_S_MASK)
  rw [htype] at hne
  rw [hdec, decodeControl_eq, hread]
  simp only [Frame.classed, hI, hS, htype, if_true]
  cases type with
  | unknown => exact absurd rfl hknown
  | i | ui | test => simp at hne
  | _ => exact ⟨_, rfl, rfl, hcr, rfl, rfl⟩

end Patty
