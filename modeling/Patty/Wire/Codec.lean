import Patty.Wire.Control

/-! # Frames of every type on the wire

What the decoders find in a frame that `patty_ax25_frame_encode` has stored: the stations, the control
field and the payload it was encoded from (`decodeFrame_encode`). `frame_send` writes the same format a second
time, and without the PID of an UI frame (`encodersAgree_iff`). -/

namespace Patty

/-- The control field is that of a TEST frame. -/
def controlTest (c : Nat) : Bool := c &&& PATTY_AX25_FRAME_U_MASK == FrameType.test.code

variable {frame f : Frame} {format : FrameFormat} {control next off len : Nat} {proto : UInt8}
  {info tail : Bytes} {buf rest : Mem}

/-! ## What a control field leaves to the payload -/

theorem controlTest_iff {c : Nat} : controlTest c ↔ controlU c ∧ c &&& PATTY_AX25_FRAME_U_MASK = 0xe3 := by
  simp only [controlTest, controlU, beq_iff_eq]
  refine ⟨fun h => ⟨?_, h⟩, fun h => h.2⟩
  calc c &&& 0x03 = c &&& 0xef &&& 0x03 := (Nat.and_assoc c 0xef 0x03).symm
    _ = 0x03 := by rw [show c &&& 0xef = 0xe3 from h]; rfl

theorem frameTypeU_eq_test {c : Nat} : frameTypeU c = .test ↔ c = 0xe3 := by
  unfold frameTypeU
  split_ifs <;> simp_all [FrameType.code]

/-- The fields that `patty_ax25_frame_decode_address` has set. -/
structure SameStations (f f' : Frame) : Prop where
  dest : f'.dest = f.dest
  src : f'.src = f.src
  hops : f'.hops = f.hops
  repeaters : f'.repeaters = f.repeaters
  cr : f'.cr = f.cr

/-- The control field gives the type, and leaves the stations. -/
structure ClassedAs (frame f : Frame) (c : Nat) : Prop where
  stations : SameStations frame f
  control : f.control = c
  i : f.type = .i ↔ controlI c
  ui : f.type = .ui ↔ controlUI c
  test : f.type = .test ↔ controlTest c

theorem classedAs (frame : Frame) (control : Nat) (format : FrameFormat) :
    ∃ f, frame.classed control format = some f ∧ ClassedAs frame f control := by
  by_cases hI : controlI control
  · have hU : ¬controlU control := not_controlU (.inl hI)
    refine ⟨_, if_pos hI, ⟨rfl, rfl, rfl, rfl, rfl⟩, rfl, ?_, ?_, ?_⟩
    · simp [hI]
    · simp [controlUI_iff, hU]
    · simp [controlTest_iff, hU]
  by_cases hS : controlS control
  · have hU : ¬controlU control := not_controlU (.inr hS)
    have hne := frameTypeS_ne (control &&& PATTY_AX25_FRAME_S_MASK)
    have hUI : ¬controlUI control := by simp [controlUI_iff, hU]
    have htest : ¬controlTest control := by simp [controlTest_iff, hU]
    unfold Frame.classed
    simp only [hI, hS, Bool.false_eq_true, if_true, if_false]
    generalize frameTypeS (control &&& PATTY_AX25_FRAME_S_MASK) = type at hne ⊢
    cases type with
    | i | ui | test => simp at hne
    | _ => exact ⟨_, rfl, ⟨rfl, rfl, rfl, rfl, rfl⟩, rfl, by simp [hI], by simp [hUI], by simp [htest]⟩
  · have hU := controlU_of_not hI hS
    have hUI : frameTypeU (control &&& PATTY_AX25_FRAME_U_MASK) = .ui ↔ controlUI control := by
      rw [controlUI_iff, frameTypeU_eq_ui]
      exact (and_iff_right hU).symm
    have htest : frameTypeU (control &&& PATTY_AX25_FRAME_U_MASK) = .test ↔ controlTest control := by
      rw [controlTest_iff, frameTypeU_eq_test]
      exact (and_iff_right hU).symm
    have hne := frameTypeU_ne (control &&& PATTY_AX25_FRAME_U_MASK)
    unfold Frame.classed
    simp only [hI, hS, hU, Bool.false_eq_true, if_true, if_false]
    generalize frameTypeU (control &&& PATTY_AX25_FRAME_U_MASK) = type at hne hUI htest ⊢
    cases type with
    | i => exact absurd rfl hne
    | _ => exact ⟨_, rfl, ⟨rfl, rfl, rfl, rfl, rfl⟩, rfl, by simp [hI], by simp [← hUI], by simp [← htest]⟩

/-- The decoder has found the payload after a control field: with the PID in an I or UI frame, as the
information field of a TEST frame, and behind the offset it returns in any other. -/
structure FindsPayload (f : Frame) (control : Nat) (buf : Mem) (next len : Nat) (proto : UInt8)
    (info : Bytes) : Prop where
  i : controlI control → f.type = .i ∧ f.proto = proto ∧ f.infoBytes = info
  ui : controlUI control → f.type = .ui ∧ f.proto = proto ∧ f.infoBytes = info
  test : controlTest control → f.type = .test ∧ f.infoBytes = info
  other : ¬controlI control → ¬controlUI control → ¬controlTest control →
    next ≤ len ∧ buf.read next (len - next) = info

/-- The PID that goes before the payload. -/
def pidOctets (control : Nat) (proto : UInt8) : Bytes :=
  if controlI control || controlUI control then [proto] else []

/-- What `decode_control` makes of a control field and what follows it. -/
theorem decodeControl_found (frame : Frame) (hread : readControl format buf off = (control, next))
    (htotal : len = next + (pidOctets control proto ++ info).length) (hlen : len < 2 ^ 64)
    (htail : buf.read next (pidOctets control proto ++ info).length = pidOctets control proto ++ info) :
    ∃ f end', decodeControl frame format buf off len = some (f, end') ∧ SameStations frame f ∧
      f.control = control ∧ FindsPayload f control buf end' len proto info := by
  obtain ⟨f, hf, hclass⟩ := classedAs frame control format
  rw [decodeControl_eq, hread]
  dsimp only
  rw [hf]
  dsimp only
  by_cases hpid : controlI control || controlUI control
  · have hbuf : buf next = proto ∧ buf.read (next + 1) info.length = info := by
      rw [pidOctets, if_pos hpid, List.singleton_append, List.length_cons, Mem.read_succ] at htail
      exact List.cons.inj htail
    have hsub : sizeSub len (next + 1) = info.length := by
      rw [pidOctets, if_pos hpid, List.singleton_append, List.length_cons] at htotal
      rw [sizeSub_of_le (by omega) hlen]
      omega
    have htype : f.type = .i ∨ f.type = .ui := by
      rwa [hclass.i, hclass.ui, ← Bool.or_eq_true]
    have htest : ¬controlTest control := by
      rw [← hclass.test]
      rcases htype with h | h <;> simp [h]
    have hinfo : Mem.read (fun i => buf (next + 1 + i)) 0 (sizeSub len (next + 1)) = info := by
      rw [Mem.read_shift, hsub, hbuf.2]
    refine ⟨{ f with
      proto := buf next
      info := some fun i => buf (next + 1 + i)
      infolen := sizeSub len (next + 1) }, len, ?_, ⟨hclass.stations.dest, hclass.stations.src,
        hclass.stations.hops, hclass.stations.repeaters, hclass.stations.cr⟩, hclass.control,
      fun h => ⟨hclass.i.mpr h, hbuf.1, hinfo⟩, fun h => ⟨hclass.ui.mpr h, hbuf.1, hinfo⟩,
      fun h => absurd h htest, fun h h' => absurd hpid (by simp [h, h'])⟩
    rcases htype with h | h <;> rw [h]
  · have hI : ¬controlI control := fun h => hpid (by simp [h])
    have hUI : ¬controlUI control := fun h => hpid (by simp [h])
    rw [pidOctets, if_neg hpid, List.nil_append] at htotal htail
    by_cases htest : controlTest control
    · have hsub : sizeSub len next = info.length := by
        rw [sizeSub_of_le (by omega) hlen]
        omega
      have hinfo : Mem.read (fun i => buf (next + i)) 0 (sizeSub len next) = info := by
        rw [Mem.read_shift, hsub, htail]
      refine ⟨{ f with
        info := some fun i => buf (next + i)
        infolen := sizeSub len next }, len, ?_, ⟨hclass.stations.dest, hclass.stations.src,
          hclass.stations.hops, hclass.stations.repeaters, hclass.stations.cr⟩, hclass.control,
        fun h => absurd h hI, fun h => absurd h hUI, fun h => ⟨hclass.test.mpr h, hinfo⟩,
        fun _ _ h => absurd htest h⟩
      rw [hclass.test.mpr htest]
    · refine ⟨f, next, ?_, hclass.stations, hclass.control, fun h => absurd h hI, fun h => absurd h hUI,
        fun h => absurd h htest, fun _ _ _ => ⟨by omega, ?_⟩⟩
      · have hi : f.type ≠ .i := fun h => hI (hclass.i.mp h)
        have hui : f.type ≠ .ui := fun h => hUI (hclass.ui.mp h)
        have ht : f.type ≠ .test := fun h => htest (hclass.test.mp h)
        cases htype : f.type <;> first | rfl | exact absurd htype ‹_›
      · rw [htotal, Nat.add_sub_cancel_left, htail]

/-! ## Any frame on the wire -/

theorem kept_and (format : FrameFormat) (c : Nat) {mask : Nat} (h : 255 &&& mask = mask)
    (h' : 65535 &&& mask = mask) : format.kept c &&& mask = c &&& mask := by
  have h8 : c % 2 ^ 8 = c &&& 255 := (Nat.and_two_pow_sub_one_eq_mod c 8).symm
  have h16 : c % 2 ^ 16 = c &&& 65535 := (Nat.and_two_pow_sub_one_eq_mod c 16).symm
  unfold FrameFormat.kept
  split
  · rw [h16, Nat.and_assoc, h']
  · rw [h8, Nat.and_assoc, h]

@[simp] theorem controlI_kept (format : FrameFormat) (c : Nat) : controlI (format.kept c) = controlI c := by
  rw [controlI, controlI, kept_and format c rfl rfl]

@[simp] theorem controlUI_kept (format : FrameFormat) (c : Nat) :
    controlUI (format.kept c) = controlUI c := by
  rw [controlUI, controlUI, kept_and format c rfl rfl]

@[simp] theorem controlTest_kept (format : FrameFormat) (c : Nat) :
    controlTest (format.kept c) = controlTest c := by
  rw [controlTest, controlTest, kept_and format c rfl rfl]

@[simp] theorem pidOctets_kept (format : FrameFormat) (c : Nat) (proto : UInt8) :
    pidOctets (format.kept c) proto = pidOctets c proto := by simp [pidOctets]

/-- The octets of a frame: its address field, its control field, and what follows it. -/
def wireOctets (dest src : Addr) (hops : List Addr) (cr : FrameCr) (format : FrameFormat)
    (control : Nat) (tail : Bytes) : Bytes :=
  addressOctets dest src hops cr ++ (encodeControl format control ++ tail)

variable {dest src : Addr} {hops : List Addr} {cr : FrameCr}

theorem length_wireOctets : (wireOctets dest src hops cr format control tail).length =
    7 * (2 + hops.length) + (encodeControl format control).length + tail.length := by
  rw [wireOctets, List.length_append, List.length_append, length_addressOctets, Nat.add_assoc]

/-- The stations are well formed, and there are no more repeaters than fit. -/
structure StationsFit (dest src : Addr) (hops : List Addr) : Prop where
  dest : dest.WellFormed
  src : src.WellFormed
  count : hops.length ≤ PATTY_AX25_MAX_HOPS
  hops : ∀ a ∈ hops, a.WellFormed

/-- The stations and the control field of a frame, and where they end. -/
theorem decode_header (frame : Frame) (rest : Mem) (h : StationsFit dest src hops) (cr : FrameCr)
    (format : FrameFormat) (control : Nat) (tail : Bytes) (buf : Mem)
    (hbuf : buf = .ofBytes (wireOctets dest src hops cr format control tail) rest) :
    ∃ f next, decodeAddress frame buf (wireOctets dest src hops cr format control tail).length =
        some (f, 7 * (2 + hops.length)) ∧ f.From dest src hops cr ∧
      readControl format buf (7 * (2 + hops.length)) = (format.kept control, next) ∧
      (wireOctets dest src hops cr format control tail).length = next + tail.length ∧
      buf.read next tail.length = tail := by
  have hlen := @length_wireOctets format control tail dest src hops cr
  have haddr : buf.read 0 (7 * (2 + hops.length)) = addressOctets dest src hops cr := by
    have := Mem.read_ofBytes_mid [] (addressOctets dest src hops cr) (encodeControl format control ++ tail)
      rest
    rw [length_addressOctets] at this
    rw [hbuf]
    exact this
  have hcontrol : buf.read (7 * (2 + hops.length)) (encodeControl format control).length =
      encodeControl format control := by
    rw [hbuf, ← length_addressOctets]
    exact Mem.read_ofBytes_mid _ _ _ _
  have htail : buf.read (7 * (2 + hops.length) + (encodeControl format control).length) tail.length =
      tail := by
    rw [hbuf, wireOctets, ← List.append_assoc]
    have := Mem.read_ofBytes_mid (addressOctets dest src hops cr ++ encodeControl format control) tail [] rest
    rwa [List.append_nil, List.length_append, length_addressOctets] at this
  have hfits : 7 * (2 + hops.length) ≤ (wireOctets dest src hops cr format control tail).length := by omega
  obtain ⟨f, hf, hfrom⟩ := decodeAddress_octets frame h.dest h.src h.hops h.count hfits haddr
  exact ⟨f, _, hf, hfrom, readControl_encode hcontrol, hlen, htail⟩

theorem Frame.From.mono {f' : Frame} (h : f.From dest src hops cr) (hf : SameStations f f') :
    f'.From dest src hops cr := by
  refine ⟨hf.dest ▸ h.dest, hf.src ▸ h.src, hf.hops.trans h.count, ?_, hf.cr.trans h.cr⟩
  rw [hf.hops, hf.repeaters]
  exact h.hops

/-- A frame on the wire is taken back, if what follows its control field is the PID, where there is
one, and the payload. -/
theorem decode_wire (frame : Frame) (rest : Mem) (h : StationsFit dest src hops) (cr : FrameCr)
    (format : FrameFormat) (control : Nat) (proto : UInt8) (info : Bytes) {bs : Bytes}
    (hbs : bs = wireOctets dest src hops cr format control (pidOctets control proto ++ info))
    (hlen : bs.length < 2 ^ 64) :
    ∃ f next, decodeFrame frame format (.ofBytes bs rest) bs.length = some (f, next) ∧
      f.From dest src hops cr ∧ f.control = format.kept control ∧
      FindsPayload f control (.ofBytes bs rest) next bs.length proto info := by
  obtain ⟨f₀, next, hf₀, hfrom, hread, htotal, htail⟩ := decode_header frame rest h cr format control
    (pidOctets control proto ++ info) _ rfl
  rw [← hbs] at hf₀ hread htotal htail
  rw [← pidOctets_kept format] at htotal htail
  obtain ⟨f, end', hf, hsame, hcontrol, hfinds⟩ := decodeControl_found f₀ hread htotal hlen htail
  refine ⟨f, end', by rw [decodeFrame, hf₀]; exact hf, hfrom.mono hsame, hcontrol, ?_⟩
  obtain ⟨hi, hui, htest, hother⟩ := hfinds
  simp only [controlI_kept, controlUI_kept, controlTest_kept] at hi hui htest hother
  exact ⟨hi, hui, htest, hother⟩

/-! ## `patty_ax25_frame_encode` -/

/-- The payload is only stored, with its PID, when it has an octet. -/
def Frame.payload (f : Frame) : Bytes :=
  if f.infoBytes.isEmpty then [] else pidOctets f.control f.proto ++ f.infoBytes

/-- A buffer that is large enough for the frame. -/
def Frame.room (f : Frame) : Nat :=
  7 * (2 + f.hops) + (encodeControl f.format f.control).length + 1 + f.infolen

theorem infoBytes_isEmpty (f : Frame) : (f.info.isSome && f.infolen != 0) = !f.infoBytes.isEmpty := by
  unfold Frame.infoBytes
  cases f.info with
  | none => rfl
  | some m => cases h : f.infolen <;> simp [Mem.read_succ]

theorem infoBytes_length_le (f : Frame) : f.infoBytes.length ≤ f.infolen := by
  unfold Frame.infoBytes
  cases f.info with
  | none => exact Nat.zero_le _
  | some m => exact Mem.length_read.le

theorem length_pidOctets_le (c : Nat) (proto : UInt8) : (pidOctets c proto).length ≤ 1 := by
  unfold pidOctets
  split <;> simp

theorem sizeAdd_of_lt {a b : Nat} (h : a + b < 2 ^ 64) : sizeAdd a b = a + b := Nat.mod_eq_of_lt h

/-- Into a buffer that is large enough, the frame is encoded. -/
theorem encode_wire (f : Frame) (hhops : f.hops ≤ PATTY_AX25_MAX_HOPS) (hroom : f.room ≤ len)
    (hlen : len < 2 ^ 64) : f.encode len = .ok (some
      (wireOctets f.dest f.src (hopList f.repeaters f.hops) f.cr f.format f.control f.payload)) := by
  unfold Frame.room at hroom
  have hle := infoBytes_length_le f
  have haddr : (encodeAddress f).length = 7 * (2 + f.hops) := by
    rw [encodeAddress_eq, length_addressOctets, length_hopList hhops]
  have hbuf : (encodeAddress f ++ encodeControl f.format f.control).length =
      7 * (2 + f.hops) + (encodeControl f.format f.control).length := by rw [List.length_append, haddr]
  rw [Frame.encode, if_neg (by omega)]
  dsimp only
  rw [if_neg (by omega), infoBytes_isEmpty, Frame.payload]
  cases hempty : f.infoBytes.isEmpty with
  | true =>
    rw [encodeAddress_eq, wireOctets]
    simp
  | false =>
    rw [Bool.not_false, if_pos rfl, sizeAdd_of_lt (by omega), if_neg (by omega), wireOctets,
      ← encodeAddress_eq, pidOctets]
    cases controlI f.control || controlUI f.control with
    | true =>
      simp only [if_true, Bool.false_eq_true, if_false, List.append_assoc, List.length_append, List.length_cons,
        List.length_nil, haddr]
      rw [if_neg (by omega)]
    | false =>
      simp only [Bool.false_eq_true, if_false, List.append_assoc, List.length_append, haddr]
      rw [if_neg (by omega)]
      simp

/-- A frame that the encoder is meant for. -/
structure Frame.Encodable (f : Frame) : Prop where
  dest : f.dest.Spelled
  src : f.src.Spelled
  hops : f.hops ≤ PATTY_AX25_MAX_HOPS
  repeaters : ∀ i : Fin PATTY_AX25_MAX_HOPS, i.val < f.hops → (f.repeaters i).Spelled
  control : f.format.Fits f.control
  info : controlI f.control ∨ controlUI f.control → f.infoBytes ≠ []

/-- The same stations, as the hash sees them, and the same control field. -/
structure Frame.TakenBack (f f' : Frame) : Prop where
  dest : f'.dest.Same f.dest
  src : f'.src.Same f.src
  hops : f'.hops = f.hops
  repeaters : ∀ i : Fin PATTY_AX25_MAX_HOPS, i.val < f.hops → (f'.repeaters i).Same (f.repeaters i)
  cr : f'.cr = f.cr
  control : f'.control = f.control

/-- Repeaters that are the same one by one. -/
theorem hopList_same {r r' : Fin PATTY_AX25_MAX_HOPS → Addr} {n : Nat} (hn : n ≤ PATTY_AX25_MAX_HOPS)
    (h : List.Forall₂ Addr.Same (hopList r n) (hopList r' n)) (i : Fin PATTY_AX25_MAX_HOPS)
    (hi : i.val < n) : (r i).Same (r' i) := by
  rw [hopList_eq hn, hopList_eq hn, List.forall₂_map_left_iff, List.forall₂_map_right_iff,
    List.forall₂_same] at h
  have hfin : Fin.ofNat PATTY_AX25_MAX_HOPS i.val = i := Fin.ext (Nat.mod_eq_of_lt i.isLt)
  have := h i.val (List.mem_range.mpr hi)
  rwa [hfin] at this

theorem payload_eq {f : Frame} (h : controlI f.control ∨ controlUI f.control → f.infoBytes ≠ []) :
    f.payload = pidOctets f.control f.proto ++ f.infoBytes := by
  unfold Frame.payload
  split
  · rename_i hempty
    have hnil : f.infoBytes = [] := List.isEmpty_iff.mp hempty
    have hpid : ¬(controlI f.control || controlUI f.control) := by
      rw [Bool.or_eq_true]
      exact fun hc => h hc hnil
    rw [hnil, pidOctets, if_neg hpid]
    rfl
  · rfl

theorem length_wire_lt (f : Frame) (hhops : f.hops ≤ PATTY_AX25_MAX_HOPS) (hroom : f.room ≤ len) :
    (wireOctets f.dest f.src (hopList f.repeaters f.hops) f.cr f.format f.control
      (pidOctets f.control f.proto ++ f.infoBytes)).length ≤ len := by
  have hle := infoBytes_length_le f
  have hpid := length_pidOctets_le f.control f.proto
  unfold Frame.room at hroom
  rw [length_wireOctets, length_hopList hhops, List.length_append]
  omega

/-- A frame of any type that is encoded is decoded to the same frame. -/
theorem decodeFrame_encode (f : Frame) (len : Nat) (h : f.Encodable) (hroom : f.room ≤ len)
    (hlen : len < 2 ^ 64) : ∃ bs, f.encode len = .ok (some bs) ∧ ∀ (frame : Frame) (rest : Mem),
      ∃ f' next, decodeFrame frame f.format (.ofBytes bs rest) bs.length = some (f', next) ∧
        f.TakenBack f' ∧
        FindsPayload f' f.control (.ofBytes bs rest) next bs.length f.proto f.infoBytes := by
  refine ⟨_, encode_wire f h.hops hroom hlen, fun frame rest => ?_⟩
  have hfit : StationsFit f.dest f.src (hopList f.repeaters f.hops) :=
    ⟨(Addr.wellFormed_iff _).mpr h.dest, (Addr.wellFormed_iff _).mpr h.src,
      (length_hopList h.hops).le.trans h.hops,
      forall_hopList fun i hi => (Addr.wellFormed_iff _).mpr (h.repeaters i hi)⟩
  rw [payload_eq h.info]
  obtain ⟨f', next, hf', hfrom, hcontrol, hfinds⟩ := decode_wire frame rest hfit f.cr f.format f.control
    f.proto f.infoBytes rfl ((length_wire_lt f h.hops hroom).trans_lt hlen)
  have hhops : f'.hops = f.hops := hfrom.count.trans (length_hopList h.hops)
  refine ⟨f', next, hf', ⟨hfrom.dest, hfrom.src, hhops, ?_, hfrom.cr, hcontrol.trans h.control.kept⟩, hfinds⟩
  have hsame := hfrom.hops
  rw [hhops] at hsame
  exact hopList_same h.hops hsame

/-- An I frame through one repeater. -/
def sampleFrame : Frame :=
  { Frame.blank with
    dest := ⟨fun _ => 0x82, 0xe0⟩
    src := ⟨fun _ => 0x84, 0x60⟩
    repeaters := fun _ => ⟨fun _ => 0x86, 0x62⟩
    hops := 1
    control := 0x10
    cr := .command
    proto := 0xf0
    info := some fun _ => 0x41
    infolen := 3 }

theorem decodeFrame_encode_sample : ∃ bs, sampleFrame.encode 64 = .ok (some bs) ∧
    ∀ (frame : Frame) (rest : Mem), ∃ f' next,
      decodeFrame frame sampleFrame.format (.ofBytes bs rest) bs.length = some (f', next) ∧
        sampleFrame.TakenBack f' ∧ FindsPayload f' sampleFrame.control (.ofBytes bs rest) next bs.length
          sampleFrame.proto sampleFrame.infoBytes :=
  decodeFrame_encode sampleFrame 64
    ⟨⟨by decide, by decide⟩, ⟨by decide, by decide⟩, by decide, fun i _ => ⟨by decide +revert, by decide +revert⟩,
      by unfold FrameFormat.Fits; decide, by decide⟩ (by decide) (by decide)

/-! ## `frame_send` -/

/-- The frame that `frame_send` sends, as `patty_ax25_frame_encode` takes it. -/
def Sock.asFrame (s : Sock) (cr : FrameCr) (control : Nat) (proto : UInt8) (info : Bytes) : Frame :=
  { Frame.blank with
    dest := s.remote
    src := s.localAddr
    repeaters := s.repeaters
    hops := s.hops
    cr
    control
    proto
    info := some (.ofBytes info fun _ => 0)
    infolen := info.length
    format := s.format }

/-- Both encoders store the same octets. -/
def EncodersAgree (s : Sock) (cr : FrameCr) (control : Nat) (proto : UInt8) (info bs : Bytes)
    (len : Nat) : Prop :=
  (s.asFrame cr control proto info).encode len = .ok (some bs)

/-- The decoder finds the payload in these octets. -/
def DecoderFinds (frame : Frame) (format : FrameFormat) (bs : Bytes) (rest : Mem) (control : Nat)
    (proto : UInt8) (info : Bytes) : Prop :=
  ∃ f next, decodeFrame frame format (.ofBytes bs rest) bs.length = some (f, next) ∧
    FindsPayload f control (.ofBytes bs rest) next bs.length proto info

variable {s : Sock} {bs : Bytes}

theorem infoBytes_asFrame : (s.asFrame cr control proto info).infoBytes = info := Mem.read_ofBytes _

/-- What `frame_send` stores after the control field. -/
def sentTail (control : Nat) (proto : UInt8) (info : Bytes) : Bytes :=
  (if !info.isEmpty && controlI control then [proto] else []) ++ info

theorem encodeFrame_wire (h : s.encodeFrame cr control proto info = .ok (.ok bs)) :
    bs = wireOctets s.remote s.localAddr s.repeaterList cr s.format control (sentTail control proto info) := by
  rw [encodeFrame_ok h, frameHeader_eq, addressField_octets, controlOctets_eq, wireOctets, sentTail]
  simp only [List.append_assoc]

theorem controlI_ne_UI (h : controlI control) : ¬controlUI control := by
  rw [controlUI_iff]
  exact fun hui => not_controlU (.inl h) hui.1

/-- The tails differ in the PID of an UI frame. -/
theorem sentTail_eq_payload : sentTail control proto info = (s.asFrame cr control proto info).payload ↔
    ¬(controlUI control ∧ info ≠ []) := by
  rw [Frame.payload, infoBytes_asFrame, sentTail]
  cases info with
  | nil => simp
  | cons b info =>
    have hcontrol : (s.asFrame cr control proto (b :: info)).control = control := rfl
    have hproto : (s.asFrame cr control proto (b :: info)).proto = proto := rfl
    rw [hcontrol, hproto, pidOctets]
    by_cases hui : controlUI control
    · have hI : ¬controlI control := fun h => controlI_ne_UI h hui
      have hne : ∀ l : Bytes, l ≠ proto :: l := fun l h => by simpa using congrArg List.length h
      simp [hI, hui, hne]
    · by_cases hI : controlI control <;> simp [hI, hui]

/-- With nothing after the control field of an I or UI frame, the payload is not found. -/
theorem not_finds_short (h : StationsFit dest src hops) (hpid : controlI control || controlUI control)
    (hbs : bs = wireOctets dest src hops cr format control []) (hlen : bs.length < 2 ^ 64)
    (hdec : decodeFrame frame format (.ofBytes bs rest) bs.length = some (f, next)) : f.infoBytes ≠ [] := by
  obtain ⟨f₀, off, hf₀, -, hread, htotal, -⟩ := decode_header frame rest h cr format control [] _ rfl
  rw [← hbs] at hf₀ hread htotal
  obtain ⟨f₁, hf₁, hclass⟩ := classedAs f₀ (format.kept control) format
  have htype : f₁.type = .i ∨ f₁.type = .ui := by
    rwa [hclass.i, hclass.ui, controlI_kept, controlUI_kept, ← Bool.or_eq_true]
  rw [decodeFrame, hf₀] at hdec
  dsimp only at hdec
  rw [decodeControl_eq, hread] at hdec
  dsimp only at hdec
  rw [hf₁] at hdec
  dsimp only at hdec
  have hsize : sizeSub bs.length (off + 1) ≠ 0 := by
    rw [List.length_nil, Nat.add_zero] at htotal
    unfold sizeSub
    omega
  intro hnil
  have hzero := congrArg List.length hnil
  rcases htype with h | h
  · rw [h] at hdec
    cases hdec
    rw [Frame.infoBytes, Mem.length_read] at hzero
    exact hsize hzero
  · rw [h] at hdec
    cases hdec
    rw [Frame.infoBytes, Mem.length_read] at hzero
    exact hsize hzero

/-- The frames in which the two encoders agree, and those in which the decoder also finds the payload. -/
theorem encodersAgree_iff (s : Sock) (cr : FrameCr) (control : Nat) (proto : UInt8) (info bs : Bytes)
    (len : Nat) (frame : Frame) (rest : Mem) (h : s.Addressed)
    (hsent : s.encodeFrame cr control proto info = .ok (.ok bs))
    (hroom : (s.asFrame cr control proto info).room ≤ len) (hlen : len < 2 ^ 64) :
    (EncodersAgree s cr control proto info bs len ↔ ¬(controlUI control ∧ info ≠ [])) ∧
    (EncodersAgree s cr control proto info bs len ∧
      DecoderFinds frame s.format bs rest control proto info ↔
        ¬controlUI control ∧ (controlI control → info ≠ [])) := by
  have hbs := encodeFrame_wire hsent
  have hagree : EncodersAgree s cr control proto info bs len ↔ ¬(controlUI control ∧ info ≠ []) := by
    rw [EncodersAgree, encode_wire _ h.hops hroom hlen, ← @sentTail_eq_payload control proto info cr s, hbs]
    refine ⟨fun heq => ?_, fun heq => ?_⟩
    · have hbytes := Option.some.inj (Except.ok.inj heq)
      exact (List.append_cancel_left (List.append_cancel_left hbytes)).symm
    · rw [heq]
      rfl
  have hfit : StationsFit s.remote s.localAddr s.repeaterList :=
    ⟨h.remote, h.localAddr, (s.repeaterList_length h.hops).le.trans h.hops, h.repeaterList⟩
  have hsize : bs.length < 2 ^ 64 := by
    have hle : (sentTail control proto info).length ≤ 1 + info.length := by
      rw [sentTail, List.length_append]
      split <;> simp
    have hroom' : 7 * (2 + s.hops) + (encodeControl s.format control).length + 1 + info.length ≤ len := hroom
    rw [hbs, length_wireOctets, s.repeaterList_length h.hops]
    omega
  refine ⟨hagree, fun ⟨heq, f, next, hdec, hfinds⟩ => ?_, fun ⟨hui, hne⟩ => ?_⟩
  · have hshort : (controlI control || controlUI control) = true → info ≠ [] := by
      rintro hpid rfl
      refine not_finds_short hfit hpid hbs hsize hdec ?_
      rcases Bool.or_eq_true _ _ ▸ hpid with hi | hui
      · exact (hfinds.i hi).2.2
      · exact (hfinds.ui hui).2.2
    rw [Bool.or_eq_true] at hshort
    exact ⟨fun hui => hagree.mp heq ⟨hui, hshort (.inr hui)⟩, fun hi => hshort (.inl hi)⟩
  · have hui' : ¬(controlUI control ∧ info ≠ []) := fun hc => hui hc.1
    have htail := (@sentTail_eq_payload control proto info cr s).mpr hui'
    have hinfo : controlI control ∨ controlUI control → info ≠ [] := fun hc => hne (hc.resolve_right hui)
    rw [htail, payload_eq (by rwa [infoBytes_asFrame]), infoBytes_asFrame] at hbs
    obtain ⟨f, next, hdec, -, -, hfinds⟩ := decode_wire frame rest hfit cr s.format control proto info hbs
      hsize
    exact ⟨hagree.mpr hui', f, next, hdec, hfinds⟩

/-- A socket that sends from `0x84` to `0x82`. -/
def sampleSender : Sock :=
  { Sock.zero.init with
    mode := .sabm
    iface := some 0
    localAddr := ⟨fun _ => 0x84, 0x60⟩
    remote := ⟨fun _ => 0x82, 0x60⟩
    txBuf := some 200 }

theorem sampleSender_addressed : sampleSender.Addressed :=
  ⟨(Addr.wellFormed_iff _).mpr ⟨by decide, by decide⟩, (Addr.wellFormed_iff _).mpr ⟨by decide, by decide⟩,
    by decide, fun _ hi => absurd hi (Nat.not_lt_zero _)⟩

def sampleInfo : Bytes := [1, 2, 3]

/-- An I frame of this socket. -/
def sampleI : Bytes := sampleAddress ++ 0x10 :: 0xf0 :: sampleInfo

theorem encodersAgree_sample :
    (EncodersAgree sampleSender .command 0x10 0xf0 sampleInfo sampleI 64 ↔
      ¬(controlUI 0x10 ∧ sampleInfo ≠ [])) ∧
    (EncodersAgree sampleSender .command 0x10 0xf0 sampleInfo sampleI 64 ∧
      DecoderFinds .blank sampleSender.format sampleI (fun _ => 0) 0x10 0xf0 sampleInfo ↔
        ¬controlUI 0x10 ∧ (controlI 0x10 → sampleInfo ≠ [])) :=
  encodersAgree_iff sampleSender .command 0x10 0xf0 sampleInfo sampleI 64 .blank (fun _ => 0)
    sampleSender_addressed rfl (by decide) (by decide)

/-- The UI frame that `frame_send` sends has no PID. -/
theorem not_encodersAgree_ui : ¬∀ (s : Sock) (cr : FrameCr) (control : Nat) (proto : UInt8) (info bs : Bytes)
    (len : Nat) (frame : Frame) (rest : Mem), s.Addressed → s.mode = .sabm ∨ s.mode = .sabme →
    s.encodeFrame cr control proto info = .ok (.ok bs) →
    (s.asFrame cr control proto info).room ≤ len → len < 2 ^ 64 →
    EncodersAgree s cr control proto info bs len ∧ DecoderFinds frame s.format bs rest control proto info := by
  intro h
  have hagree := (h sampleSender .command 0x03 0xf0 sampleInfo (sampleAddress ++ 0x03 :: sampleInfo) 64 .blank
    (fun _ => 0) sampleSender_addressed (.inl rfl) rfl (by decide) (by decide)).1
  have hlength := congrArg (fun r => r.toOption.bind fun bs => bs.map List.length) hagree
  revert hlength
  decide

end Patty
