import Patty.Frame

/-! # What the decoders read

The decoders of the address field and of the control field, with every octet they read checked to be
one of the `len` octets of the frame. Reading the address never leaves the frame; reading the control
field and the PID after it does, when the frame ends there. Otherwise the decoders accept what they
should, and the information field they find is the rest of the frame (`decodesInside_iff`). -/

namespace Patty

/-! ## The decoders with their reads checked -/

/-- The octet at `i` of a frame of `len` octets. -/
def byteIn (buf : Mem) (len i : Nat) : Except Fault UInt8 :=
  if i < len then .ok (buf i) else .error .overrun

/-- The loop of `decode_station`, for `n` octets from `i` on. -/
def decodeCallsignIn (buf : Mem) (len : Nat) : Nat → Nat → Bool → Except Fault Bool
  | 0, _, _ => .ok true
  | n + 1, i, space => do
    let b ← byteIn buf len i
    let c := b >>> 1
    if !addrCharValid c || addrOctetLast b then .ok false
    else if c == 0x20 && !space then decodeCallsignIn buf len n (i + 1) true
    else if c != 0x20 && space then .ok false
    else decodeCallsignIn buf len n (i + 1) space

/-- `memcpy` of an address. -/
def addrIn (buf : Mem) (len off : Nat) : Except Fault Addr :=
  if off + 7 ≤ len then .ok (Addr.ofMem buf off) else .error .overrun

def decodeStationIn (data : Mem) (offset len : Nat) : Except Fault (Option Addr) :=
  if len < offset + 7 then .ok none
  else do
    if ← decodeCallsignIn data len PATTY_AX25_CALLSTRLEN offset false then
      let addr ← addrIn data len offset
      .ok (some addr)
    else .ok none

def decodeHopsIn (data : Mem) (len : Nat) : Nat → Frame → Nat → Except Fault (Option (Frame × Nat))
  | 0, _, _ => .ok none
  | n + 1, frame, offset => do
    match ← decodeStationIn data offset len with
    | none => .ok none
    | some addr =>
      let frame := { frame with
        repeaters := fun i => if i.val = frame.hops then addr else frame.repeaters i
        hops := frame.hops + 1 }
      if addrOctetLast addr.ssid then .ok (some (frame, offset + 7))
      else decodeHopsIn data len n frame (offset + 7)

def decodeAddressIn (frame : Frame) (buf : Mem) (len : Nat) : Except Fault (Option (Frame × Nat)) := do
  match ← decodeStationIn buf 0 len with
  | none => .ok none
  | some dest =>
    match ← decodeStationIn buf 7 len with
    | none => .ok none
    | some src =>
      let frame := { frame with dest, src, hops := 0 }
      let frame :=
        if addrSsidC dest.ssid != addrSsidC src.ssid then
          { frame with
            cr := if addrSsidC dest.ssid then .command else .response
            version := .v2_0 }
        else { frame with cr := .old, version := .old }
      if addrOctetLast src.ssid then .ok (some (frame, 14))
      else decodeHopsIn buf len PATTY_AX25_MAX_HOPS frame 14

def readControlIn (format : FrameFormat) (buf : Mem) (offset len : Nat) : Except Fault (Nat × Nat) := do
  let control := (← byteIn buf len offset).toNat
  match format with
  | .normal => .ok (control, offset + 1)
  | .extended =>
    if controlU control then .ok (control, offset + 1)
    else
      let high := (← byteIn buf len (offset + 1)).toNat
      .ok (control ||| high <<< 8, offset + 2)

/-- The frame with the fields that its control field gives. -/
def Frame.classed (frame : Frame) (control : Nat) (format : FrameFormat) : Option Frame :=
  let frame := { frame with
    control, format
    nr := 0, ns := 0, pf := 0, type := .unknown
    proto := PATTY_AX25_PROTO_UNKNOWN, info := none, infolen := 0 }
  if controlI control then
    some { frame with
      type := .i
      nr := decodeNr control format
      ns := decodeNs control format
      pf := decodePf control format }
  else if controlS control then
    match frameTypeS (control &&& PATTY_AX25_FRAME_S_MASK) with
    | .unknown => some frame
    | type => some { frame with
        type, nr := decodeNr control format, pf := decodePf control format }
  else if controlU control then
    match frameTypeU (control &&& PATTY_AX25_FRAME_U_MASK) with
    | .unknown => some frame
    | type => some { frame with type, pf := decodePf control .normal }
  else none

def decodeControlIn (frame : Frame) (format : FrameFormat) (buf : Mem) (offset len : Nat) :
    Except Fault (Option (Frame × Nat)) := do
  let (control, offset) ← readControlIn format buf offset len
  match frame.classed control format with
  | none => .ok none
  | some frame =>
    match frame.type with
    | .i | .ui => do
      let proto ← byteIn buf len offset
      .ok (some ({ frame with
        proto
        info := some fun i => buf (offset + 1 + i)
        infolen := sizeSub len (offset + 1) }, len))
    | .test =>
      .ok (some ({ frame with
        info := some fun i => buf (offset + i)
        infolen := sizeSub len offset }, len))
    | _ => .ok (some (frame, offset))

/-- `patty_ax25_frame_decode_address`, and `patty_ax25_frame_decode_control` at the offset it returns. -/
def decodeFrame (frame : Frame) (format : FrameFormat) (buf : Mem) (len : Nat) :
    Option (Frame × Nat) :=
  match decodeAddress frame buf len with
  | none => none
  | some (frame, offset) => decodeControl frame format buf offset len

/-- Both with their reads checked. -/
def decodeFrameIn (frame : Frame) (format : FrameFormat) (buf : Mem) (len : Nat) :
    Except Fault (Option (Frame × Nat)) := do
  match ← decodeAddressIn frame buf len with
  | none => .ok none
  | some (frame, offset) => decodeControlIn frame format buf offset len

/-! ## The address field -/

variable {buf : Mem} {len i off n : Nat} {format : FrameFormat} {frame : Frame}

theorem byteIn_ok (h : i < len) : byteIn buf len i = .ok (buf i) := if_pos h

theorem byteIn_error (h : len ≤ i) : byteIn buf len i = .error .overrun := if_neg (by omega)

theorem decodeCallsignIn_eq (space : Bool) (h : i + n ≤ len) :
    decodeCallsignIn buf len n i space = .ok (decodeCallsign (buf.read i n) space) := by
  induction n generalizing i space with
  | zero => rfl
  | succ n ih =>
    rw [decodeCallsignIn, byteIn_ok (by omega), Mem.read_succ, decodeCallsign]
    simp only [bind, Except.bind, ih _ (by omega : i + 1 + n ≤ len)]
    split_ifs <;> rfl

theorem decodeStationIn_eq : decodeStationIn buf off len = .ok (decodeStation buf off len) := by
  unfold decodeStationIn decodeStation
  split
  · rfl
  · rename_i h
    have haddr : addrIn buf len off = .ok (Addr.ofMem buf off) := if_pos (by omega)
    rw [decodeCallsignIn_eq false (by omega : off + 6 ≤ len)]
    simp only [bind, Except.bind, haddr]
    split <;> rfl

theorem decodeHopsIn_eq : decodeHopsIn buf len n frame off = .ok (decodeHops buf len n frame off) := by
  induction n generalizing frame off with
  | zero => rfl
  | succ n ih =>
    rw [decodeHopsIn, decodeHops, decodeStationIn_eq]
    simp only [bind, Except.bind, ih]
    cases decodeStation buf off len with
    | none => rfl
    | some addr => dsimp only; split <;> rfl

/-- Reading the address field stays inside the frame. -/
theorem decodeAddressIn_eq : decodeAddressIn frame buf len = .ok (decodeAddress frame buf len) := by
  rw [decodeAddressIn, decodeAddress, decodeStationIn_eq]
  simp only [bind, Except.bind, decodeStationIn_eq, decodeHopsIn_eq]
  cases decodeStation buf 0 len with
  | none => rfl
  | some dest =>
    cases decodeStation buf 7 len with
    | none => rfl
    | some src => dsimp only; split <;> rfl

/-! ## The control field -/

/-- Where the control field at `off` ends, and with it the PID of a frame that has one. -/
def headerEnd (format : FrameFormat) (buf : Mem) (off : Nat) : Nat :=
  let (control, next) := readControl format buf off
  if controlI control || controlUI control then next + 1 else next

theorem readControlIn_ok (h : (readControl format buf off).2 ≤ len) :
    readControlIn format buf off len = .ok (readControl format buf off) := by
  cases format with
  | normal =>
    rw [readControlIn, byteIn_ok h]
    rfl
  | extended =>
    simp only [readControl] at h
    rw [readControlIn, byteIn_ok (by split at h <;> omega)]
    simp only [bind, Except.bind, readControl]
    split
    · rfl
    · rename_i hU
      rw [if_neg hU] at h
      rw [byteIn_ok h]

theorem readControlIn_error (h : len < (readControl format buf off).2) :
    readControlIn format buf off len = .error .overrun := by
  by_cases hoff : off < len
  · cases format with
    | normal => simp only [readControl] at h; omega
    | extended =>
      simp only [readControl] at h
      rw [readControlIn, byteIn_ok hoff]
      simp only [bind, Except.bind]
      split
      · rename_i hU
        rw [if_pos hU] at h
        omega
      · rename_i hU
        rw [if_neg hU] at h
        rw [byteIn_error (by omega)]
  · rw [readControlIn, byteIn_error (by omega)]
    rfl

/-- A control field is of one kind only. -/
theorem controlUI_iff {c : Nat} : controlUI c ↔ controlU c ∧ c &&& PATTY_AX25_FRAME_U_MASK = 0x03 := by
  simp only [controlUI, controlU, beq_iff_eq]
  refine ⟨fun h => ⟨?_, h⟩, fun h => h.2⟩
  calc c &&& 0x03 = c &&& 0xef &&& 0x03 := (Nat.and_assoc c 0xef 0x03).symm
    _ = 0x03 := by rw [h]; rfl

theorem controlU_of_not {c : Nat} (hI : ¬controlI c) (hS : ¬controlS c) : controlU c := by
  have h4 : c &&& 0x03 = c % 4 := Nat.and_two_pow_sub_one_eq_mod c 2
  have h2 : c &&& 0x01 = c % 2 := Nat.and_two_pow_sub_one_eq_mod c 1
  simp only [controlI, controlS, controlU, beq_iff_eq, h4, h2] at hI hS ⊢
  omega

theorem not_controlU {c : Nat} (h : controlI c ∨ controlS c) : ¬controlU c := by
  have h4 : c &&& 0x03 = c % 4 := Nat.and_two_pow_sub_one_eq_mod c 2
  have h2 : c &&& 0x01 = c % 2 := Nat.and_two_pow_sub_one_eq_mod c 1
  simp only [controlI, controlS, controlU, beq_iff_eq, h4, h2] at h ⊢
  omega

theorem frameTypeS_ne (c : Nat) : frameTypeS c ≠ .i ∧ frameTypeS c ≠ .ui ∧ frameTypeS c ≠ .test := by
  unfold frameTypeS
  split_ifs <;> simp

theorem frameTypeU_ne (c : Nat) : frameTypeU c ≠ .i := by
  unfold frameTypeU
  split_ifs <;> simp

theorem frameTypeU_eq_ui {c : Nat} : frameTypeU c = .ui ↔ c = 0x03 := by
  unfold frameTypeU
  split_ifs <;> simp_all [FrameType.code]

/-- Every control field gives a frame, which has a PID if the field is that of an I or an UI frame. -/
theorem classed_type (frame : Frame) (control : Nat) (format : FrameFormat) :
    ∃ f, frame.classed control format = some f ∧
    ((controlI control || controlUI control) = true ↔ f.type = .i ∨ f.type = .ui) := by
  by_cases hI : controlI control
  · exact ⟨_, if_pos hI, by simp [hI]⟩
  by_cases hS : controlS control
  · have hUI : ¬controlUI control := fun h => not_controlU (.inr hS) (controlUI_iff.mp h).1
    have hne := frameTypeS_ne (control &&& PATTY_AX25_FRAME_S_MASK)
    unfold Frame.classed
    simp only [hI, hS, hUI, Bool.or_self, Bool.false_eq_true, if_true, if_false, false_iff, not_or]
    generalize frameTypeS (control &&& PATTY_AX25_FRAME_S_MASK) = type at hne ⊢
    cases type with
    | unknown => exact ⟨_, rfl, by simp⟩
    | i | ui => simp at hne
    | _ => exact ⟨_, rfl, by simp⟩
  · have hU := controlU_of_not hI hS
    have hUI : controlUI control ↔ frameTypeU (control &&& PATTY_AX25_FRAME_U_MASK) = .ui := by
      rw [controlUI_iff, frameTypeU_eq_ui]
      exact and_iff_right hU
    have hne := frameTypeU_ne (control &&& PATTY_AX25_FRAME_U_MASK)
    rw [Bool.or_eq_true, hUI]
    unfold Frame.classed
    simp only [hI, hS, hU, Bool.false_eq_true, if_true, if_false, false_or]
    generalize frameTypeU (control &&& PATTY_AX25_FRAME_U_MASK) = type at hne ⊢
    cases type with
    | unknown => exact ⟨_, rfl, by simp⟩
    | i => exact absurd rfl hne
    | _ => exact ⟨_, rfl, by simp⟩

theorem decodeControl_eq : decodeControl frame format buf off len =
    match frame.classed (readControl format buf off).1 format with
    | none => none
    | some frame =>
      match frame.type with
      | .i | .ui =>
        some ({ frame with
          proto := buf (readControl format buf off).2
          info := some fun i => buf ((readControl format buf off).2 + 1 + i)
          infolen := sizeSub len ((readControl format buf off).2 + 1) }, len)
      | .test =>
        some ({ frame with
          info := some fun i => buf ((readControl format buf off).2 + i)
          infolen := sizeSub len (readControl format buf off).2 }, len)
      | _ => some (frame, (readControl format buf off).2) := rfl

theorem readControl_le_headerEnd : (readControl format buf off).2 ≤ headerEnd format buf off := by
  unfold headerEnd
  dsimp only
  split <;> omega

/-- A decoded control field, with where the header ends. -/
theorem classed_header (frame : Frame) (format : FrameFormat) (buf : Mem) (off : Nat) :
    ∃ f, frame.classed (readControl format buf off).1 format = some f ∧
      (f.type = .i ∨ f.type = .ui → headerEnd format buf off = (readControl format buf off).2 + 1) ∧
      (f.type ≠ .i → f.type ≠ .ui → headerEnd format buf off = (readControl format buf off).2) := by
  obtain ⟨f, hf, htype⟩ := classed_type frame (readControl format buf off).1 format
  refine ⟨f, hf, fun h => if_pos (htype.mpr h), fun h h' => if_neg fun hc => ?_⟩
  obtain hi | hui := htype.mp hc
  · exact h hi
  · exact h' hui

/-- With the control field and the PID inside the frame, all that is read is inside. -/
theorem decodeControlIn_ok (h : headerEnd format buf off ≤ len) :
    decodeControlIn frame format buf off len = .ok (decodeControl frame format buf off len) := by
  obtain ⟨f, hf, hproto, -⟩ := classed_header frame format buf off
  rw [decodeControl_eq, decodeControlIn, readControlIn_ok (readControl_le_headerEnd.trans h)]
  simp only [bind, Except.bind, hf]
  split
  · rename_i hi
    rw [byteIn_ok (by rw [hproto (.inl hi)] at h; exact h)]
  · rename_i hi
    rw [byteIn_ok (by rw [hproto (.inr hi)] at h; exact h)]
  · rfl
  · rfl

/-- A frame that ends in its control field or before its PID is read beyond its end. -/
theorem decodeControlIn_error (h : len < headerEnd format buf off) :
    decodeControlIn frame format buf off len = .error .overrun := by
  obtain ⟨f, hf, hproto, hno⟩ := classed_header frame format buf off
  by_cases hle : (readControl format buf off).2 ≤ len
  · rw [decodeControlIn, readControlIn_ok hle]
    simp only [bind, Except.bind, hf]
    split
    · rename_i hi
      rw [byteIn_error (by rw [hproto (.inl hi)] at h; omega)]
    · rename_i hi
      rw [byteIn_error (by rw [hproto (.inr hi)] at h; omega)]
    · rename_i ht
      rw [hno (by simp [ht]) (by simp [ht])] at h
      omega
    · rename_i hi hui _
      rw [hno hi hui] at h
      omega
  · rw [decodeControlIn, readControlIn_error (by omega)]
    rfl

/-! ## What is decoded -/

/-- The decoders stay inside the frame, reject it if it is too short for its control field or its PID,
and find an information field that is the rest of the frame. -/
structure DecodesInside (frame : Frame) (format : FrameFormat) (buf : Mem) (len : Nat) : Prop where
  reads : decodeFrameIn frame format buf len = .ok (decodeFrame frame format buf len)
  short : ∀ f off, decodeAddress frame buf len = some (f, off) → len < headerEnd format buf off →
    decodeFrame frame format buf len = none
  info : ∀ f off f' next, decodeAddress frame buf len = some (f, off) →
    decodeFrame frame format buf len = some (f', next) → next ≤ len ∧
    (f'.type = .i ∨ f'.type = .ui ∨ f'.type = .test → f'.infolen = len - headerEnd format buf off ∧
      f'.infolen ≤ len ∧ f'.infoBytes = buf.read (headerEnd format buf off) f'.infolen)

/-- The address field is not well formed, or the control field and the PID after it are part of the
frame. -/
def HasHeader (frame : Frame) (format : FrameFormat) (buf : Mem) (len : Nat) : Prop :=
  ∀ f off, decodeAddress frame buf len = some (f, off) → headerEnd format buf off ≤ len

theorem sizeSub_of_le {a b : Nat} (h : b ≤ a) (ha : a < 2 ^ 64) : sizeSub a b = a - b := by
  have hb : b % 2 ^ 64 = b := Nat.mod_eq_of_lt (by omega)
  rw [sizeSub, hb, show a + (2 ^ 64 - b) = a - b + 2 ^ 64 by omega, Nat.add_mod_right,
    Nat.mod_eq_of_lt (by omega)]

/-- With the header inside the frame, the information field is the rest. -/
theorem decodeControl_info {f : Frame} {next : Nat} (hlen : len < 2 ^ 64)
    (hend : headerEnd format buf off ≤ len) (h : decodeControl frame format buf off len = some (f, next)) :
    next ≤ len ∧ (f.type = .i ∨ f.type = .ui ∨ f.type = .test →
      f.infolen = len - headerEnd format buf off ∧ f.infolen ≤ len ∧
        f.infoBytes = buf.read (headerEnd format buf off) f.infolen) := by
  obtain ⟨f₀, hf, hproto, hno⟩ := classed_header frame format buf off
  rw [decodeControl_eq, hf] at h
  dsimp only at h
  split at h
  · rename_i hi
    cases h
    rw [← hproto (.inl hi), sizeSub_of_le hend hlen]
    exact ⟨le_rfl, fun _ => ⟨rfl, Nat.sub_le .., Mem.read_shift⟩⟩
  · rename_i hi
    cases h
    rw [← hproto (.inr hi), sizeSub_of_le hend hlen]
    exact ⟨le_rfl, fun _ => ⟨rfl, Nat.sub_le .., Mem.read_shift⟩⟩
  · rename_i ht
    cases h
    rw [← hno (by simp [ht]) (by simp [ht]), sizeSub_of_le hend hlen]
    exact ⟨le_rfl, fun _ => ⟨rfl, Nat.sub_le .., Mem.read_shift⟩⟩
  · rename_i hi hui htest
    cases h
    exact ⟨readControl_le_headerEnd.trans hend, fun ht => by simp_all⟩

/-- The decoders stay inside a frame, and find what they should in it, if and only if it has all of its
header. -/
theorem decodesInside_iff (frame : Frame) (format : FrameFormat) (buf : Mem) (len : Nat)
    (hlen : len < 2 ^ 64) : DecodesInside frame format buf len ↔ HasHeader frame format buf len := by
  constructor
  · intro h f off haddr
    by_contra hlt
    have hreads := h.reads
    rw [decodeFrameIn, decodeAddressIn_eq] at hreads
    simp only [bind, Except.bind, haddr] at hreads
    rw [decodeControlIn_error (by omega)] at hreads
    cases hreads
  · intro h
    refine ⟨?_, fun f off haddr hlt => absurd (h f off haddr) (by omega), fun f off f' next haddr hdec => ?_⟩
    · rw [decodeFrameIn, decodeFrame, decodeAddressIn_eq]
      cases haddr : decodeAddress frame buf len with
      | none => rfl
      | some r => exact decodeControlIn_ok (h r.1 r.2 haddr)
    · rw [decodeFrame, haddr] at hdec
      exact decodeControl_info hlen (h f off haddr) hdec

/-- An address field without repeaters. -/
def sampleAddress : Bytes := List.replicate 6 0x82 ++ [0xe0] ++ List.replicate 6 0x84 ++ [0x61]

/-- A SABM frame is decoded inside. -/
theorem decodesInside_sabm :
    DecodesInside .blank .normal (.ofBytes (sampleAddress ++ [0x3f]) fun _ => 0) 15 := by
  refine (decodesInside_iff .blank .normal _ 15 (by decide)).mpr fun f off haddr => ?_
  have hoff : (decodeAddress .blank (.ofBytes (sampleAddress ++ [0x3f]) fun _ => 0) 15).map (·.2) =
      some 14 := by decide
  rw [haddr] at hoff
  obtain rfl := Option.some.inj hoff
  decide

/-- The control field of a frame that is an address field only is read after its end. -/
theorem not_decodesInside_address : ¬∀ (frame : Frame) (format : FrameFormat) (buf : Mem) (len : Nat),
    len < 2 ^ 64 → DecodesInside frame format buf len := by
  intro h
  have hreads := (h .blank .normal (.ofBytes sampleAddress fun _ => 0) 14 (by decide)).reads
  rw [decodeFrameIn, decodeAddressIn_eq] at hreads
  simp only [bind, Except.bind] at hreads
  have hoff : (decodeAddress .blank (.ofBytes sampleAddress fun _ => 0) 14).map (·.2) = some 14 := by
    decide
  cases haddr : decodeAddress .blank (.ofBytes sampleAddress fun _ => 0) 14 with
  | none => simp [haddr] at hoff
  | some r =>
    rw [haddr, Option.map_some, Option.some.injEq] at hoff
    rw [haddr] at hreads
    dsimp only at hreads
    rw [hoff, decodeControlIn_error (by decide)] at hreads
    cases hreads

end Patty
