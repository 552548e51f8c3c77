import Patty.AprsIs.Lines
import Patty.Ntop

/-! # Sending to an APRS-IS server (`aprs_is.c`)

`patty_ax25_aprs_is_send` formats an UI frame as a line of text and writes it. If the write fails because the
connection is lost, it connects again and repeats the write; the line with which it logs in is formatted in the
same buffer. -/

namespace Patty

abbrev PATTY_AX25_APRS_IS_FRAME_MAX : Nat := PATTY_AX25_APRS_IS_PACKET_MAX
abbrev PATTY_AX25_APRS_IS_ATTEMPTS_MAX : Nat := 3

namespace AprsIs

/-- `snprintf(buf, size, "%s", text)` at the offset `o`: what fits is stored, and a terminator. -/
def printAt (buf : Mem) (o size : Nat) (text : Bytes) : Mem :=
  if size = 0 then buf else buf.store o (text.take (size - 1) ++ [0])

/-- A text behind those that are in `tx_buf`; `o` is their length. -/
def printText (txBuf : Mem) (o : Nat) (text : Bytes) : Except Fault (Mem × Nat) :=
  if PATTY_AX25_APRS_IS_FRAME_MAX < o then .error .overrun
  else .ok (printAt txBuf o (PATTY_AX25_APRS_IS_FRAME_MAX - o) text, o + text.length)

/-- The text of an address, with what goes before and after it; none if `patty_ax25_ntop` fails. -/
def printCall (before after : Bytes) (addr : Addr) (txBuf : Mem) (o : Nat) : Except Fault (Option (Mem × Nat)) := do
  match ← ntop addr (PATTY_AX25_ADDRSTRLEN + 1) with
  | .error _ => return none
  | .ok call => some <$> printText txBuf o (before ++ call.takeWhile (· != 0) ++ after)

/-- The loop of `patty_ax25_aprs_is_send` over the repeaters. -/
def printHops : List Addr → Mem → Nat → Except Fault (Option (Mem × Nat))
  | [], txBuf, o => .ok (some (txBuf, o))
  | addr :: hops, txBuf, o => do
    match ← printCall [0x2c] [] addr txBuf o with
    | none => return none
    | some (txBuf, o) => printHops hops txBuf o

/-- The stations of a frame. -/
def printStations (frame : Frame) (txBuf : Mem) : Except Fault (Option (Mem × Nat)) := do
  match ← printCall [] [0x3e] frame.src txBuf 0 with
  | none => return none
  | some (txBuf, o) =>
    match ← printCall [] [] frame.dest txBuf o with
    | none => return none
    | some (txBuf, o) => printHops (hopList frame.repeaters frame.hops) txBuf o

/-- How a `write` ends. When it fails with `EIO` and `aprs_is_connect` gets so far as to log in, `login` is what
it formats behind `user `. -/
inductive Write
  | done
  | lost (login : Option Bytes)
  | failed

/-- The line with which `aprs_is_connect` logs in. -/
def loginText (login : Bytes) : Bytes := [0x75, 0x73, 0x65, 0x72, 0x20] ++ login

/-- The loop around `write`: the octets that are written, if any are. -/
def writeLoop (o : Nat) : Nat → Mem → List Write → Option Bytes
  | _, txBuf, [] => some (txBuf.read 0 o)
  | _, txBuf, .done :: _ => some (txBuf.read 0 o)
  | _, _, .failed :: _ => none
  | attempt, txBuf, .lost login :: writes =>
    if attempt + 1 = PATTY_AX25_APRS_IS_ATTEMPTS_MAX then none
    else
      let txBuf := match login with
        | none => txBuf
        | some login => printAt txBuf 0 PATTY_AX25_APRS_IS_PACKET_MAX (loginText login)
      writeLoop o (attempt + 1) txBuf writes

/-- `patty_ax25_aprs_is_send`: what it returns, and the octets that it has written. The frame on the stack is
`frame`, and `tx_buf` holds `txBuf`. -/
def send (frame : Frame) (txBuf buf : Mem) (len : Nat) (writes : List Write) : Except Fault (Int × Option Bytes) := do
  match decodeAddress frame buf len with
  | none => return (-1, none)
  | some (frame, i) =>
    match decodeControl frame .normal buf i len with
    | none => return (-1, none)
    | some (frame, i) =>
      if !controlUI frame.control then return (0, none)
      else
        match ← printStations frame txBuf with
        | none => return (-1, none)
        | some (txBuf, o) =>
          if PATTY_AX25_APRS_IS_FRAME_MAX < o + frame.infolen + 3 then return (-1, none)
          else
            let line := 0x3a :: frame.infoBytes ++ [0x0d, 0x0a]
            match writeLoop (o + line.length) 0 (txBuf.store o line) writes with
            | none => return (-1, none)
            | some bs => return (i, some bs)

/-! ## The line -/

/-- `tx_buf` starts with the text. -/
def Holds (text : Bytes) (txBuf : Mem) : Prop := txBuf.read 0 text.length = text

variable {text more bs : Bytes} {txBuf : Mem} {addr : Addr} {c : Call}

theorem Holds.store (h : Holds text txBuf) (hpre : more <+: bs) :
    Holds (text ++ more) (txBuf.store text.length bs) := by
  obtain ⟨rest, rfl⟩ := hpre
  rw [Holds, List.length_append, Mem.read_append, Mem.read_store_disjoint (.inl (Nat.zero_add _).le), h, Nat.zero_add,
    Mem.read_store_within le_rfl (by simp), Nat.sub_self, List.drop_zero, List.take_left]

theorem printText_holds (h : Holds text txBuf) (hroom : (text ++ more).length < PATTY_AX25_APRS_IS_FRAME_MAX) :
    ∃ txBuf', printText txBuf text.length more = .ok (txBuf', (text ++ more).length) ∧ Holds (text ++ more) txBuf' := by
  rw [List.length_append] at hroom ⊢
  refine ⟨_, if_neg (by omega), ?_⟩
  rw [printAt, if_neg (by omega), List.take_of_length_le (by omega)]
  exact h.store (List.prefix_append _ _)

end AprsIs

/-- A letter or a digit. -/
def alnum (b : UInt8) : Bool := 0x30 ≤ b && b ≤ 0x39 || 0x41 ≤ b && b ≤ 0x5a || 0x61 ≤ b && b ≤ 0x7a

/-- The callsign is one to six letters or digits, padded with spaces. -/
def Addr.Lettered (addr : Addr) : Prop :=
  ∃ name : Bytes, name ≠ [] ∧ name.length ≤ PATTY_AX25_CALLSTRLEN ∧ (∀ b ∈ name, alnum b) ∧ addr.IsCalled name

/-- The address is written as this callsign, which is read as the same address. -/
structure Addr.Writes (addr : Addr) (c : Call) : Prop where
  valid : c.Valid
  text : ntop addr (PATTY_AX25_ADDRSTRLEN + 1) = .ok (.ok c.text)
  same : c.addr.Same addr
  wellFormed : c.addr.WellFormed
  space : 0x20 ∉ c.text

theorem alnum_char {b : UInt8} (h : alnum b) : (0x21 : UInt8) ≤ b ∧ b ≤ 0x7e ∧ b ≠ 0x2d ∧ b ∉ separators := by
  have hne {x : UInt8} (hx : alnum x = false) : b ≠ x := by
    rintro rfl
    rw [h] at hx
    cases hx
  have hsep : b ∉ separators := by
    simp only [separators, List.mem_cons, List.not_mem_nil, or_false, not_or]
    exact ⟨hne (by decide), hne (by decide), hne (by decide), hne (by decide)⟩
  refine ⟨?_, ?_, hne (by decide), hsep⟩
  all_goals
    simp only [alnum, Bool.or_eq_true, Bool.and_eq_true, decide_eq_true_eq, UInt8.le_iff_toNat_le] at h ⊢
    have h21 : (0x21 : UInt8).toNat = 0x21 := rfl
    have h7e : (0x7e : UInt8).toNat = 0x7e := rfl
    have h30 : (0x30 : UInt8).toNat = 0x30 := rfl
    have h39 : (0x39 : UInt8).toNat = 0x39 := rfl
    have h41 : (0x41 : UInt8).toNat = 0x41 := rfl
    have h5a : (0x5a : UInt8).toNat = 0x5a := rfl
    have h61 : (0x61 : UInt8).toNat = 0x61 := rfl
    have h7a : (0x7a : UInt8).toNat = 0x7a := rfl
    omega

theorem shift_octet {b : UInt8} (h : b ≤ 0x7e) : (b <<< 1) &&& 0x01 = 0 ∧ (b <<< 1) >>> 1 = b := by
  have hle : b.toNat ≤ 0x7e := UInt8.le_iff_toNat_le.mp h
  have hshift : (b <<< 1).toNat = b.toNat * 2 := by
    rw [UInt8.toNat_shiftLeft]
    refine (congrArg (· % 2 ^ 8) (Nat.shiftLeft_eq ..)).trans ?_
    exact Nat.mod_eq_of_lt (by show b.toNat * 2 ^ 1 < 256; omega)
  constructor
  · apply UInt8.toNat_inj.mp
    rw [UInt8.toNat_and, hshift, UInt8.toNat_one, Nat.and_one_is_mod, Nat.mul_mod_left]
    rfl
  · apply UInt8.toNat_inj.mp
    rw [UInt8.toNat_shiftRight, hshift]
    refine (Nat.shiftRight_eq_div_pow _ 1).trans ?_
    omega

/-- A callsign without spaces in it is one that `decode_station` accepts. -/
theorem Named.wellFormed {name : Bytes} {addr : Addr} (hname : Named name) (h : addr.IsCalled name) :
    addr.WellFormed := by
  have hchar (i : Nat) : (0x20 : UInt8) ≤ name.getD i 0x20 ∧ name.getD i 0x20 ≤ 0x7e := by
    by_cases hi : i < name.length
    · rw [List.getD_eq_getElem _ _ hi]
      obtain ⟨hlo, hhi, -⟩ := hname.chars _ (List.getElem_mem hi)
      exact ⟨UInt8.le_trans (by decide) hlo, hhi⟩
    · rw [List.getD_eq_default _ _ (Nat.not_lt.mp hi)]
      exact ⟨by decide, by decide⟩
  have hback (i : Nat) : (name.getD i 0x20 <<< 1) &&& 0x01 = 0 ∧ (name.getD i 0x20 <<< 1) >>> 1 = name.getD i 0x20 :=
    shift_octet (hchar i).2
  rw [Addr.wellFormed_iff]
  refine ⟨fun i => ?_, fun i j hij hspace => ?_⟩
  · rw [h i, (hback i).2]
    exact ⟨(hback i).1, hchar i⟩
  · rw [h i, (hback i).2] at hspace
    rw [h j, (hback j).2]
    have hi : name.length ≤ i.val := by
      by_contra hlt
      rw [List.getD_eq_getElem _ _ (Nat.not_le.mp hlt)] at hspace
      have hlo := (hname.chars _ (List.getElem_mem (Nat.not_le.mp hlt))).1
      rw [hspace] at hlo
      exact absurd hlo (by decide)
    exact List.getD_eq_default _ _ (hi.trans hij.le)

theorem Addr.Lettered.writes {addr : Addr} (h : addr.Lettered) : ∃ c, addr.Writes c := by
  obtain ⟨name, hne, hlen, hchars, hcalled⟩ := h
  have hname : Named name := by
    refine ⟨hne, hlen, fun b hb => ?_⟩
    obtain ⟨hlo, hhi, hdash, -⟩ := alnum_char (hchars b hb)
    exact ⟨hlo, hhi, hdash⟩
  have hn : (addrSsidNumber addr.ssid).toNat ≤ 15 := by
    rw [addrSsidNumber_toNat]
    omega
  obtain ⟨hscans, -⟩ := hname.spelled hn
  refine ⟨⟨name, ssidDigits (addrSsidNumber addr.ssid).toNat⟩, ?_, ntop_called hcalled hname le_rfl, ?_, ?_, ?_⟩
  · refine ⟨hne, hlen, fun b hb => ?_, hscans.count, hscans.digits, hscans.ssid⟩
    exact ⟨(hscans.chars b hb).1, (alnum_char (hchars b hb)).2.2.2, (hscans.chars b hb).2⟩
  · refine ⟨funext fun i => (hcalled i).symm, UInt8.toNat_inj.mp ?_⟩
    rw [Call.addr, Call.ssid, (ssidDigits_value _ hn).1]
    exact addrSsidNumber_ofNat _ hn
  · exact hname.wellFormed fun _ => rfl
  · intro hspace
    rw [Call.text, List.mem_append] at hspace
    rcases hspace with hspace | hspace
    · exact absurd (hname.chars _ hspace).1 (by decide)
    · split at hspace
      · cases hspace
      · rcases List.mem_cons.mp hspace with hdash | hdigit
        · exact absurd hdash (by decide)
        · exact absurd (hscans.digits _ hdigit).1 (by decide)

/-! ## What is formatted -/

namespace AprsIs

theorem printCall_holds (before after : Bytes) (hc : addr.Writes c) (h : Holds text txBuf)
    (hroom : (text ++ (before ++ c.text ++ after)).length < PATTY_AX25_APRS_IS_FRAME_MAX) : ∃ txBuf',
      printCall before after addr txBuf text.length =
        .ok (some (txBuf', (text ++ (before ++ c.text ++ after)).length)) ∧
      Holds (text ++ (before ++ c.text ++ after)) txBuf' := by
  have hall : c.text.takeWhile (· != 0) = c.text := by
    refine List.takeWhile_eq_self_iff.mpr fun b hb => ?_
    have hne : b ≠ 0 := by
      rintro rfl
      exact absurd (chars_text hc.valid 0 hb).1 (by decide)
    simpa using hne
  obtain ⟨txBuf', hprint, hholds⟩ := printText_holds h hroom
  refine ⟨txBuf', ?_, hholds⟩
  rw [printCall, hc.text, Except.ok_bind]
  dsimp only
  rw [hall, hprint]
  rfl

/-- The text of the repeaters. -/
def hopsText (hops : List Call) : Bytes := hops.flatMap fun c => 0x2c :: c.text

theorem length_hopsText {hops : List Call} (h : ∀ c ∈ hops, c.Valid) : (hopsText hops).length ≤ 10 * hops.length := by
  induction hops with
  | nil => exact Nat.zero_le _
  | cons c hops ih =>
    rw [List.forall_mem_cons] at h
    have hc : c.text.length ≤ 9 := h.1.scans.length_text
    have hrest := ih h.2
    rw [hopsText, List.flatMap_cons, List.length_append, List.length_cons, List.length_cons]
    change c.text.length + 1 + (hopsText hops).length ≤ 10 * (hops.length + 1)
    omega

theorem printHops_holds {addrs : List Addr} {hops : List Call} (hc : List.Forall₂ Addr.Writes addrs hops)
    (h : Holds text txBuf) (hroom : (text ++ hopsText hops).length < PATTY_AX25_APRS_IS_FRAME_MAX) : ∃ txBuf',
      printHops addrs txBuf text.length = .ok (some (txBuf', (text ++ hopsText hops).length)) ∧
      Holds (text ++ hopsText hops) txBuf' := by
  induction hc generalizing text txBuf with
  | nil =>
    rw [hopsText, List.flatMap_nil, List.append_nil]
    exact ⟨txBuf, rfl, h⟩
  | @cons addr c addrs hops hfirst _ ih =>
    have hsplit : text ++ hopsText (c :: hops) = text ++ ([0x2c] ++ c.text ++ []) ++ hopsText hops := by
      simp [hopsText]
    rw [hsplit] at hroom ⊢
    have hroom' := hroom
    rw [List.length_append] at hroom'
    obtain ⟨txBuf₁, hprint, hholds⟩ := printCall_holds [0x2c] [] hfirst h (by omega)
    obtain ⟨txBuf', hrest, hholds'⟩ := ih hholds hroom
    refine ⟨txBuf', ?_, hholds'⟩
    rw [printHops, hprint, Except.ok_bind]
    exact hrest

/-- The header of a line, without the colon. -/
def stationsText (src dest : Call) (hops : List Call) : Bytes := src.text ++ 0x3e :: dest.text ++ hopsText hops

theorem printStations_holds {frame : Frame} {src dest : Call} {hops : List Call} (hsrc : frame.src.Writes src)
    (hdest : frame.dest.Writes dest) (hhops : List.Forall₂ Addr.Writes (hopList frame.repeaters frame.hops) hops)
    (hvalid : ∀ c ∈ hops, c.Valid) (hcount : hops.length ≤ PATTY_AX25_MAX_HOPS) (txBuf : Mem) : ∃ txBuf',
      printStations frame txBuf = .ok (some (txBuf', (stationsText src dest hops).length)) ∧
      Holds (stationsText src dest hops) txBuf' ∧ (stationsText src dest hops).length ≤ 99 := by
  have hlen : hops.length ≤ 8 := hcount
  have hs : src.text.length ≤ 9 := hsrc.valid.scans.length_text
  have hd : dest.text.length ≤ 9 := hdest.valid.scans.length_text
  have hh := length_hopsText hvalid
  have hsplit : stationsText src dest hops =
      [] ++ ([] ++ src.text ++ [0x3e]) ++ ([] ++ dest.text ++ []) ++ hopsText hops := by simp [stationsText]
  have htotal : (stationsText src dest hops).length ≤ 99 := by
    rw [hsplit]
    simp only [List.length_append, List.length_nil, List.length_singleton]
    omega
  have hroom : (stationsText src dest hops).length < 512 := by omega
  rw [hsplit] at hroom ⊢
  have hroom₂ := hroom
  rw [List.length_append] at hroom₂
  have hroom₁ := hroom₂
  rw [List.length_append] at hroom₁
  obtain ⟨txBuf₁, hprint₁, hholds₁⟩ := printCall_holds [] [0x3e] hsrc (show Holds [] txBuf from rfl)
    (by show _ < 512; omega)
  obtain ⟨txBuf₂, hprint₂, hholds₂⟩ := printCall_holds [] [] hdest hholds₁
    (by show _ < 512; omega)
  obtain ⟨txBuf', hrest, hholds⟩ := printHops_holds hhops hholds₂ hroom
  refine ⟨txBuf', ?_, hholds, hsplit ▸ htotal⟩
  rw [printStations, show (0 : Nat) = ([] : Bytes).length from rfl, hprint₁, Except.ok_bind]
  dsimp only
  rw [hprint₂, Except.ok_bind]
  exact hrest

/-- The line is that of a packet. -/
theorem line_octets {src dest : Call} {hops : List Call} {body : Bytes} :
    stationsText src dest hops ++ (0x3a :: body ++ [0x0d, 0x0a]) =
      (Line.packet ⟨src, dest, hops, body, true⟩).octets := by
  have hfields (c : Call) : fieldsText c hops = c.text ++ hopsText hops ++ [0x3a] := by
    induction hops generalizing c with
    | nil => simp [fieldsText, hopsText]
    | cons d ds ih => simp [fieldsText, ih, hopsText]
  simp [Line.octets, Line.text, Packet.header, hfields, stationsText]

end AprsIs

end Patty
