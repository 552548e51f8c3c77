import Patty.Sock

/-! # Address fields on the wire

An address field is a list of stations of seven octets each, the last of which has the extension bit.
`patty_ax25_frame_decode_address` takes back what both `encode_address` store (`decodeAddress_octets`):
the stations, the length of the field, and whether the frame is a command or a response. -/

namespace Patty

/-! ## Stations -/

/-- The octets of a station: its callsign and its SSID octet. -/
def station (a : Addr) (ssid : UInt8) : Bytes := List.ofFn a.callsign ++ [ssid]

/-- The octets of stations, one after the other. -/
def stations (l : List (Addr × UInt8)) : Bytes := l.flatMap fun x => station x.1 x.2

/-- The callsign is one that `decode_station` accepts. -/
def Addr.WellFormed (a : Addr) : Prop := decodeCallsign (List.ofFn a.callsign) false

/-- Printable characters shifted left by one, with spaces at the end only. -/
structure Addr.Spelled (a : Addr) : Prop where
  chars : ∀ i, a.callsign i &&& 0x01 = 0 ∧ (0x20 : UInt8) ≤ a.callsign i >>> 1 ∧ a.callsign i >>> 1 ≤ 0x7e
  spaces : ∀ i j, i < j → a.callsign i >>> 1 = 0x20 → a.callsign j >>> 1 = 0x20

/-- The loop of `decode_station`: once a space was seen, there are only spaces. -/
theorem decodeCallsign_iff (bs : Bytes) (space : Bool) : decodeCallsign bs space ↔
    (∀ b ∈ bs, b &&& 0x01 = 0 ∧ (0x20 : UInt8) ≤ b >>> 1 ∧ b >>> 1 ≤ 0x7e) ∧
      (space = true → ∀ b ∈ bs, b >>> 1 = 0x20) ∧
      bs.Pairwise fun b c : UInt8 => b >>> 1 = 0x20 → c >>> 1 = 0x20 := by
  induction bs generalizing space with
  | nil => simp [decodeCallsign]
  | cons b bs ih =>
    have hvalid : (!addrCharValid (b >>> 1) || addrOctetLast b) = false ↔
        b &&& 0x01 = 0 ∧ (0x20 : UInt8) ≤ b >>> 1 ∧ b >>> 1 ≤ 0x7e := by
      have hbit : b &&& 0x01 ≠ 0x01 ↔ b &&& 0x01 = 0 := by
        have h2 : (b &&& 0x01).toNat = b.toNat % 2 := by
          rw [UInt8.toNat_and]
          exact Nat.and_two_pow_sub_one_eq_mod b.toNat 1
        rw [← UInt8.toNat_inj, ne_eq, ← UInt8.toNat_inj, h2, show (0x01 : UInt8).toNat = 1 from rfl,
          show (0 : UInt8).toNat = 0 from rfl]
        omega
      simp only [addrCharValid, addrOctetLast, Bool.or_eq_false_iff, Bool.not_eq_false', Bool.and_eq_true,
        decide_eq_true_eq, beq_eq_false_iff_ne, hbit]
      tauto
    rw [decodeCallsign, List.forall_mem_cons, List.forall_mem_cons, List.pairwise_cons, ← hvalid]
    by_cases hbad : (!addrCharValid (b >>> 1) || addrOctetLast b) = true
    · rw [if_pos hbad, hbad]
      simp
    · rw [if_neg hbad, Bool.eq_false_iff.mpr hbad]
      by_cases hc : b >>> 1 = 0x20
      · cases space with
        | true => simp [hc, ih]
        | false => simp [hc, ih]
      · cases space with
        | true => simp [hc]
        | false => simp [hc, ih]

theorem Addr.wellFormed_iff (a : Addr) : a.WellFormed ↔ a.Spelled := by
  unfold Addr.WellFormed
  rw [decodeCallsign_iff, List.forall_mem_ofFn_iff, List.pairwise_ofFn]
  exact ⟨fun h => ⟨h.1, h.2.2⟩, fun h => ⟨h.1, by simp, h.2⟩⟩

variable {buf : Mem} {off len n : Nat} {a : Addr} {x : UInt8} {frame : Frame}
  {l init : List (Addr × UInt8)}

@[simp] theorem length_station (a : Addr) (x : UInt8) : (station a x).length = 7 := by simp [station]

@[simp] theorem length_stations (l : List (Addr × UInt8)) : (stations l).length = 7 * l.length := by
  induction l with
  | nil => rfl
  | cons x l ih =>
    rw [stations, List.flatMap_cons, List.length_append, ← stations, ih, length_station,
      List.length_cons]
    omega

theorem stations_append (l l' : List (Addr × UInt8)) : stations (l ++ l') = stations l ++ stations l' :=
  List.flatMap_append

theorem decodeStation_station (h : a.WellFormed) (hlen : off + 7 ≤ len)
    (hread : buf.read off 7 = station a x) : decodeStation buf off len = some ⟨a.callsign, x⟩ := by
  have hsplit : buf.read off 6 ++ [buf (off + 6)] = List.ofFn a.callsign ++ [x] := hread
  obtain ⟨hcall, hssid⟩ := List.append_inj hsplit (by simp)
  have hofMem : Addr.ofMem buf off = ⟨a.callsign, x⟩ := by
    have hfn : List.ofFn (fun i : Fin 6 => buf (off + i)) = List.ofFn a.callsign := hcall
    rw [Addr.ofMem, List.ofFn_injective hfn, List.singleton_inj.mp hssid]
  have hcallsign : decodeCallsign (List.ofFn a.callsign) false = true := h
  rw [decodeStation, if_neg (by omega), hcall, if_pos hcallsign, hofMem]

/-- The stations at an offset start with the first of them. -/
theorem read_stations_cons {y : Addr × UInt8}
    (h : buf.read off (7 * (l.length + 1)) = stations (y :: l)) :
    buf.read off 7 = station y.1 y.2 ∧ buf.read (off + 7) (7 * l.length) = stations l := by
  rw [show 7 * (l.length + 1) = 7 + 7 * l.length by omega, Mem.read_append] at h
  exact List.append_inj h (by simp)

/-! ## Repeaters -/

/-- The first `n` of the repeaters. -/
def hopList (repeaters : Fin PATTY_AX25_MAX_HOPS → Addr) (n : Nat) : List Addr :=
  ((List.finRange PATTY_AX25_MAX_HOPS).filter (·.val < n)).map repeaters

variable {repeaters : Fin PATTY_AX25_MAX_HOPS → Addr}

theorem hopList_eq (h : n ≤ PATTY_AX25_MAX_HOPS) :
    hopList repeaters n = (List.range n).map fun i => repeaters (Fin.ofNat _ i) := by
  have hall : ∀ n, n ≤ 8 → (List.finRange 8).filter (·.val < n) = (List.range n).map (Fin.ofNat 8) := by
    decide
  rw [hopList, hall n h, List.map_map]
  rfl

theorem length_hopList (h : n ≤ PATTY_AX25_MAX_HOPS) : (hopList repeaters n).length = n := by
  simp [hopList_eq h]

/-- The repeater that is added comes last. -/
theorem hopList_push (a : Addr) (h : n < PATTY_AX25_MAX_HOPS) :
    hopList (fun i => if i.val = n then a else repeaters i) (n + 1) = hopList repeaters n ++ [a] := by
  rw [hopList_eq h, hopList_eq (Nat.le_of_lt h), List.range_succ, List.map_append]
  congr 1
  · apply List.map_congr_left
    intro i hi
    rw [List.mem_range] at hi
    have hval : (Fin.ofNat PATTY_AX25_MAX_HOPS i).val = i := Nat.mod_eq_of_lt (by omega)
    rw [if_neg (by omega)]
  · have hval : (Fin.ofNat PATTY_AX25_MAX_HOPS n).val = n := Nat.mod_eq_of_lt h
    rw [List.map_singleton, if_pos hval]

theorem forall_hopList {p : Addr → Prop}
    (h : ∀ i : Fin PATTY_AX25_MAX_HOPS, i.val < n → p (repeaters i)) : ∀ a ∈ hopList repeaters n, p a := by
  intro a ha
  obtain ⟨i, hi, rfl⟩ := List.mem_map.mp ha
  exact h i (of_decide_eq_true (List.mem_filter.mp hi).2)

/-- The address that is taken from a station. -/
def ofStation (y : Addr × UInt8) : Addr := ⟨y.1.callsign, y.2⟩

/-- What decoding the repeaters leaves alone, and what it adds. -/
structure AddsHops (frame f : Frame) (l : List Addr) : Prop where
  cr : f.cr = frame.cr
  dest : f.dest = frame.dest
  src : f.src = frame.src
  count : f.hops = frame.hops + l.length
  hops : hopList f.repeaters f.hops = hopList frame.repeaters frame.hops ++ l

/-- The stations of repeaters, the last of which has the extension bit. -/
theorem decodeHops_stations (frame : Frame) (hwf : ∀ y ∈ init, y.1.WellFormed) (ha : a.WellFormed)
    (hinit : ∀ y ∈ init, addrOctetLast y.2 = false) (hx : addrOctetLast x = true)
    (hn : init.length < n) (hmax : frame.hops + n ≤ PATTY_AX25_MAX_HOPS)
    (hlen : off + 7 * (init.length + 1) ≤ len)
    (hread : buf.read off (7 * (init.length + 1)) = stations (init ++ [(a, x)])) :
    ∃ f, decodeHops buf len n frame off = some (f, off + 7 * (init.length + 1)) ∧
      AddsHops frame f ((init ++ [(a, x)]).map ofStation) := by
  induction init generalizing n frame off with
  | nil =>
    obtain ⟨n, rfl⟩ : ∃ m, n = m + 1 := ⟨n - 1, by simp at hn; omega⟩
    have hfirst := (read_stations_cons (l := []) hread).1
    rw [decodeHops, decodeStation_station ha (by simpa using hlen) hfirst]
    dsimp only
    rw [if_pos hx]
    exact ⟨_, rfl, rfl, rfl, rfl, rfl, hopList_push _ (by omega)⟩
  | cons y init ih =>
    obtain ⟨n, rfl⟩ : ∃ m, n = m + 1 := ⟨n - 1, by simp at hn; omega⟩
    simp only [List.length_cons] at hn hlen hread ⊢
    have hlen' : (init ++ [(a, x)]).length = init.length + 1 := by simp
    rw [← hlen', List.cons_append] at hread
    obtain ⟨hfirst, hrest⟩ := read_stations_cons hread
    rw [hlen'] at hrest
    rw [List.forall_mem_cons] at hwf hinit
    obtain ⟨f, hf, hadds⟩ := @ih (off + 7) n { frame with
        repeaters := fun i => if i.val = frame.hops then ⟨y.1.callsign, y.2⟩ else frame.repeaters i
        hops := frame.hops + 1 } hwf.2 hinit.2 (by omega) (by dsimp only; omega) (by omega) hrest
    rw [decodeHops, decodeStation_station hwf.1 (by omega) hfirst]
    dsimp only
    rw [if_neg (by simp [hinit.1]), hf]
    refine ⟨f, by rw [show off + 7 + 7 * (init.length + 1) = off + 7 * (init.length + 1 + 1) by omega],
      hadds.cr, hadds.dest, hadds.src, ?_, ?_⟩
    · rw [hadds.count, List.cons_append, List.map_cons, List.length_cons]
      dsimp only
      omega
    · rw [hadds.hops, hopList_push _ (by omega), List.append_assoc]
      rfl

/-- The sense of a frame with these SSID octets. -/
def crOf (dest src : UInt8) : FrameCr :=
  if addrSsidC dest != addrSsidC src then if addrSsidC dest then .command else .response else .old

/-- What the decoder finds in an address field. -/
structure Frame.Reads (f : Frame) (dest src : Addr) (hops : List Addr) (cr : FrameCr) : Prop where
  dest : f.dest = dest
  src : f.src = src
  count : f.hops = hops.length
  hops : hopList f.repeaters f.hops = hops
  cr : f.cr = cr

/-- The start of an address field, up to the repeaters. -/
theorem decodeAddress_start (frame : Frame) {d r : Addr} {y z : UInt8} (hd : d.WellFormed)
    (hr : r.WellFormed) (hlen : 14 ≤ len)
    (hread : buf.read 0 14 = stations [(d, y), (r, z)]) :
    ∃ f, f.Reads (ofStation (d, y)) (ofStation (r, z)) [] (crOf y z) ∧ decodeAddress frame buf len =
      if addrOctetLast z then some (f, 14) else decodeHops buf len PATTY_AX25_MAX_HOPS f 14 := by
  obtain ⟨h1, hrest⟩ := read_stations_cons (l := [(r, z)]) hread
  have h2 := (read_stations_cons (l := []) hrest).1
  rw [decodeAddress, decodeStation_station hd (by omega) h1]
  dsimp only
  rw [decodeStation_station hr (by omega) h2]
  dsimp only
  refine ⟨_, ?_, rfl⟩
  unfold crOf
  split <;> exact ⟨rfl, rfl, rfl, rfl, rfl⟩

/-- An address field without repeaters. -/
theorem decodeAddress_direct (frame : Frame) {d r : Addr} {y z : UInt8} (hd : d.WellFormed)
    (hr : r.WellFormed) (hx : addrOctetLast z = true) (hlen : 14 ≤ len)
    (hread : buf.read 0 14 = stations [(d, y), (r, z)]) :
    ∃ f, decodeAddress frame buf len = some (f, 14) ∧
      f.Reads (ofStation (d, y)) (ofStation (r, z)) [] (crOf y z) := by
  obtain ⟨f, hf, hdec⟩ := decodeAddress_start frame hd hr hlen hread
  exact ⟨f, by rw [hdec, if_pos hx], hf⟩

/-- An address field with repeaters, of which `a` is the last. -/
theorem decodeAddress_hops (frame : Frame) {d r : Addr} {y z : UInt8} (hd : d.WellFormed)
    (hr : r.WellFormed) (hno : addrOctetLast z = false)
    (hwf : ∀ u ∈ init, u.1.WellFormed) (ha : a.WellFormed)
    (hinit : ∀ u ∈ init, addrOctetLast u.2 = false) (hx : addrOctetLast x = true)
    (hn : init.length < PATTY_AX25_MAX_HOPS) (hlen : 14 + 7 * (init.length + 1) ≤ len)
    (hread : buf.read 0 (14 + 7 * (init.length + 1)) = stations ((d, y) :: (r, z) :: (init ++ [(a, x)]))) :
    ∃ f, decodeAddress frame buf len = some (f, 14 + 7 * (init.length + 1)) ∧
      f.Reads (ofStation (d, y)) (ofStation (r, z)) ((init ++ [(a, x)]).map ofStation) (crOf y z) := by
  rw [Mem.read_append] at hread
  obtain ⟨hstart, hrest⟩ := List.append_inj
    (hread.trans (stations_append [(d, y), (r, z)] (init ++ [(a, x)]))) (by simp)
  have h14 : 14 ≤ len := by omega
  obtain ⟨f, hf, hdec⟩ := decodeAddress_start frame hd hr h14 hstart
  rw [Nat.zero_add] at hrest
  have hzero : f.hops = 0 := hf.count
  obtain ⟨f', hf', hadds⟩ := decodeHops_stations f hwf ha hinit hx hn (by omega) hlen hrest
  refine ⟨f', by rw [hdec, if_neg (by simp [hno]), hf'], hadds.dest.trans hf.dest, hadds.src.trans hf.src,
    ?_, ?_, hadds.cr.trans hf.cr⟩
  · rw [hadds.count, hzero, Nat.zero_add]
  · rw [hadds.hops, hf.hops]
    rfl

/-! ## SSID octets -/

theorem or_and (b c d : UInt8) : (b ||| c) &&& d = b &&& d ||| c &&& d := by
  apply UInt8.toNat_inj.mp
  simp only [UInt8.toNat_and, UInt8.toNat_or, Nat.and_or_distrib_right]

/-- The SSID octet that `patty_ax25_addr_copy` stores. -/
def ssidOctet (ssidFlags ssid : UInt8) : UInt8 := ssidFlags ||| 0x60 ||| (ssid &&& 0x1e)

theorem addrCopy_eq (a : Addr) (ssidFlags : UInt8) :
    addrCopy a ssidFlags = station a (ssidOctet ssidFlags a.ssid) := rfl

/-- A bit that is none of the SSID's own is that of the flags. -/
theorem ssidOctet_and (ssidFlags ssid mask : UInt8) (h : 0x60 &&& mask = 0) (h' : 0x1e &&& mask = 0) :
    ssidOctet ssidFlags ssid &&& mask = ssidFlags &&& mask := by
  rw [ssidOctet, or_and, or_and, UInt8.and_assoc, h, h']
  simp

theorem addrOctetLast_ssidOctet {ssidFlags : UInt8} (h : ssidFlags &&& 0x01 = 0) (ssid : UInt8) :
    addrOctetLast (ssidOctet ssidFlags ssid) = false := by
  rw [addrOctetLast, ssidOctet_and _ _ 0x01 rfl rfl, h]
  rfl

theorem addrSsidC_ssidOctet (ssidFlags ssid : UInt8) :
    addrSsidC (ssidOctet ssidFlags ssid) = addrSsidC ssidFlags := by
  rw [addrSsidC, ssidOctet_and _ _ 0x80 rfl rfl, addrSsidC]

theorem addrOctetLast_or (y : UInt8) : addrOctetLast (y ||| 1) = true := by
  rw [addrOctetLast, beq_iff_eq, or_and]
  apply UInt8.toNat_inj.mp
  simp only [UInt8.toNat_or, UInt8.toNat_and, UInt8.toNat_one, Nat.and_one_is_mod]
  obtain h | h := Nat.mod_two_eq_zero_or_one y.toNat
  · rw [h]; rfl
  · rw [h]; rfl

theorem addrSsidC_or (y : UInt8) : addrSsidC (y ||| 1) = addrSsidC y := by
  have hzero : (1 : UInt8) &&& 0x80 = 0 := rfl
  rw [addrSsidC, or_and, hzero, UInt8.or_zero, addrSsidC]

/-- The SSID number is not touched by the flags. -/
theorem addrSsidNumber_ssidOctet {ssidFlags : UInt8} (h : ssidFlags &&& 0x1e = 0) (ssid : UInt8) :
    addrSsidNumber (ssidOctet ssidFlags ssid) = addrSsidNumber ssid := by
  have hzero : (0x60 : UInt8) &&& 0x1e = 0 := rfl
  have hself : (0x1e : UInt8) &&& 0x1e = 0x1e := rfl
  rw [addrSsidNumber, ssidOctet, or_and, or_and, h, hzero, UInt8.and_assoc, hself]
  simp [addrSsidNumber]

theorem addrSsidNumber_or (y : UInt8) : addrSsidNumber (y ||| 1) = addrSsidNumber y := by
  have hzero : (1 : UInt8) &&& 0x1e = 0 := rfl
  rw [addrSsidNumber, or_and, hzero, UInt8.or_zero, addrSsidNumber]

/-! ## Address fields -/

theorem modify_concat {α : Type} (f : α → α) (l : List α) (a : α) :
    (l ++ [a]).modify l.length f = l ++ [f a] := by
  induction l with
  | nil => rfl
  | cons b l ih => simp [ih]

/-- The extension bit goes to the last station. -/
theorem modify_stations (l : List (Addr × UInt8)) (a : Addr) (x : UInt8) :
    (stations (l ++ [(a, x)])).modify ((stations (l ++ [(a, x)])).length - 1) (· ||| 1) =
      stations (l ++ [(a, x ||| 1)]) := by
  have hsplit (y : UInt8) : stations (l ++ [(a, y)]) = (stations l ++ List.ofFn a.callsign) ++ [y] := by
    rw [stations_append, List.append_assoc]
    rfl
  have hlen : (stations l ++ List.ofFn a.callsign ++ [x]).length - 1 =
      (stations l ++ List.ofFn a.callsign).length := by simp
  rw [hsplit, hsplit, hlen, modify_concat]

theorem flatMap_ite {α β : Type} (p : α → Prop) [DecidablePred p] (f : α → List β) (l : List α) :
    (l.flatMap fun a => if p a then f a else []) = (l.filter (p ·)).flatMap f := by
  induction l with
  | nil => rfl
  | cons a l ih =>
    rw [List.flatMap_cons, ih]
    by_cases h : p a
    · simp [h]
    · simp [h]

/-- The flags that mark a command or a response: those of the remote station, and those of the local
one. -/
def crFlags : FrameCr → UInt8 × UInt8
  | .command => (0x80, 0x00)
  | .response => (0x00, 0x80)
  | .old => (0x00, 0x00)

theorem crOf_ssidOctet (cr : FrameCr) (ssid ssid' : UInt8) :
    crOf (ssidOctet (crFlags cr).1 ssid) (ssidOctet (crFlags cr).2 ssid') = cr := by
  rw [crOf, addrSsidC_ssidOctet, addrSsidC_ssidOctet]
  cases cr <;> rfl

theorem crOf_or (x y : UInt8) : crOf x (y ||| 1) = crOf x y := by
  rw [crOf, crOf, addrSsidC_or]

theorem crFlags_and (cr : FrameCr) : (crFlags cr).1 &&& 0x01 = 0 ∧ (crFlags cr).2 &&& 0x01 = 0 := by
  cases cr <;> exact ⟨rfl, rfl⟩

theorem crFlags_number (cr : FrameCr) : (crFlags cr).1 &&& 0x1e = 0 ∧ (crFlags cr).2 &&& 0x1e = 0 := by
  cases cr <;> exact ⟨rfl, rfl⟩

/-- The stations of an address field, before the last one gets the extension bit. -/
def stationsOf (dest src : Addr) (hops : List Addr) (cr : FrameCr) : List (Addr × UInt8) :=
  (dest, ssidOctet (crFlags cr).1 dest.ssid) :: (src, ssidOctet (crFlags cr).2 src.ssid) ::
    hops.map fun a => (a, ssidOctet 0 a.ssid)

/-- An address field: the stations, with the extension bit on the last octet. -/
def addressOctets (dest src : Addr) (hops : List Addr) (cr : FrameCr) : Bytes :=
  (stations (stationsOf dest src hops cr)).modify
    ((stations (stationsOf dest src hops cr)).length - 1) (· ||| 1)

variable {dest src : Addr} {hops : List Addr} {cr : FrameCr}

@[simp] theorem length_addressOctets : (addressOctets dest src hops cr).length = 7 * (2 + hops.length) := by
  rw [addressOctets, List.length_modify, length_stations]
  simp only [stationsOf, List.length_cons, List.length_map]
  omega

/-- The stations as both encoders copy them. -/
theorem stations_copied (dest src : Addr) (n : Nat) (cr : FrameCr) :
    stations (stationsOf dest src (hopList repeaters n) cr) = addrCopy dest (crFlags cr).1 ++
      addrCopy src (crFlags cr).2 ++ (List.finRange PATTY_AX25_MAX_HOPS).flatMap fun i =>
        if i.val < n then addrCopy (repeaters i) 0 else [] := by
  rw [flatMap_ite (fun i : Fin PATTY_AX25_MAX_HOPS => i.val < n)]
  simp only [stations, stationsOf, hopList, List.flatMap_cons, List.flatMap_map, List.map_map,
    addrCopy_eq, List.append_assoc]
  rfl

theorem encodeAddress_eq (frame : Frame) : encodeAddress frame =
    addressOctets frame.dest frame.src (hopList frame.repeaters frame.hops) frame.cr := by
  rw [addressOctets, stations_copied]
  unfold encodeAddress
  cases frame.cr <;> rfl

/-- The stations of a frame are those it was encoded from, as the hash sees them. -/
structure Frame.From (f : Frame) (dest src : Addr) (hops : List Addr) (cr : FrameCr) : Prop where
  dest : f.dest.Same dest
  src : f.src.Same src
  count : f.hops = hops.length
  hops : List.Forall₂ Addr.Same (hopList f.repeaters f.hops) hops
  cr : f.cr = cr

theorem same_ofStation {ssidFlags : UInt8} (h : ssidFlags &&& 0x1e = 0) (a : Addr) :
    (ofStation (a, ssidOctet ssidFlags a.ssid)).Same a := ⟨rfl, addrSsidNumber_ssidOctet h _⟩

/-- The station with the extension bit is the same one. -/
theorem same_ofStation_last {ssidFlags : UInt8} (h : ssidFlags &&& 0x1e = 0) (a : Addr) :
    (ofStation (a, ssidOctet ssidFlags a.ssid ||| 1)).Same a :=
  ⟨rfl, (addrSsidNumber_or _).trans (addrSsidNumber_ssidOctet h _)⟩

/-- An address field is taken back. -/
theorem decodeAddress_octets (frame : Frame) (hdest : dest.WellFormed) (hsrc : src.WellFormed)
    (hhops : ∀ a ∈ hops, a.WellFormed) (hmax : hops.length ≤ PATTY_AX25_MAX_HOPS)
    (hlen : 7 * (2 + hops.length) ≤ len)
    (hread : buf.read 0 (7 * (2 + hops.length)) = addressOctets dest src hops cr) :
    ∃ f, decodeAddress frame buf len = some (f, 7 * (2 + hops.length)) ∧ f.From dest src hops cr := by
  obtain ⟨hflags, hflags'⟩ := crFlags_and cr
  obtain ⟨hnumber, hnumber'⟩ := crFlags_number cr
  rw [addressOctets] at hread
  obtain rfl | ⟨init, a, rfl⟩ := hops.eq_nil_or_concat
  · have hlist : stationsOf dest src [] cr = [(dest, ssidOctet (crFlags cr).1 dest.ssid)] ++
        [(src, ssidOctet (crFlags cr).2 src.ssid)] := rfl
    rw [hlist, modify_stations] at hread
    have h14 : 14 ≤ len := by simpa using hlen
    obtain ⟨f, hf, hreads⟩ := decodeAddress_direct frame hdest hsrc (addrOctetLast_or _) h14 hread
    refine ⟨f, hf, ?_, ?_, hreads.count, ?_, ?_⟩
    · rw [hreads.dest]
      exact same_ofStation hnumber _
    · rw [hreads.src]
      exact same_ofStation_last hnumber' _
    · rw [hreads.hops]
      exact .nil
    · rw [hreads.cr, crOf_or, crOf_ssidOctet]
  · rw [List.concat_eq_append] at hhops hmax hlen hread ⊢
    have hlist : stationsOf dest src (init ++ [a]) cr = ((dest, ssidOctet (crFlags cr).1 dest.ssid) ::
        (src, ssidOctet (crFlags cr).2 src.ssid) :: init.map fun a => (a, ssidOctet 0 a.ssid)) ++
          [(a, ssidOctet 0 a.ssid)] := by
      rw [stationsOf, List.map_append]
      rfl
    have hwf : ∀ u ∈ init.map fun u => (u, ssidOctet 0 u.ssid), u.1.WellFormed := by
      intro u hu
      obtain ⟨u', hu', rfl⟩ := List.mem_map.mp hu
      exact hhops u' (List.mem_append_left _ hu')
    have hinit : ∀ u ∈ init.map fun u => (u, ssidOctet 0 u.ssid), addrOctetLast u.2 = false := by
      intro u hu
      obtain ⟨u', hu', rfl⟩ := List.mem_map.mp hu
      exact addrOctetLast_ssidOctet rfl _
    have hcount : (init.map fun u => (u, ssidOctet 0 u.ssid)).length = init.length := List.length_map _
    have htotal : (init ++ [a]).length = init.length + 1 := by simp
    rw [htotal] at hmax hlen hread
    rw [hlist, modify_stations] at hread
    have hfits : 14 + 7 * ((init.map fun u => (u, ssidOctet 0 u.ssid)).length + 1) ≤ len := by omega
    obtain ⟨f, hf, hreads⟩ := decodeAddress_hops frame hdest hsrc
      (addrOctetLast_ssidOctet hflags' _) hwf (hhops a (by simp)) hinit (addrOctetLast_or _)
      (by omega) hfits
      (by rw [hcount, show 14 + 7 * (init.length + 1) = 7 * (2 + (init.length + 1)) by omega]; exact hread)
    have hmap : (init.map (fun u => (u, ssidOctet 0 u.ssid)) ++ [(a, ssidOctet 0 a.ssid ||| 1)]).map
        ofStation = init.map (fun u => ofStation (u, ssidOctet 0 u.ssid)) ++
          [ofStation (a, ssidOctet 0 a.ssid ||| 1)] := by
      rw [List.map_append, List.map_map]
      rfl
    refine ⟨f, ?_, ?_, ?_, ?_, ?_, ?_⟩
    · rw [hf, hcount, htotal, show 14 + 7 * (init.length + 1) = 7 * (2 + (init.length + 1)) by omega]
    · rw [hreads.dest]
      exact same_ofStation hnumber _
    · rw [hreads.src]
      exact same_ofStation hnumber' _
    · rw [hreads.count]
      simp
    · rw [hreads.hops, hmap]
      refine List.rel_append ?_ (.cons (same_ofStation_last rfl _) .nil)
      rw [List.forall₂_map_left_iff, List.forall₂_same]
      exact fun u _ => same_ofStation rfl u
    · rw [hreads.cr, crOf_ssidOctet]

/-! ## What an address field lists -/

theorem stations_injective {l l' : List (Addr × UInt8)} (h : stations l = stations l') :
    l.map (fun x => (x.1.callsign, x.2)) = l'.map fun x => (x.1.callsign, x.2) := by
  have hlen : l.length = l'.length := by
    have hoctets := congrArg List.length h
    rw [length_stations, length_stations] at hoctets
    omega
  induction l generalizing l' with
  | nil =>
    obtain rfl := List.eq_nil_of_length_eq_zero hlen.symm
    rfl
  | cons x l ih =>
    cases l' with
    | nil => simp at hlen
    | cons y l' =>
      rw [stations, stations, List.flatMap_cons, List.flatMap_cons] at h
      obtain ⟨hxy, hrest⟩ := List.append_inj h (by simp)
      obtain ⟨hcall, hssid⟩ := List.append_inj hxy (by simp)
      rw [List.map_cons, List.map_cons, ih hrest (Nat.succ.inj hlen), List.ofFn_injective hcall,
        List.singleton_injective hssid]

/-- The stations of an address field, as the hash sees them. -/
theorem addressOctets_stations (dest src : Addr) (hops : List Addr) (cr : FrameCr) : ∃ l : List (Addr × UInt8),
    addressOctets dest src hops cr = stations l ∧ l.length = 2 + hops.length ∧
      List.Forall₂ (fun x a => x.1.callsign = a.callsign ∧ addrSsidNumber x.2 = addrSsidNumber a.ssid)
        (l.drop 2) hops := by
  have hhop : ∀ a : Addr, addrSsidNumber (ssidOctet 0 a.ssid) = addrSsidNumber a.ssid :=
    fun a => addrSsidNumber_ssidOctet rfl _
  obtain rfl | ⟨init, a, rfl⟩ := hops.eq_nil_or_concat
  · refine ⟨[(dest, ssidOctet (crFlags cr).1 dest.ssid)] ++ [(src, ssidOctet (crFlags cr).2 src.ssid ||| 1)],
      ?_, rfl, .nil⟩
    exact modify_stations [(dest, ssidOctet (crFlags cr).1 dest.ssid)] src _
  · refine ⟨((dest, ssidOctet (crFlags cr).1 dest.ssid) :: (src, ssidOctet (crFlags cr).2 src.ssid) ::
      init.map fun a => (a, ssidOctet 0 a.ssid)) ++ [(a, ssidOctet 0 a.ssid ||| 1)], ?_, ?_, ?_⟩
    · rw [← modify_stations, addressOctets, stationsOf, List.concat_eq_append, List.map_append]
      rfl
    · simp
      omega
    · rw [List.concat_eq_append]
      refine List.rel_append ?_ (.cons ⟨rfl, (addrSsidNumber_or _).trans (hhop a)⟩ .nil)
      rw [List.forall₂_map_left_iff, List.forall₂_same]
      exact fun u _ => ⟨rfl, hhop u⟩

theorem forall₂_common {α β γ : Type} {R : α → β → Prop} {S : α → γ → Prop} {T : β → γ → Prop}
    {as : List α} {bs : List β} {cs : List γ} (h : List.Forall₂ R as bs) (h' : List.Forall₂ S as cs)
    (hT : ∀ a b c, R a b → S a c → T b c) : List.Forall₂ T bs cs := by
  induction h generalizing cs with
  | nil =>
    cases h'
    exact .nil
  | cons hab _ ih =>
    cases h' with
    | cons hac hrest => exact .cons (hT _ _ _ hab hac) (ih hrest)

/-- An address field lists its repeaters. -/
theorem addressOctets_hops {dest src : Addr} {hops hops' : List Addr} {cr : FrameCr}
    (h : addressOctets dest src hops cr = addressOctets dest src hops' cr) :
    List.Forall₂ Addr.Same hops hops' := by
  obtain ⟨l, hl, -, hhops⟩ := addressOctets_stations dest src hops cr
  obtain ⟨l', hl', -, hhops'⟩ := addressOctets_stations dest src hops' cr
  have heq := congrArg (List.drop 2) (stations_injective (hl.symm.trans (h.trans hl')))
  rw [← List.map_drop, ← List.map_drop] at heq
  have hview : List.Forall₂ (fun (x : (Fin 6 → UInt8) × UInt8) (a : Addr) =>
      x.1 = a.callsign ∧ addrSsidNumber x.2 = addrSsidNumber a.ssid)
      ((l.drop 2).map fun x => (x.1.callsign, x.2)) hops := List.forall₂_map_left_iff.mpr hhops
  rw [heq, List.forall₂_map_left_iff] at hview
  exact forall₂_common hview hhops' fun _ _ _ ha hb => ⟨ha.1.symm.trans hb.1, ha.2.symm.trans hb.2⟩

/-! ## The address field of a socket -/

/-- The repeaters of a socket. -/
def Sock.repeaterList (s : Sock) : List Addr :=
  ((List.finRange PATTY_AX25_MAX_HOPS).filter (·.val < s.hops)).map s.repeaters

theorem Sock.repeaterList_length {s : Sock} (h : s.hops ≤ PATTY_AX25_MAX_HOPS) :
    s.repeaterList.length = s.hops := length_hopList h

/-- The stations of an address field, before the last one gets the extension bit. -/
def Sock.stationList (s : Sock) (cr : FrameCr) : List (Addr × UInt8) :=
  (s.remote, ssidOctet (crFlags cr).1 s.remote.ssid) ::
    (s.localAddr, ssidOctet (crFlags cr).2 s.localAddr.ssid) ::
    s.repeaterList.map fun a => (a, ssidOctet 0 a.ssid)

theorem addressField_octets (s : Sock) (cr : FrameCr) :
    s.addressField cr = addressOctets s.remote s.localAddr s.repeaterList cr := by
  rw [addressOctets, Sock.repeaterList, ← hopList, stations_copied]
  unfold Sock.addressField
  cases cr <;> rfl

theorem addressField_eq (s : Sock) (cr : FrameCr) :
    s.addressField cr = (stations (s.stationList cr)).modify
      ((stations (s.stationList cr)).length - 1) (· ||| 1) := addressField_octets s cr

/-- The addresses of the socket are well formed, and there are no more repeaters than fit. -/
structure Sock.Addressed (s : Sock) : Prop where
  remote : s.remote.WellFormed
  localAddr : s.localAddr.WellFormed
  hops : s.hops ≤ PATTY_AX25_MAX_HOPS
  repeaters : ∀ i : Fin PATTY_AX25_MAX_HOPS, i.val < s.hops → (s.repeaters i).WellFormed

variable {s : Sock}

theorem Sock.Addressed.repeaterList (h : s.Addressed) : ∀ a ∈ s.repeaterList, a.WellFormed :=
  forall_hopList h.repeaters

@[simp] theorem length_addressField (h : s.hops ≤ PATTY_AX25_MAX_HOPS) :
    (s.addressField cr).length = 7 * (2 + s.hops) := by
  rw [addressField_octets, length_addressOctets, s.repeaterList_length h]

/-- An address field that a socket sends is taken back. -/
theorem decodeAddress_addressField (frame : Frame) (h : s.Addressed) (hlen : 7 * (2 + s.hops) ≤ len)
    (hread : buf.read 0 (7 * (2 + s.hops)) = s.addressField cr) :
    ∃ f, decodeAddress frame buf len = some (f, 7 * (2 + s.hops)) ∧
      f.From s.remote s.localAddr s.repeaterList cr := by
  have hcount := s.repeaterList_length h.hops
  rw [addressField_octets, ← hcount] at hread
  rw [← hcount] at hlen ⊢
  exact decodeAddress_octets frame h.remote h.localAddr h.repeaterList (hcount.le.trans h.hops) hlen hread

end Patty
