import Patty.FrameReads
import Patty.Wire.Address

/-! # The grammar of an address field

What `patty_ax25_frame_decode_address` accepts, said without its loops: two to ten groups of seven
octets, each with a callsign that is spelled as one, of which the last is marked by its extension bit
and none between the source and it is. The decoder accepts these and no other (`decodeAddress_grammar`). -/

namespace Patty

/-- The group of seven octets with the number `g`. -/
def groupAt (buf : Mem) (g : Nat) : Addr := Addr.ofMem buf (7 * g)

/-- `k` groups from `g` on: the last one has the extension bit, and no other has. -/
structure Groups (buf : Mem) (len g k : Nat) : Prop where
  pos : 0 < k
  fits : 7 * (g + k) ≤ len
  spelled : ∀ i < k, (groupAt buf (g + i)).Spelled
  clear : ∀ i, i + 1 < k → addrOctetLast (groupAt buf (g + i)).ssid = false
  last : addrOctetLast (groupAt buf (g + (k - 1))).ssid = true

/-- An address field of `n` groups. The extension bit of the destination is not looked at. -/
structure AddressField (buf : Mem) (len n : Nat) : Prop where
  least : 2 ≤ n
  most : n ≤ 10
  fits : 7 * n ≤ len
  spelled : ∀ g < n, (groupAt buf g).Spelled
  clear : ∀ g, 1 ≤ g → g + 1 < n → addrOctetLast (groupAt buf g).ssid = false
  last : addrOctetLast (groupAt buf (n - 1)).ssid = true

/-- The frame has the stations of the first `n` groups, octet for octet. -/
structure Frame.Holds (f : Frame) (buf : Mem) (n : Nat) : Prop where
  dest : f.dest = groupAt buf 0
  src : f.src = groupAt buf 1
  hops : f.hops = n - 2
  repeaters : ∀ i : Fin PATTY_AX25_MAX_HOPS, i.val < n - 2 → f.repeaters i = groupAt buf (2 + i)
  cr : f.cr = crOf (groupAt buf 0).ssid (groupAt buf 1).ssid

variable {buf : Mem} {len g k n : Nat} {a : Addr} {frame : Frame}

/-! ## Stations and groups -/

theorem decodeStation_iff : decodeStation buf (7 * g) len = some a ↔
    7 * (g + 1) ≤ len ∧ (groupAt buf g).Spelled ∧ groupAt buf g = a := by
  have hcall : decodeCallsign (buf.read (7 * g) PATTY_AX25_CALLSTRLEN) false ↔ (groupAt buf g).Spelled :=
    (groupAt buf g).wellFormed_iff
  rw [decodeStation, ← hcall]
  split
  · rename_i hshort
    simp only [reduceCtorEq, false_iff, not_and]
    intro hle
    omega
  · rename_i hfits
    have hle : 7 * (g + 1) ≤ len := by omega
    split
    · rename_i hc
      simp [hle, hc, groupAt]
    · rename_i hc
      simp [hc]

theorem Groups.one (hfits : 7 * (g + 1) ≤ len) (hspelled : (groupAt buf g).Spelled)
    (hlast : addrOctetLast (groupAt buf g).ssid = true) : Groups buf len g 1 where
  pos := Nat.one_pos
  fits := hfits
  spelled i hi := by
    obtain rfl : i = 0 := by omega
    exact hspelled
  clear i hi := by omega
  last := hlast

theorem Groups.cons (hspelled : (groupAt buf g).Spelled)
    (hclear : addrOctetLast (groupAt buf g).ssid = false) (h : Groups buf len (g + 1) k) :
    Groups buf len g (k + 1) where
  pos := Nat.succ_pos k
  fits := by
    have := h.fits
    omega
  spelled i hi := by
    cases i with
    | zero => exact hspelled
    | succ i =>
      rw [show g + (i + 1) = g + 1 + i by omega]
      exact h.spelled i (by omega)
  clear i hi := by
    cases i with
    | zero => exact hclear
    | succ i =>
      rw [show g + (i + 1) = g + 1 + i by omega]
      exact h.clear i (by omega)
  last := by
    have hpos := h.pos
    rw [show g + (k + 1 - 1) = g + 1 + (k - 1) by omega]
    exact h.last

/-- The first of the groups is a station. -/
theorem Groups.head (h : Groups buf len g k) : decodeStation buf (7 * g) len = some (groupAt buf g) := by
  have hpos := h.pos
  have hfits := h.fits
  exact decodeStation_iff.mpr ⟨by omega, h.spelled 0 hpos, rfl⟩

/-- After a group without the extension bit there are others. -/
theorem Groups.tail (h : Groups buf len g (k + 1)) (hclear : addrOctetLast (groupAt buf g).ssid = false) :
    Groups buf len (g + 1) k := by
  have hpos : 0 < k := by
    rcases Nat.eq_zero_or_pos k with rfl | hpos
    · have hlast : addrOctetLast (groupAt buf g).ssid = true := h.last
      rw [hclear] at hlast
      cases hlast
    · exact hpos
  refine ⟨hpos, ?_, fun i hi => ?_, fun i hi => ?_, ?_⟩
  · have := h.fits
    omega
  · rw [show g + 1 + i = g + (i + 1) by omega]
    exact h.spelled (i + 1) (by omega)
  · rw [show g + 1 + i = g + (i + 1) by omega]
    exact h.clear (i + 1) (by omega)
  · rw [show g + 1 + (k - 1) = g + (k + 1 - 1) by omega]
    exact h.last

/-- A group with the extension bit is the last one. -/
theorem Groups.eq_one (h : Groups buf len g k) (hlast : addrOctetLast (groupAt buf g).ssid = true) :
    k = 1 := by
  have hpos := h.pos
  by_contra hne
  have hclear : addrOctetLast (groupAt buf g).ssid = false := h.clear 0 (by omega)
  rw [hlast] at hclear
  cases hclear

theorem addressField_iff : AddressField buf len n ↔
    n ≤ 10 ∧ (groupAt buf 0).Spelled ∧ ∃ k, n = 1 + k ∧ Groups buf len 1 k := by
  constructor
  · intro h
    have hleast := h.least
    have hfits := h.fits
    refine ⟨h.most, h.spelled 0 (by omega), n - 1, by omega, by omega, by omega, fun i hi => ?_,
      fun i hi => ?_, ?_⟩
    · exact h.spelled (1 + i) (by omega)
    · exact h.clear (1 + i) (by omega) (by omega)
    · rw [show 1 + (n - 1 - 1) = n - 1 by omega]
      exact h.last
  · rintro ⟨hmost, hdest, k, rfl, h⟩
    have hpos := h.pos
    refine ⟨by omega, hmost, h.fits, fun g hg => ?_, fun g hg hg' => ?_, ?_⟩
    · cases g with
      | zero => exact hdest
      | succ g =>
        rw [Nat.add_comm g 1]
        exact h.spelled g (by omega)
    · obtain ⟨i, rfl⟩ := Nat.exists_eq_add_of_le hg
      exact h.clear i (by omega)
    · rw [show 1 + k - 1 = 1 + (k - 1) by omega]
      exact h.last

/-! ## The repeaters -/

/-- What decoding `k` groups from `g` on as repeaters has set. -/
structure TakesGroups (frame f : Frame) (buf : Mem) (g k : Nat) : Prop where
  dest : f.dest = frame.dest
  src : f.src = frame.src
  cr : f.cr = frame.cr
  hops : f.hops = frame.hops + k
  before : ∀ i : Fin PATTY_AX25_MAX_HOPS, i.val < frame.hops → f.repeaters i = frame.repeaters i
  taken : ∀ i : Fin PATTY_AX25_MAX_HOPS, frame.hops ≤ i.val → i.val < frame.hops + k →
    f.repeaters i = groupAt buf (g + (i - frame.hops))

/-- By induction on the rounds that are left. -/
theorem decodeHops_groups (h : Groups buf len g k) (hk : k ≤ n) : ∃ f,
    decodeHops buf len n frame (7 * g) = some (f, 7 * (g + k)) ∧ TakesGroups frame f buf g k := by
  induction n generalizing frame g k with
  | zero =>
    have hpos := h.pos
    omega
  | succ n ih =>
    rw [decodeHops, h.head]
    dsimp only
    cases hbit : addrOctetLast (groupAt buf g).ssid with
    | true =>
      obtain rfl := h.eq_one hbit
      rw [if_pos rfl]
      refine ⟨_, rfl, rfl, rfl, rfl, rfl, fun i hi => ?_, fun i hi hi' => ?_⟩
      · exact if_neg (by omega)
      · have heq : i.val = frame.hops := by omega
        rw [heq, Nat.sub_self]
        exact if_pos heq
    | false =>
      obtain ⟨k, rfl⟩ : ∃ m, k = m + 1 := ⟨k - 1, by have := h.pos; omega⟩
      rw [if_neg Bool.false_ne_true]
      obtain ⟨f, hf, htakes⟩ := @ih (g + 1) k { frame with
        repeaters := fun i => if i.val = frame.hops then groupAt buf g else frame.repeaters i
        hops := frame.hops + 1 } (h.tail hbit) (by omega)
      refine ⟨f, ?_, htakes.dest, htakes.src, htakes.cr, ?_, fun i hi => ?_, fun i hi hi' => ?_⟩
      · rw [show 7 * g + 7 = 7 * (g + 1) by omega, hf, show g + 1 + k = g + (k + 1) by omega]
      · rw [htakes.hops]
        dsimp only
        omega
      · rw [htakes.before i (by dsimp only; omega)]
        exact if_neg (by omega)
      · by_cases heq : i.val = frame.hops
        · rw [htakes.before i (by dsimp only; omega), heq, Nat.sub_self]
          exact if_pos heq
        · rw [htakes.taken i (by dsimp only; omega) (by dsimp only; omega)]
          dsimp only
          rw [show g + 1 + (i.val - (frame.hops + 1)) = g + (i.val - frame.hops) by omega]

theorem exists_groups_of_decodeHops {r : Frame × Nat} (h : decodeHops buf len n frame (7 * g) = some r) :
    ∃ k ≤ n, Groups buf len g k := by
  induction n generalizing frame g with
  | zero => cases h
  | succ n ih =>
    rw [decodeHops] at h
    cases hstation : decodeStation buf (7 * g) len with
    | none =>
      rw [hstation] at h
      cases h
    | some a =>
      rw [hstation] at h
      obtain ⟨hfits, hspelled, rfl⟩ := decodeStation_iff.mp hstation
      dsimp only at h
      cases hbit : addrOctetLast (groupAt buf g).ssid with
      | true => exact ⟨1, by omega, .one hfits hspelled hbit⟩
      | false =>
        rw [hbit, if_neg Bool.false_ne_true, show 7 * g + 7 = 7 * (g + 1) by omega] at h
        obtain ⟨k, hk, hgroups⟩ := ih h
        exact ⟨k + 1, by omega, .cons hspelled hbit hgroups⟩

/-! ## The address field -/

/-- After destination and source, whose C bits give the sense of the frame. -/
theorem decodeAddress_stations (frame : Frame) (hdest : decodeStation buf 0 len = some (groupAt buf 0))
    (hsrc : decodeStation buf 7 len = some (groupAt buf 1)) :
    ∃ f, f.Holds buf 2 ∧ decodeAddress frame buf len =
      if addrOctetLast (groupAt buf 1).ssid then some (f, 14)
      else decodeHops buf len PATTY_AX25_MAX_HOPS f 14 := by
  rw [decodeAddress, hdest, hsrc]
  dsimp only
  refine ⟨_, ?_, rfl⟩
  by_cases hc : (addrSsidC (groupAt buf 0).ssid != addrSsidC (groupAt buf 1).ssid) = true
  · rw [if_pos hc]
    exact ⟨rfl, rfl, rfl, fun i hi => absurd hi (Nat.not_lt_zero _), (if_pos hc).symm⟩
  · rw [if_neg hc]
    exact ⟨rfl, rfl, rfl, fun i hi => absurd hi (Nat.not_lt_zero _), (if_neg hc).symm⟩

theorem Frame.Holds.takes {f f' : Frame} (h : f.Holds buf 2) (htakes : TakesGroups f f' buf 2 k) :
    f'.Holds buf (2 + k) := by
  have hzero : f.hops = 0 := h.hops
  refine ⟨htakes.dest.trans h.dest, htakes.src.trans h.src, ?_, fun i hi => ?_, htakes.cr.trans h.cr⟩
  · rw [htakes.hops, hzero]
    omega
  · rw [htakes.taken i (by omega) (by omega), hzero, Nat.sub_zero]

theorem AddressField.decodeAddress (h : AddressField buf len n) (frame : Frame) :
    ∃ f, decodeAddress frame buf len = some (f, 7 * n) ∧ f.Holds buf n := by
  obtain ⟨hmost, hspelled, k, rfl, hgroups⟩ := addressField_iff.mp h
  have hfits := hgroups.fits
  have hdest : decodeStation buf 0 len = some (groupAt buf 0) :=
    decodeStation_iff.mpr ⟨by omega, hspelled, rfl⟩
  obtain ⟨f, hf, hdec⟩ := decodeAddress_stations frame hdest hgroups.head
  rw [hdec]
  cases hbit : addrOctetLast (groupAt buf 1).ssid with
  | true =>
    obtain rfl := hgroups.eq_one hbit
    exact ⟨f, rfl, hf⟩
  | false =>
    obtain ⟨k, rfl⟩ : ∃ m, k = m + 1 := ⟨k - 1, by have := hgroups.pos; omega⟩
    obtain ⟨f', hf', htakes⟩ := @decodeHops_groups buf len 2 k 8 f (hgroups.tail hbit) (by omega)
    rw [show 1 + (k + 1) = 2 + k by omega]
    exact ⟨f', hf', hf.takes htakes⟩

theorem addressField_of_decodeAddress {r : Frame × Nat} (h : decodeAddress frame buf len = some r) :
    ∃ n, AddressField buf len n := by
  cases hdest : decodeStation buf 0 len with
  | none =>
    rw [decodeAddress, hdest] at h
    cases h
  | some dest =>
    obtain ⟨-, hspelled, rfl⟩ := (decodeStation_iff (g := 0)).mp hdest
    cases hsrc : decodeStation buf 7 len with
    | none =>
      rw [decodeAddress, hdest, hsrc] at h
      cases h
    | some src =>
      obtain ⟨hfits, hspelled', rfl⟩ := (decodeStation_iff (g := 1)).mp hsrc
      obtain ⟨f, -, hdec⟩ := decodeAddress_stations frame hdest hsrc
      rw [hdec] at h
      cases hbit : addrOctetLast (groupAt buf 1).ssid with
      | true => exact ⟨2, addressField_iff.mpr ⟨by omega, hspelled, 1, rfl, .one hfits hspelled' hbit⟩⟩
      | false =>
        rw [hbit, if_neg Bool.false_ne_true] at h
        obtain ⟨k, hk, hgroups⟩ := exists_groups_of_decodeHops (g := 2) h
        have hk8 : k ≤ 8 := hk
        exact ⟨1 + (k + 1),
          addressField_iff.mpr ⟨by omega, hspelled, k + 1, rfl, .cons hspelled' hbit hgroups⟩⟩

/-- The decoder accepts the address fields and no other, takes the groups over as they are, and reads
nothing after the octets it was given. -/
theorem decodeAddress_grammar (frame : Frame) (buf : Mem) (len : Nat) :
    ((decodeAddress frame buf len).isSome ↔ ∃ n, AddressField buf len n) ∧
    (∀ n, AddressField buf len n →
      ∃ f, decodeAddress frame buf len = some (f, 7 * n) ∧ f.Holds buf n) ∧
    decodeAddressIn frame buf len = .ok (decodeAddress frame buf len) := by
  refine ⟨⟨fun h => ?_, fun ⟨n, h⟩ => ?_⟩, fun n h => h.decodeAddress frame, decodeAddressIn_eq⟩
  · obtain ⟨r, hr⟩ := Option.isSome_iff_exists.mp h
    exact addressField_of_decodeAddress hr
  · obtain ⟨f, hf, -⟩ := h.decodeAddress frame
    rw [hf]
    rfl

end Patty
