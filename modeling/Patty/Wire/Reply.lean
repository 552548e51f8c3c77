import Patty.Wire.Codec
import Patty.Wire.Grammar

/-! # Replies on the wire

The reply to a frame goes back the way the frame came: its stations are those of the frame, source and
destination swapped and the repeaters reversed (`encodeReplyTo_returns`). -/

namespace Patty

/-- What the answer to a frame is. -/
def FrameCr.swap : FrameCr → FrameCr
  | .command => .response
  | .response => .command
  | .old => .old

/-- The repeaters of the way back. -/
def Frame.wayBack (f : Frame) : List Addr := (hopList f.repeaters f.hops).reverse

variable {buf : Mem} {len n size : Nat} {frame₀ frame f : Frame} {dest src : Addr} {hops : List Addr}
  {cr : FrameCr} {repeaters : Fin PATTY_AX25_MAX_HOPS → Addr}

/-! ## The address field of a reply -/

theorem hopList_reversed (h : n ≤ PATTY_AX25_MAX_HOPS) :
    hopList (fun i => repeaters (Fin.ofNat _ (n - 1 - i.val))) n = (hopList repeaters n).reverse := by
  rw [hopList_eq h, hopList_eq h]
  apply List.ext_getElem (by simp)
  intro i hi _
  have hin : i < n := by simpa using hi
  have hval : (Fin.ofNat PATTY_AX25_MAX_HOPS i).val = i := Nat.mod_eq_of_lt (by omega)
  simp only [List.getElem_map, List.getElem_range, List.getElem_reverse, List.length_map,
    List.length_range, hval]

theorem encodeAddressReply_eq (h : frame.hops ≤ PATTY_AX25_MAX_HOPS) :
    encodeAddressReply frame = addressOctets frame.src frame.dest frame.wayBack frame.cr.swap := by
  rw [addressOctets, Frame.wayBack, ← hopList_reversed h, stations_copied]
  unfold encodeAddressReply
  cases frame.cr <;> rfl

/-- A frame that was accepted has stations that can be sent back. -/
theorem stationsFit_wayBack (h : decodeAddress frame₀ buf len = some (frame, n)) :
    frame.hops ≤ PATTY_AX25_MAX_HOPS ∧ StationsFit frame.src frame.dest frame.wayBack := by
  obtain ⟨k, hfield⟩ := addressField_of_decodeAddress h
  obtain ⟨f, hf, hholds⟩ := hfield.decodeAddress frame₀
  cases h.symm.trans hf
  have hleast := hfield.least
  have hmost := hfield.most
  have hcount : frame.hops ≤ 8 := by
    rw [hholds.hops]
    omega
  have hwf {g : Nat} (hg : g < k) : (groupAt buf g).WellFormed :=
    (Addr.wellFormed_iff _).mpr (hfield.spelled g hg)
  refine ⟨hcount, ?_, ?_, ?_, fun a ha => ?_⟩
  · rw [hholds.src]
    exact hwf (by omega)
  · rw [hholds.dest]
    exact hwf (by omega)
  · rw [Frame.wayBack, List.length_reverse, length_hopList hcount]
    exact hcount
  · refine forall_hopList (p := Addr.WellFormed) (fun i hi => ?_) a (List.mem_reverse.mp ha)
    rw [hholds.hops] at hi
    rw [hholds.repeaters i hi]
    exact hwf (by omega)

/-- The control field leaves the stations. -/
theorem decodeControl_same {format : FrameFormat} {off next : Nat}
    (h : decodeControl frame format buf off len = some (f, next)) : SameStations frame f := by
  obtain ⟨f₀, hf₀, hclass⟩ := classedAs frame (readControl format buf off).1 format
  obtain ⟨hdest, hsrc, hhops, hrepeaters, hcr⟩ := hclass.stations
  rw [decodeControl_eq, hf₀] at h
  dsimp only at h
  split at h
  all_goals
    cases h
    exact ⟨hdest, hsrc, hhops, hrepeaters, hcr⟩

/-- The stations of a decoded frame can be sent back. -/
theorem stationsFit_of_decodeFrame {format : FrameFormat}
    (h : decodeFrame frame₀ format buf len = some (frame, n)) :
    frame.hops ≤ PATTY_AX25_MAX_HOPS ∧ StationsFit frame.src frame.dest frame.wayBack := by
  unfold decodeFrame at h
  cases haddr : decodeAddress frame₀ buf len with
  | none =>
    rw [haddr] at h
    cases h
  | some r =>
    obtain ⟨f₀, off⟩ := r
    rw [haddr] at h
    obtain ⟨hhops, hfit⟩ := stationsFit_wayBack haddr
    have hsame : SameStations f₀ frame := decodeControl_same h
    have hback : frame.wayBack = f₀.wayBack := by
      rw [Frame.wayBack, Frame.wayBack, hsame.hops, hsame.repeaters]
    rw [hsame.hops, hsame.dest, hsame.src, hback]
    exact ⟨hhops, hfit⟩

/-! ## The reply -/

/-- A buffer that is large enough for the reply. -/
def replyRoom (frame : Frame) (control : Nat) (info : Bytes) : Nat :=
  7 * (2 + frame.hops) + 1 + if controlUI control then 1 + info.length else 0

/-- What a reply has after its address field. -/
def replyTail (control : Nat) (proto : UInt8) (info : Bytes) : Bytes :=
  if controlUI control then proto :: info else []

theorem controlI_of_controlU {control : Nat} (h : controlU control) : controlI control = false :=
  Bool.eq_false_iff.mpr fun hI => not_controlU (.inl hI) h

/-- A control field of an U frame is one octet in both formats. -/
theorem encodeControl_controlU {control : Nat} (format : FrameFormat) (h : controlU control) :
    encodeControl format control = [UInt8.ofNat control] := by
  have hlow : UInt8.ofNat (control &&& 0x00ff) = UInt8.ofNat control := by
    apply UInt8.toNat_inj.mp
    rw [UInt8.toNat_ofNat', UInt8.toNat_ofNat', show (0x00ff : Nat) = 2 ^ 8 - 1 from rfl,
      Nat.and_two_pow_sub_one_eq_mod, Nat.mod_mod]
  cases format with
  | normal => rfl
  | extended =>
    unfold encodeControl
    dsimp only
    rw [if_pos h, hlow]

/-- A reply that fits is written, as a frame of its own. -/
theorem encodeReplyTo_wire {control : Nat} (format : FrameFormat) (proto : UInt8) (info : Bytes)
    (hhops : frame.hops ≤ PATTY_AX25_MAX_HOPS) (hU : controlU control)
    (hroom : replyRoom frame control info ≤ size) :
    encodeReplyTo frame control proto info size = .ok (some (wireOctets frame.src frame.dest frame.wayBack
      frame.cr.swap format control (replyTail control proto info))) := by
  have hlen : (addressOctets frame.src frame.dest frame.wayBack frame.cr.swap).length =
      7 * (2 + frame.hops) := by
    rw [length_addressOctets, Frame.wayBack, List.length_reverse, length_hopList hhops]
  unfold replyRoom at hroom
  have hfits : ¬size < (2 + frame.hops) * 7 + 1 := by omega
  rw [encodeReplyTo, if_neg hfits, encodeAddressReply_eq hhops, wireOctets,
    encodeControl_controlU format hU, replyTail]
  dsimp only
  rw [controlI_of_controlU hU, Bool.false_or]
  cases hui : controlUI control with
  | false => rfl
  | true =>
    rw [hui, if_pos rfl] at hroom
    rw [if_pos rfl, if_pos rfl, if_neg]
    · simp only [List.append_assoc, List.singleton_append]
    · rw [List.length_append, hlen, List.length_singleton]
      omega

/-- A reply goes back the way the frame came. -/
theorem encodeReplyTo_returns (frame₀ frame : Frame) (buf : Mem) (len n control : Nat) (proto : UInt8)
    (info : Bytes) (size : Nat) (h : decodeAddress frame₀ buf len = some (frame, n))
    (hU : controlU control) (hroom : replyRoom frame control info ≤ size) :
    ∃ bs, encodeReplyTo frame control proto info size = .ok (some bs) ∧ ∀ (frame₁ : Frame) (rest : Mem),
      ∃ f, decodeAddress frame₁ (.ofBytes bs rest) bs.length = some (f, 7 * (2 + frame.hops)) ∧
        f.hops = frame.hops ∧
        f.From frame.src frame.dest (hopList frame.repeaters frame.hops).reverse frame.cr.swap := by
  obtain ⟨hhops, hfit⟩ := stationsFit_wayBack h
  refine ⟨_, encodeReplyTo_wire .normal proto info hhops hU hroom, fun frame₁ rest => ?_⟩
  have hcount : frame.wayBack.length = frame.hops := by
    rw [Frame.wayBack, List.length_reverse, length_hopList hhops]
  obtain ⟨f, -, hf, hfrom, -⟩ := decode_header frame₁ rest hfit frame.cr.swap .normal control
    (replyTail control proto info) _ rfl
  rw [hcount] at hf
  exact ⟨f, hf, hfrom.count.trans hcount, hfrom⟩

/-- An address field with a repeater. -/
def digipeatedAddress : Bytes :=
  List.replicate 6 0x82 ++ [0xe0] ++ List.replicate 6 0x84 ++ [0x60] ++ List.replicate 6 0x86 ++ [0x61]

/-- Some frame is read from it, with these stations. -/
theorem digipeated_accepted : ∃ frame, decodeAddress .blank (.ofBytes digipeatedAddress fun _ => 0) 21 =
    some (frame, 21) ∧ frame.hops = 1 ∧ frame.cr = .command := ⟨_, rfl, rfl, rfl⟩

/-- The reply to a command that was passed on by a repeater. -/
theorem encodeReplyTo_returns_digipeated : ∃ frame,
    decodeAddress .blank (.ofBytes digipeatedAddress fun _ => 0) 21 = some (frame, 21) ∧
      frame.hops = 1 ∧ ∃ bs, encodeReplyTo frame 0x73 0 [] 64 = .ok (some bs) ∧
        ∀ (frame₁ : Frame) (rest : Mem),
          ∃ f, decodeAddress frame₁ (.ofBytes bs rest) bs.length = some (f, 7 * (2 + frame.hops)) ∧
            f.hops = frame.hops ∧
            f.From frame.src frame.dest (hopList frame.repeaters frame.hops).reverse frame.cr.swap := by
  obtain ⟨frame, h, hhops, -⟩ := digipeated_accepted
  have hroom : replyRoom frame 0x73 [] ≤ 64 := by
    rw [replyRoom, hhops]
    decide
  exact ⟨frame, h, hhops,
    encodeReplyTo_returns .blank frame _ 21 21 0x73 0 [] 64 h (by decide) hroom⟩

end Patty
