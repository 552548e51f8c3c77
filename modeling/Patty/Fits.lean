import Patty.Place
import Patty.Wire.Codec

/-! # The transmit buffer (`sock.c`)

`tx_buf` has `tx_bufsz` bytes: the overhead of a frame, and the longest information field. `toobig` admits as
much for the information field alone, and `encode_address` looks at the address field alone; neither sees the
frame. -/

namespace Patty

open Prog

namespace Sock

variable {s : Sock} {cr : FrameCr} {control infolen n : Nat} {proto : UInt8} {info : Bool} {payload : Bytes}

/-- How many octets `frame_send` places in `tx_buf`, or `none` if it returns -1 before it stores any. `info`
says that the pointer to the information field is not NULL. -/
def placed (s : Sock) (control : Nat) (info : Bool) (infolen : Nat) : Option Nat :=
  if s.iface.isNone then none
  else if !s.remote.isSet then none
  else if s.toobig infolen then none
  else if s.txBufsz < (2 + s.hops) * 7 then none
  else
    let offset := (2 + s.hops) * 7 + 1
    let offset := if s.mode = .sabme && !controlU control then offset + 1 else offset
    if info && infolen != 0 then
      let offset := if Patty.controlI control then offset + 1 else offset
      some (offset + infolen)
    else some offset

/-- The octets that no check accounts for: the control field, and with a payload the PID and the payload. -/
def unchecked (s : Sock) (control : Nat) (info : Bool) (infolen : Nat) : Nat :=
  (if s.mode = .sabme && !controlU control then 2 else 1) +
    if info && infolen != 0 then (if Patty.controlI control then 1 else 0) + infolen else 0

/-- A call of `frame_send` that passes its checks and leaves too little room behind the address field. -/
structure Overlong (s : Sock) (control : Nat) (info : Bool) (infolen : Nat) : Prop where
  iface : s.iface.isSome
  remote : s.remote.isSet
  admitted : infolen ≤ s.txBufsz
  addresses : (2 + s.hops) * 7 ≤ s.txBufsz
  beyond : s.txBufsz - (2 + s.hops) * 7 < s.unchecked control info infolen

/-- What is placed once the checks have passed. -/
theorem placed_passes (hiface : s.iface.isSome) (hremote : s.remote.isSet) (hadmitted : infolen ≤ s.txBufsz)
    (haddresses : (2 + s.hops) * 7 ≤ s.txBufsz) :
    s.placed control info infolen = some ((2 + s.hops) * 7 + s.unchecked control info infolen) := by
  have hinfo : ¬s.toobig infolen := by simpa [toobig, txBufsz] using hadmitted
  unfold placed unchecked
  rw [if_neg (by simpa [Option.isSome_iff_ne_none] using hiface), if_neg (by simpa using hremote), if_neg hinfo,
    if_neg (by omega)]
  dsimp only
  split_ifs <;> simp only [Option.some.injEq] <;> omega

/-- What is placed has passed the checks. -/
theorem placed_checks (h : s.placed control info infolen = some n) : s.iface.isSome ∧ s.remote.isSet ∧
    infolen ≤ s.txBufsz ∧ (2 + s.hops) * 7 ≤ s.txBufsz := by
  unfold placed at h
  split at h
  · cases h
  rename_i hiface
  split at h
  · cases h
  rename_i hremote
  split at h
  · cases h
  rename_i hadmitted
  split at h
  · cases h
  rename_i haddresses
  refine ⟨?_, by simpa using hremote, by simpa [toobig, txBufsz] using hadmitted, by omega⟩
  simpa [Option.isSome_iff_ne_none] using hiface

/-- A call exceeds the buffer exactly if it is overlong. -/
theorem placed_fits_iff :
    (∀ n, s.placed control info infolen = some n → n ≤ s.txBufsz) ↔ ¬s.Overlong control info infolen := by
  constructor
  · intro hfits hbeyond
    have hle := hfits _ (placed_passes hbeyond.iface hbeyond.remote hbeyond.admitted hbeyond.addresses)
    have := hbeyond.beyond
    omega
  · intro hnot n hn
    obtain ⟨hiface, hremote, hadmitted, haddresses⟩ := placed_checks hn
    rw [placed_passes hiface hremote hadmitted haddresses] at hn
    cases hn
    by_contra hgt
    exact hnot ⟨hiface, hremote, hadmitted, haddresses, by omega⟩

theorem length_controlOctets :
    (s.controlOctets control).length = if s.mode = .sabme && !controlU control then 2 else 1 := by
  rw [controlOctets]
  split <;> rfl

/-- The octets of a frame are as many as are placed. -/
theorem length_frame (hhops : s.hops ≤ PATTY_AX25_MAX_HOPS) :
    (s.frameHeader cr control proto (!payload.isEmpty) ++ payload).length =
      (2 + s.hops) * 7 + s.unchecked control true payload.length := by
  rw [frameHeader_eq, unchecked]
  simp only [List.length_append, length_addressField hhops, length_controlOctets, Bool.true_and]
  cases payload with
  | nil =>
    simp
    omega
  | cons b payload =>
    have hpid : (if Patty.controlI control then [proto] else []).length =
        if Patty.controlI control then 1 else 0 := by
      split <;> rfl
    simp only [List.isEmpty_cons, Bool.not_false, Bool.true_and, hpid, List.length_cons, bne_iff_ne, ne_eq,
      Nat.add_eq_zero_iff, one_ne_zero, and_false, not_false_eq_true, if_true]
    omega

/-- `frame_send` stores outside its buffer exactly in an overlong call. -/
theorem encodeFrame_overruns (hhops : s.hops ≤ PATTY_AX25_MAX_HOPS) (htx : s.txBuf = some s.txBufsz) :
    s.encodeFrame cr control proto payload = .error .overrun ↔ s.Overlong control true payload.length := by
  constructor
  · intro h
    unfold encodeFrame at h
    split at h
    · cases h
    rename_i hiface
    split at h
    · cases h
    rename_i hremote
    split at h
    · cases h
    rename_i hadmitted
    split at h
    · cases h
    rename_i haddresses
    rw [htx] at h
    dsimp only at h
    rw [length_frame hhops] at h
    split at h
    · rename_i hlt
      exact ⟨by simpa [Option.isSome_iff_ne_none] using hiface, by simpa using hremote,
        by simpa [toobig, txBufsz] using hadmitted, by omega, by omega⟩
    · cases h
  · intro h
    have hinfo : ¬s.toobig payload.length := by simpa [toobig, txBufsz] using h.admitted
    have haddresses := h.addresses
    have hbeyond := h.beyond
    unfold encodeFrame
    rw [if_neg (by simpa [Option.isSome_iff_ne_none] using h.iface), if_neg (by simpa using h.remote), if_neg hinfo,
      if_neg (by omega), htx]
    dsimp only
    rw [length_frame hhops, if_pos (by omega)]

/-- With sizes that do not wrap: what stands in the way of an information field is the path. -/
theorem overlong_iff (hsize : PATTY_AX25_FRAME_OVERHEAD + s.nMaxlenTx < 2 ^ 64)
    (hhops : s.hops ≤ PATTY_AX25_MAX_HOPS) : s.Overlong control info infolen ↔ s.iface.isSome ∧ s.remote.isSet ∧
      infolen ≤ s.nMaxlenTx + 73 ∧ s.nMaxlenTx + 59 < 7 * s.hops + s.unchecked control info infolen := by
  have hmax : s.hops ≤ 8 := hhops
  have hbuf : s.txBufsz = s.nMaxlenTx + 73 := (sizeAdd_of_lt hsize).trans (Nat.add_comm _ _)
  constructor
  · rintro ⟨hiface, hremote, hadmitted, haddresses, hbeyond⟩
    rw [hbuf] at hadmitted haddresses hbeyond
    exact ⟨hiface, hremote, hadmitted, by omega⟩
  · rintro ⟨hiface, hremote, hadmitted, hbeyond⟩
    refine ⟨hiface, hremote, ?_, ?_, ?_⟩ <;> rw [hbuf] <;> omega

/-- An information field of the length that was agreed on fits, however long the path. -/
theorem not_overlong (hsize : PATTY_AX25_FRAME_OVERHEAD + s.nMaxlenTx < 2 ^ 64)
    (hhops : s.hops ≤ PATTY_AX25_MAX_HOPS) (hlen : infolen ≤ s.nMaxlenTx) :
    ¬s.Overlong control info infolen := by
  rw [overlong_iff hsize hhops]
  rintro ⟨-, -, -, hbeyond⟩
  have hmax : s.hops ≤ 8 := hhops
  have hle : s.unchecked control info infolen ≤ 3 + infolen := by
    unfold unchecked
    split_ifs <;> omega
  omega

/-- What `frame_send` places fits in the buffer exactly if the call is not overlong, and then alone it stores inside
of it. -/
theorem frameSend_fits_iff (s : Sock) (hhops : s.hops ≤ PATTY_AX25_MAX_HOPS) (htx : s.txBuf = some s.txBufsz)
    (control : Nat) :
    (∀ info infolen, (∀ n, s.placed control info infolen = some n → n ≤ s.txBufsz) ↔
      ¬s.Overlong control info infolen) ∧
    ∀ cr proto payload, s.encodeFrame cr control proto payload ≠ .error .overrun ↔
      ¬s.Overlong control true payload.length :=
  ⟨fun _ _ => placed_fits_iff, fun _ _ _ => not_congr (encodeFrame_overruns hhops htx)⟩

/-- A socket whose client has asked for an MTU of one octet, on its way over eight repeaters. -/
def eightHops : Sock :=
  { zero with
    iface := some 0, remote := ⟨fun _ => 0x82, 0x60⟩, hops := 8, nMaxlenTx := 1, txBuf := some 74, nAck := 3000
    nRetry := 10 }

/-- The XID for it has 27 octets of information, and a frame of 98. -/
theorem eightHops_overlong : (encodeXid (M.xidParams eightHops) 256).map (·.length) = some 27 ∧
    eightHops.Overlong (controlOfU .xid 0) true 27 ∧
    eightHops.placed (controlOfU .xid 0) true 27 = some 98 :=
  ⟨by decide, ⟨by decide, by decide, by decide, by decide, by decide⟩, by decide⟩

theorem frameSend_fits_eightHops :
    ¬(∀ n, eightHops.placed (controlOfU .xid 0) true 27 = some n → n ≤ eightHops.txBufsz) :=
  fun h => ((frameSend_fits_iff eightHops (by decide) rfl _).1 true 27).mp h eightHops_overlong.2.1

theorem not_frameSend_fits : ¬∀ (s : Sock) (control : Nat) (info : Bool) (infolen : Nat),
    s.hops ≤ PATTY_AX25_MAX_HOPS → s.txBuf = some s.txBufsz →
      ∀ n, s.placed control info infolen = some n → n ≤ s.txBufsz := by
  intro h
  have hle := h eightHops (controlOfU .xid 0) true 27 (by decide) rfl 98 eightHops_overlong.2.2
  exact absurd hle (by decide)

end Sock

namespace M

variable {w : World} {s : Sock}

/-- The buffer has the size for the length that the socket sends. -/
theorem initBufs_sized :
    wp (initBufs s) (fun r _ => r.1 → r.2.txBuf = some r.2.txBufsz) (fun _ => True) w := by
  rw [initBufs, wp_bind]
  refine wp_intro fun ok₁ w₁ _ => ?_
  rw [wp_ite]
  refine ⟨fun _ => ?_, fun _ h => absurd h Bool.false_ne_true⟩
  rw [wp_bind]
  refine wp_intro fun ok₂ w₂ _ => ?_
  rw [wp_ite]
  refine ⟨fun _ => ?_, fun _ h => absurd h Bool.false_ne_true⟩
  rw [wp_bind]
  refine wp_intro fun ok₃ w₃ _ => ?_
  rw [wp_ite]
  refine ⟨fun _ => ?_, fun _ h => absurd h Bool.false_ne_true⟩
  rw [wp_bind]
  refine wp_intro fun m w₄ _ => ?_
  rw [wp_bind, wp_lift]
  refine ⟨fun s' h _ => ?_, fun _ _ => trivial⟩
  obtain ⟨slots, rfl⟩ := Sock.clearSlots_eq h
  rfl

end M

end Patty
