import Mathlib.Logic.Relation
import Patty.Lib.Checked
import Patty.Server.Frames

/-! # What decoding XID reads

`patty_ax25_frame_decode_xid` goes from group to group and from parameter to parameter by the lengths that
the peer has put into the frame (`XidGroups`, `XidParams`). It rejects every length that runs past the
frame, but it has read the octets by then (`xidBounded_iff`), and it leaves the parameters of its caller
alone where no group has parameters (`xidOfFrame_iff`). -/

namespace Patty

open Relation

/-! ## The decoder with its reads and shifts checked -/

/-- What the decoder may do that C leaves undefined: read behind the frame, or shift by 32 bits or more. -/
inductive XidFault
  | read (i : Nat)
  | shift (count : Nat)

def xidByteIn (data : Mem) (len i : Nat) : Except XidFault UInt8 :=
  if i < len then .ok (data i) else .error (.read i)

def shl32In (b : UInt8) (shift : Nat) : Except XidFault Nat :=
  if shift < 32 then .ok (shl32 b shift) else .error (.shift shift)

def xidValueIn (data : Mem) (len off n : Nat) : Except XidFault Nat :=
  (List.range n).foldlM (fun value i => do
    let b ← xidByteIn data len (off + (n - 1 - i))
    let shifted ← shl32In b (i <<< 3)
    return value ||| shifted) 0

def decodeXidParamsIn (data : Mem) (len stop : Nat) : Nat → Params → Nat → Except XidFault (Params × Nat)
  | 0, params, offset => .ok (params, offset)
  | fuel + 1, params, offset =>
    if offset < stop then do
      let n ← xidByteIn data len (offset + 1)
      let value ← xidValueIn data len (offset + 2) n.toNat
      let id ← xidByteIn data len offset
      decodeXidParamsIn data len stop fuel (saveXidParam params id.toNat value) (offset + 2 + n.toNat)
    else .ok (params, offset)

def decodeXidGroupIn (params : Params) (data : Mem) (offset len : Nat) :
    Except XidFault (Option (Params × Nat)) :=
  if len - offset < 4 then .ok none
  else do
    let high ← xidByteIn data len (offset + 2)
    let low ← xidByteIn data len (offset + 3)
    let stop := offset + 4 + (high.toNat * 256 + low.toNat)
    let format ← xidByteIn data len offset
    let type ← xidByteIn data len (offset + 1)
    if format != PATTY_AX25_FRAME_XID_GROUP_ISO8885 || type != PATTY_AX25_FRAME_XID_GROUP_PARAMS then
      .ok (some (params, stop))
    else do
      let (params, offset) ← decodeXidParamsIn data len stop stop .zero (offset + 4)
      .ok (if offset ≠ stop then none else some (params, offset))

def decodeXidGroupsIn (data : Mem) (len : Nat) : Nat → Params → Nat →
    Except XidFault (Option (Params × Nat))
  | 0, params, offset => .ok (some (params, offset))
  | fuel + 1, params, offset =>
    if offset < len then do
      match ← decodeXidGroupIn params data offset len with
      | none => .ok none
      | some (params, offset) => decodeXidGroupsIn data len fuel params offset
    else .ok (some (params, offset))

/-- `patty_ax25_frame_decode_xid` with every octet it reads checked to be below `len`, and every shift to
be one that C defines. -/
def decodeXidIn (params : Params) (data : Mem) (offset len : Nat) : Except XidFault (Option Params) := do
  match ← decodeXidGroupsIn data len len params offset with
  | none => .ok none
  | some (params, offset) => .ok (if offset ≠ len then none else some params)

/-! ## From length to length -/

/-- Where the parameter at `o` ends by its length. -/
def xidParamEnd (data : Mem) (o : Nat) : Nat := o + 2 + (data (o + 1)).toNat

/-- Where the group at `g` ends by its length. -/
def xidGroupEnd (data : Mem) (g : Nat) : Nat :=
  g + 4 + ((data (g + 2)).toNat * 256 + (data (g + 3)).toNat)

/-- The group at `g` has parameters. -/
def xidHasParams (data : Mem) (g : Nat) : Bool :=
  data g == PATTY_AX25_FRAME_XID_GROUP_ISO8885 && data (g + 1) == PATTY_AX25_FRAME_XID_GROUP_PARAMS

/-- A parameter before `stop` leads to the next. -/
def XidParamStep (data : Mem) (stop o o' : Nat) : Prop := o < stop ∧ o' = xidParamEnd data o

/-- The lengths of parameters lead from one offset to another. -/
abbrev XidParams (data : Mem) (stop : Nat) : Nat → Nat → Prop := ReflTransGen (XidParamStep data stop)

/-- A group with a whole header leads to the next, if its parameters fill it. -/
def XidGroupStep (data : Mem) (len g g' : Nat) : Prop :=
  g + 4 ≤ len ∧ g' = xidGroupEnd data g ∧ (xidHasParams data g →
    XidParams data (xidGroupEnd data g) (g + 4) (xidGroupEnd data g))

/-- The lengths of groups lead from one offset to another. -/
abbrev XidGroups (data : Mem) (len : Nat) : Nat → Nat → Prop := ReflTransGen (XidGroupStep data len)

/-- Decoding comes to a parameter at `o` in the group at `g`. -/
structure XidParamAt (data : Mem) (offset len g o : Nat) : Prop where
  group : XidGroups data len offset g
  header : g + 4 ≤ len
  params : xidHasParams data g
  reached : XidParams data (xidGroupEnd data g) (g + 4) o
  lt : o < xidGroupEnd data g

/-- Decoding ends, stays below `len`, shifts by less than 32 bits, and fails if a group or a parameter
that it comes to runs past `len`. -/
structure XidBounded (data : Mem) (offset len : Nat) : Prop where
  ends : ∀ params fuel, len ≤ fuel →
    decodeXidGroups data len fuel params offset = decodeXidGroups data len len params offset
  endsParams : ∀ params stop o fuel, stop ≤ fuel →
    decodeXidParams data stop fuel params o = decodeXidParams data stop stop params o
  inside : ∀ params, decodeXidIn params data offset len = .ok (decodeXid params data offset len)
  group : ∀ params g, XidGroups data len offset g → g < len → len < g + 4 ∨ len < xidGroupEnd data g →
    decodeXid params data offset len = none
  param : ∀ params g o, XidParamAt data offset len g o → len < xidParamEnd data o →
    decodeXid params data offset len = none

/-- The parameter at `o` lies below `len`, and its value has at most four octets. -/
def XidParamWithin (data : Mem) (len o : Nat) : Prop :=
  xidParamEnd data o ≤ len ∧ (data (o + 1)).toNat ≤ 4

/-- So does each parameter that decoding comes to. -/
def XidWithin (data : Mem) (offset len : Nat) : Prop :=
  ∀ g o, XidParamAt data offset len g o → XidParamWithin data len o

variable {data data' : Mem} {len stop offset o o' g g' m n : Nat} {p q : Params}

/-! ## One value -/

theorem xidByteIn_ok (h : o < len) : xidByteIn data len o = .ok (data o) := if_pos h

theorem xidByteIn_lt {b : UInt8} (h : xidByteIn data len o = .ok b) : o < len ∧ data o = b := by
  unfold xidByteIn at h
  split at h
  · exact ⟨‹_›, Except.ok.inj h⟩
  · cases h

theorem shl32In_ok {b : UInt8} (h : o < 32) : shl32In b o = .ok (shl32 b o) := if_pos h

theorem shl32In_lt {b : UInt8} {v : Nat} (h : shl32In b o = .ok v) : o < 32 := by
  unfold shl32In at h
  split at h
  · assumption
  · cases h

/-- The loop over the octets of a value passes its checks exactly if they lie below `len` and are four at
most. -/
theorem xidValueIn_ok (hend : n = 0 ∨ o + n ≤ len) (hn : n ≤ 4) :
    xidValueIn data len o n = .ok (xidValue data o n) := by
  refine Except.foldlM_ok fun value i hi => ?_
  rw [List.mem_range] at hi
  rw [xidByteIn_ok (by omega), Except.ok_bind, shl32In_ok (by rw [Nat.shiftLeft_eq]; omega)]
  rfl

theorem xidValueIn_forall {v : Nat} (h : xidValueIn data len o n = .ok v) :
    (n = 0 ∨ o + n ≤ len) ∧ n ≤ 4 := by
  have hround : ∀ i ∈ List.range n, o + (n - 1 - i) < len ∧ i <<< 3 < 32 := by
    refine Except.foldlM_forall (fun value i value' hi => ?_) h
    obtain ⟨b, hb, hi⟩ := Except.bind_eq_ok hi
    obtain ⟨shifted, hs, -⟩ := Except.bind_eq_ok hi
    exact ⟨(xidByteIn_lt hb).1, shl32In_lt hs⟩
  cases n with
  | zero => simp
  | succ n =>
    have hfirst := (hround 0 (by simp)).1
    have hlast := (hround n (by simp)).2
    rw [Nat.shiftLeft_eq] at hlast
    omega

/-! ## The parameters of a group -/

theorem lt_xidParamEnd : o + 1 < xidParamEnd data o := by
  unfold xidParamEnd
  omega

theorem decodeXidParams_step (h : o < stop) : decodeXidParams data stop (n + 1) p o =
    decodeXidParams data stop n
      (saveXidParam p (data o).toNat (xidValue data (o + 2) (data (o + 1)).toNat)) (xidParamEnd data o) := by
  rw [decodeXidParams, if_pos h]
  rfl

theorem decodeXidParams_stop (h : stop ≤ o) : decodeXidParams data stop n p o = (p, o) := by
  cases n with
  | zero => rfl
  | succ n => rw [decodeXidParams, if_neg (by omega)]

/-- A round for each octet up to `stop` is enough. -/
theorem decodeXidParams_fuel (hm : stop - o ≤ m) (hn : stop - o ≤ n) :
    decodeXidParams data stop m p o = decodeXidParams data stop n p o := by
  induction m generalizing n p o with
  | zero => rw [decodeXidParams_stop (by omega), decodeXidParams_stop (by omega)]
  | succ m ih =>
    by_cases h : o < stop
    · obtain ⟨n, rfl⟩ : ∃ k, n = k + 1 := ⟨n - 1, by omega⟩
      have hend := @lt_xidParamEnd data o
      rw [decodeXidParams_step h, decodeXidParams_step h]
      exact ih (by omega) (by omega)
    · rw [decodeXidParams_stop (by omega), decodeXidParams_stop (by omega)]

/-- The loop goes where the lengths lead. -/
theorem XidParams.run (h : XidParams data stop o o') (hm : stop - o ≤ m) (p : Params) :
    ∃ q, decodeXidParams data stop m p o = decodeXidParams data stop m q o' := by
  induction h using ReflTransGen.head_induction_on generalizing p with
  | refl => exact ⟨p, rfl⟩
  | @head o₁ o₂ hstep _ ih =>
    obtain ⟨hlt, rfl⟩ := hstep
    have hend := @lt_xidParamEnd data o₁
    obtain ⟨q, hq⟩ := ih (by omega)
      (saveXidParam p (data o₁).toNat (xidValue data (o₁ + 2) (data (o₁ + 1)).toNat))
    obtain ⟨m, rfl⟩ : ∃ k, m = k + 1 := ⟨m - 1, by omega⟩
    refine ⟨q, ?_⟩
    rw [decodeXidParams_step hlt, ← hq]
    exact decodeXidParams_fuel (by omega) (by omega)

theorem decodeXidParams_reaches : XidParams data stop o (decodeXidParams data stop m p o).2 := by
  induction m generalizing p o with
  | zero => exact .refl
  | succ m ih =>
    by_cases h : o < stop
    · rw [decodeXidParams_step h]
      exact .head ⟨h, rfl⟩ ih
    · rw [decodeXidParams_stop (by omega)]

/-- The parameters fill the group exactly if the loop ends at its end. -/
theorem decodeXidParams_eq_stop (hm : stop - o ≤ m) :
    (decodeXidParams data stop m p o).2 = stop ↔ XidParams data stop o stop := by
  constructor
  · intro h
    have hreach := @decodeXidParams_reaches data stop o m p
    rwa [h] at hreach
  · intro h
    obtain ⟨q, hq⟩ := h.run hm p
    rw [hq, decodeXidParams_stop le_rfl]

/-! ### Their reads -/

theorem decodeXidParamsIn_ok (h : ∀ o', XidParams data stop o o' → o' < stop → XidParamWithin data len o') :
    decodeXidParamsIn data len stop m p o = .ok (decodeXidParams data stop m p o) := by
  induction m generalizing p o with
  | zero => rfl
  | succ m ih =>
    by_cases ho : o < stop
    · obtain ⟨hend, hn⟩ := h o .refl ho
      rw [xidParamEnd] at hend
      rw [decodeXidParamsIn, if_pos ho, xidByteIn_ok (by omega), Except.ok_bind,
        xidValueIn_ok (.inr (by omega)) hn, Except.ok_bind, xidByteIn_ok (by omega), Except.ok_bind,
        decodeXidParams_step ho]
      exact ih fun o' ho' => h o' (.head ⟨ho, rfl⟩ ho')
    · rw [decodeXidParamsIn, if_neg ho, decodeXidParams_stop (by omega)]

/-- A round that passes its checks. -/
theorem decodeXidParamsIn_next {r : Params × Nat} (ho : o < stop)
    (h : decodeXidParamsIn data len stop (m + 1) p o = .ok r) : XidParamWithin data len o ∧
      ∃ q, decodeXidParamsIn data len stop m q (xidParamEnd data o) = .ok r := by
  rw [decodeXidParamsIn, if_pos ho] at h
  obtain ⟨n, hn, h⟩ := Except.bind_eq_ok h
  obtain ⟨value, hvalue, h⟩ := Except.bind_eq_ok h
  obtain ⟨id, -, h⟩ := Except.bind_eq_ok h
  obtain ⟨hlt, rfl⟩ := xidByteIn_lt hn
  obtain ⟨hend, hfour⟩ := xidValueIn_forall hvalue
  refine ⟨⟨?_, hfour⟩, _, h⟩
  rw [xidParamEnd]
  omega

theorem decodeXidParamsIn_forall {r : Params × Nat} (hm : stop - o ≤ m)
    (h : decodeXidParamsIn data len stop m p o = .ok r) (ho : XidParams data stop o o') (hlt : o' < stop) :
    XidParamWithin data len o' := by
  induction ho using ReflTransGen.head_induction_on generalizing m p with
  | refl =>
    obtain ⟨m, rfl⟩ : ∃ k, m = k + 1 := ⟨m - 1, by omega⟩
    exact (decodeXidParamsIn_next hlt h).1
  | @head o₁ o₂ hstep _ ih =>
    obtain ⟨hlt₁, rfl⟩ := hstep
    obtain ⟨m, rfl⟩ : ∃ k, m = k + 1 := ⟨m - 1, by omega⟩
    have hend := @lt_xidParamEnd data o₁
    obtain ⟨-, q, hnext⟩ := decodeXidParamsIn_next hlt₁ h
    exact ih (by omega) hnext

/-! ## The groups -/

theorem lt_xidGroupEnd : g + 3 < xidGroupEnd data g := by
  unfold xidGroupEnd
  omega

theorem decodeXidGroup_short (h : len < g + 4) : decodeXidGroup p data g len = none := by
  rw [decodeXidGroup, if_pos (by omega)]

theorem xidHasParams_eq : (data g != PATTY_AX25_FRAME_XID_GROUP_ISO8885 ||
    data (g + 1) != PATTY_AX25_FRAME_XID_GROUP_PARAMS) = !xidHasParams data g := by
  simp only [xidHasParams, Bool.not_and, bne]

/-- A group without parameters is passed over. -/
theorem decodeXidGroup_other (h : g + 4 ≤ len) (hother : ¬xidHasParams data g) :
    decodeXidGroup p data g len = some (p, xidGroupEnd data g) := by
  rw [decodeXidGroup, if_neg (by omega)]
  dsimp only
  rw [xidHasParams_eq, if_pos (by simpa using hother)]
  rfl

/-- A group with parameters starts from zero. -/
theorem decodeXidGroup_params (h : g + 4 ≤ len) (hparams : xidHasParams data g) :
    decodeXidGroup p data g len =
      let r := decodeXidParams data (xidGroupEnd data g) (xidGroupEnd data g) .zero (g + 4)
      if r.2 ≠ xidGroupEnd data g then none else some r := by
  rw [decodeXidGroup, if_neg (by omega)]
  dsimp only
  rw [xidHasParams_eq, if_neg (by simp [hparams])]
  rfl

/-- A group is decoded exactly if it leads to the next. -/
theorem decodeXidGroup_of_step (h : XidGroupStep data len g g') (p : Params) :
    ∃ q, decodeXidGroup p data g len = some (q, g') := by
  obtain ⟨hheader, rfl, hfill⟩ := h
  by_cases hparams : xidHasParams data g
  · have hstop := (decodeXidParams_eq_stop (p := .zero) (Nat.sub_le _ _)).mpr (hfill hparams)
    rw [decodeXidGroup_params hheader hparams]
    dsimp only
    rw [if_neg (not_not.mpr hstop)]
    exact ⟨_, congrArg some (Prod.ext rfl hstop)⟩
  · exact ⟨p, decodeXidGroup_other hheader hparams⟩

theorem decodeXidGroup_step (h : decodeXidGroup p data g len = some (q, g')) : XidGroupStep data len g g' := by
  have hheader : g + 4 ≤ len := by
    by_contra hshort
    rw [decodeXidGroup_short (by omega)] at h
    cases h
  by_cases hparams : xidHasParams data g
  · rw [decodeXidGroup_params hheader hparams] at h
    dsimp only at h
    split at h
    · cases h
    · rename_i hstop
      rw [ne_eq, not_not] at hstop
      obtain rfl : _ = g' := congrArg Prod.snd (Option.some.inj h)
      exact ⟨hheader, hstop, fun _ => (decodeXidParams_eq_stop (Nat.sub_le _ _)).mp hstop⟩
  · rw [decodeXidGroup_other hheader hparams] at h
    cases h
    exact ⟨hheader, rfl, fun hp => absurd hp hparams⟩

theorem XidGroupStep.lt (h : XidGroupStep data len g g') : g < len ∧ g + 3 < g' := by
  obtain ⟨hheader, rfl, -⟩ := h
  exact ⟨by omega, lt_xidGroupEnd⟩

theorem decodeXidGroups_stop (h : len ≤ g) : decodeXidGroups data len n p g = some (p, g) := by
  cases n with
  | zero => rfl
  | succ n => rw [decodeXidGroups, if_neg (by omega)]

theorem decodeXidGroups_none (h : g < len) (hgroup : decodeXidGroup p data g len = none) :
    decodeXidGroups data len (n + 1) p g = none := by
  rw [decodeXidGroups, if_pos h, hgroup]

theorem decodeXidGroups_some (h : g < len) (hgroup : decodeXidGroup p data g len = some (q, g')) :
    decodeXidGroups data len (n + 1) p g = decodeXidGroups data len n q g' := by
  rw [decodeXidGroups, if_pos h, hgroup]

/-- A round for each octet of the frame is enough. -/
theorem decodeXidGroups_fuel (hm : len - g ≤ m) (hn : len - g ≤ n) :
    decodeXidGroups data len m p g = decodeXidGroups data len n p g := by
  induction m generalizing n p g with
  | zero => rw [decodeXidGroups_stop (by omega), decodeXidGroups_stop (by omega)]
  | succ m ih =>
    by_cases h : g < len
    · obtain ⟨n, rfl⟩ : ∃ k, n = k + 1 := ⟨n - 1, by omega⟩
      cases hgroup : decodeXidGroup p data g len with
      | none => rw [decodeXidGroups_none h hgroup, decodeXidGroups_none h hgroup]
      | some r =>
        have hlt := (decodeXidGroup_step hgroup).lt
        rw [decodeXidGroups_some h hgroup, decodeXidGroups_some h hgroup]
        exact ih (by omega) (by omega)
    · rw [decodeXidGroups_stop (by omega), decodeXidGroups_stop (by omega)]

/-- The loop goes where the lengths lead. -/
theorem XidGroups.run (h : XidGroups data len g g') (hm : len - g ≤ m) (p : Params) :
    ∃ q, decodeXidGroups data len m p g = decodeXidGroups data len m q g' := by
  induction h using ReflTransGen.head_induction_on generalizing p with
  | refl => exact ⟨p, rfl⟩
  | head hstep _ ih =>
    have hlt := hstep.lt
    obtain ⟨p₁, hgroup⟩ := decodeXidGroup_of_step hstep p
    obtain ⟨q, hq⟩ := ih (by omega) p₁
    obtain ⟨m, rfl⟩ : ∃ k, m = k + 1 := ⟨m - 1, by omega⟩
    refine ⟨q, ?_⟩
    rw [decodeXidGroups_some hlt.1 hgroup, ← hq]
    exact decodeXidGroups_fuel (by omega) (by omega)

theorem decodeXidGroups_reaches (h : decodeXidGroups data len m p g = some (q, g')) :
    XidGroups data len g g' := by
  induction m generalizing p g with
  | zero =>
    cases h
    exact .refl
  | succ m ih =>
    by_cases hlt : g < len
    · cases hgroup : decodeXidGroup p data g len with
      | none =>
        rw [decodeXidGroups_none hlt hgroup] at h
        cases h
      | some r =>
        rw [decodeXidGroups_some hlt hgroup] at h
        exact .head (decodeXidGroup_step hgroup) (ih h)
    · rw [decodeXidGroups_stop (by omega)] at h
      cases h
      exact .refl

/-- Decoding succeeds only if the groups fill the frame. -/
theorem decodeXid_eq_some (h : decodeXid p data offset len = some q) :
    decodeXidGroups data len len p offset = some (q, len) := by
  unfold decodeXid at h
  split at h
  · cases h
  · rename_i params next hgroups
    split at h
    · cases h
    · rename_i hnext
      rw [ne_eq, not_not] at hnext
      rw [hgroups, hnext, Option.some.inj h]

theorem decodeXid_of_none (h : decodeXidGroups data len len p offset = none) :
    decodeXid p data offset len = none := by
  rw [decodeXid, h]

theorem decodeXid_of_ne (h : decodeXidGroups data len len p offset = some (q, g)) (hne : g ≠ len) :
    decodeXid p data offset len = none := by
  rw [decodeXid, h]
  exact if_pos hne

/-- A group that runs past `len` is rejected. -/
theorem decodeXid_group (hg : XidGroups data len offset g) (hlt : g < len)
    (hend : len < g + 4 ∨ len < xidGroupEnd data g) (p : Params) : decodeXid p data offset len = none := by
  obtain ⟨q, hq⟩ := hg.run (Nat.sub_le len offset) p
  have hmore : decodeXidGroups data len len q g = decodeXidGroups data len (len + 1) q g :=
    decodeXidGroups_fuel (by omega) (by omega)
  cases hgroup : decodeXidGroup q data g len with
  | none =>
    rw [decodeXidGroups_none hlt hgroup] at hmore
    exact decodeXid_of_none (hq.trans hmore)
  | some r =>
    obtain ⟨q', g'⟩ := r
    obtain ⟨hheader, rfl, -⟩ := decodeXidGroup_step hgroup
    have hstop : decodeXidGroups data len len q' (xidGroupEnd data g) = some (q', xidGroupEnd data g) :=
      decodeXidGroups_stop (by omega)
    rw [decodeXidGroups_some hlt hgroup] at hmore
    exact decodeXid_of_ne (hq.trans (hmore.trans hstop)) (by omega)

/-- So is a parameter that does. -/
theorem decodeXid_param (h : XidParamAt data offset len g o) (hend : len < xidParamEnd data o) (p : Params) :
    decodeXid p data offset len = none := by
  have hheader := h.header
  by_cases hlong : len < xidGroupEnd data g
  · exact decodeXid_group h.group (by omega) (.inr hlong) p
  obtain ⟨q, hq⟩ := h.group.run (Nat.sub_le len offset) p
  -- the loop over the parameters leaves the group where this one ends
  obtain ⟨q', hq'⟩ := h.reached.run (Nat.sub_le _ (g + 4)) .zero
  have hlast : (decodeXidParams data (xidGroupEnd data g) (xidGroupEnd data g) q' o).2 = xidParamEnd data o := by
    rw [decodeXidParams_fuel (n := xidGroupEnd data g + 1) (by omega) (by omega), decodeXidParams_step h.lt,
      decodeXidParams_stop (by omega)]
  have hgroup : decodeXidGroup q data g len = none := by
    rw [decodeXidGroup_params hheader h.params, hq']
    exact if_pos (by rw [hlast]; omega)
  have hfuel : decodeXidGroups data len len q g = decodeXidGroups data len (len + 1) q g :=
    decodeXidGroups_fuel (by omega) (by omega)
  rw [decodeXidGroups_none (by omega) hgroup] at hfuel
  exact decodeXid_of_none (hq.trans hfuel)

/-! ### Their reads -/

theorem decodeXidGroupIn_ok (h : g + 4 ≤ len → xidHasParams data g → ∀ o,
      XidParams data (xidGroupEnd data g) (g + 4) o → o < xidGroupEnd data g → XidParamWithin data len o) :
    decodeXidGroupIn p data g len = .ok (decodeXidGroup p data g len) := by
  by_cases hheader : g + 4 ≤ len
  · rw [decodeXidGroupIn, if_neg (by omega)]
    simp only [xidByteIn_ok (show g < len by omega), xidByteIn_ok (show g + 1 < len by omega),
      xidByteIn_ok (show g + 2 < len by omega), xidByteIn_ok (show g + 3 < len by omega), Except.ok_bind,
      xidHasParams_eq]
    by_cases hparams : xidHasParams data g
    · have hin := decodeXidParamsIn_ok (m := xidGroupEnd data g) (p := .zero) (h hheader hparams)
      rw [xidGroupEnd] at hin
      rw [if_neg (by simp [hparams]), hin, decodeXidGroup_params hheader hparams]
      rfl
    · rw [if_pos (by simpa using hparams), decodeXidGroup_other hheader hparams]
      rfl
  · rw [decodeXidGroupIn, if_pos (by omega), decodeXidGroup_short (by omega)]

theorem decodeXidGroupIn_forall {r : Option (Params × Nat)} (hheader : g + 4 ≤ len)
    (hparams : xidHasParams data g) (h : decodeXidGroupIn p data g len = .ok r)
    (ho : XidParams data (xidGroupEnd data g) (g + 4) o) (hlt : o < xidGroupEnd data g) :
    XidParamWithin data len o := by
  rw [decodeXidGroupIn, if_neg (by omega)] at h
  simp only [xidByteIn_ok (show g < len by omega), xidByteIn_ok (show g + 1 < len by omega),
    xidByteIn_ok (show g + 2 < len by omega), xidByteIn_ok (show g + 3 < len by omega), Except.ok_bind,
    xidHasParams_eq] at h
  rw [if_neg (by simp [hparams])] at h
  obtain ⟨r', hin, -⟩ := Except.bind_eq_ok h
  exact decodeXidParamsIn_forall (Nat.sub_le _ _) hin ho hlt

/-- What decoding comes to from a group that it comes to. -/
theorem XidWithin.next (h : XidWithin data g len) (hstep : XidGroupStep data len g g') :
    XidWithin data g' len :=
  fun g₁ o ho => h g₁ o ⟨.head hstep ho.group, ho.header, ho.params, ho.reached, ho.lt⟩

theorem decodeXidGroupsIn_ok (h : XidWithin data g len) :
    decodeXidGroupsIn data len m p g = .ok (decodeXidGroups data len m p g) := by
  induction m generalizing p g with
  | zero => rfl
  | succ m ih =>
    rw [decodeXidGroupsIn, decodeXidGroups]
    split
    · rw [decodeXidGroupIn_ok fun hheader hparams o ho hlt => h g o ⟨.refl, hheader, hparams, ho, hlt⟩,
        Except.ok_bind]
      cases hgroup : decodeXidGroup p data g len with
      | none => rfl
      | some r => exact ih (h.next (decodeXidGroup_step hgroup))
    · rfl

theorem decodeXidGroupsIn_forall {r : Option (Params × Nat)} (hm : len - g ≤ m)
    (h : decodeXidGroupsIn data len m p g = .ok r) : XidWithin data g len := by
  intro g₁ o ho
  obtain ⟨hg, hheader, hparams, hreached, hlt⟩ := ho
  induction hg using ReflTransGen.head_induction_on generalizing m p with
  | refl =>
    obtain ⟨m, rfl⟩ : ∃ k, m = k + 1 := ⟨m - 1, by omega⟩
    rw [decodeXidGroupsIn, if_pos (by omega)] at h
    obtain ⟨r', hgroup, -⟩ := Except.bind_eq_ok h
    exact decodeXidGroupIn_forall hheader hparams hgroup hreached hlt
  | @head g₂ g₃ hstep _ ih =>
    have hg₂ := hstep.lt
    obtain ⟨m, rfl⟩ : ∃ k, m = k + 1 := ⟨m - 1, by omega⟩
    rw [decodeXidGroupsIn, if_pos hg₂.1] at h
    obtain ⟨r', hgroup, h⟩ := Except.bind_eq_ok h
    have hr : r' = decodeXidGroup p data g₂ len := Except.ok.inj (hgroup.symm.trans
      (decodeXidGroupIn_ok fun hh hp o ho => decodeXidGroupIn_forall hh hp hgroup ho))
    obtain ⟨q, hq⟩ := decodeXidGroup_of_step hstep p
    rw [hr, hq] at h
    exact ih (by omega) h

theorem decodeXidIn_ok (h : XidWithin data offset len) :
    decodeXidIn p data offset len = .ok (decodeXid p data offset len) := by
  rw [decodeXidIn, decodeXidGroupsIn_ok h, Except.ok_bind, decodeXid]
  cases decodeXidGroups data len len p offset with
  | none => rfl
  | some r => rfl

theorem decodeXidIn_forall {r : Option Params} (h : decodeXidIn p data offset len = .ok r) :
    XidWithin data offset len := by
  obtain ⟨r', hgroups, -⟩ := Except.bind_eq_ok h
  exact decodeXidGroupsIn_forall (Nat.sub_le _ _) hgroups

/-- Decoding is bounded exactly if each parameter that it comes to lies below `len` and has at most four
octets. -/
theorem xidBounded_iff (data : Mem) (offset len : Nat) :
    XidBounded data offset len ↔ XidWithin data offset len := by
  constructor
  · intro h
    exact decodeXidIn_forall (h.inside .zero)
  · intro h
    exact {
      ends := fun params fuel hfuel => decodeXidGroups_fuel (by omega) (by omega)
      endsParams := fun params stop o fuel hfuel => decodeXidParams_fuel (by omega) (by omega)
      inside := fun params => decodeXidIn_ok h
      group := fun params g hg hlt hend => decodeXid_group hg hlt hend params
      param := fun params g o ho hend => decodeXid_param ho hend params }

/-- A group of one octet, of which nothing has arrived. -/
def overrunXid : Mem := .ofBytes [0x82, 0x80, 0x00, 0x01] fun _ => 0

/-- The octets behind the frame are read as its first parameter. -/
theorem not_xidBounded_overrun : ¬∀ (data : Mem) (offset len : Nat), offset ≤ len → XidBounded data offset len := by
  intro h
  have hin := (h overrunXid 0 4 (by decide)).inside .zero
  cases hin

/-! ## What is decoded -/

/-- What is decoded, and what `handle_xid` does with it, is a function of the frame: it depends neither on
the parameters that the caller passes, which `handle_xid` leaves uninitialised, nor on the octets behind
the frame. -/
structure XidOfFrame (data : Mem) (offset len : Nat) : Prop where
  decoded : ∀ (p q r : Params) (data' : Mem), (∀ i < len, data' i = data i) →
    decodeXid p data offset len = some r → decodeXid q data' offset len = some r
  handled : ∀ (i : Nat) (frame : Frame) (w : World) (m m' : Mem) (ms : List Mem),
    (∀ iface, w.ifaces[i]? = some iface → iface.addrMatch frame.dest) →
    M.handleXid i frame data offset len { w with sys := { w.sys with junk := m :: ms } } =
      M.handleXid i frame data offset len { w with sys := { w.sys with junk := m' :: ms } }

/-- If the groups fill the frame, one of them has parameters. -/
def XidHasParams (data : Mem) (offset len : Nat) : Prop :=
  XidGroups data len offset len → ∃ g, XidGroups data len offset g ∧ g < len ∧ xidHasParams data g

theorem XidParams.le (h : XidParams data stop o o') : o ≤ o' := by
  induction h with
  | refl => exact le_rfl
  | @tail o₁ o₂ _ hstep ih =>
    obtain ⟨-, rfl⟩ := hstep
    have hend := @lt_xidParamEnd data o₁
    omega

theorem XidGroups.le (h : XidGroups data len g g') : g ≤ g' := by
  induction h with
  | refl => exact le_rfl
  | tail _ hstep ih =>
    have hlt := hstep.lt
    omega

/-! ### The octets behind the frame -/

theorem xidValue_congr (h : ∀ i < o + n, data' i = data i) : xidValue data' o n = xidValue data o n := by
  refine List.foldl_ext _ _ _ fun value i hi => ?_
  rw [List.mem_range] at hi
  rw [h (o + (n - 1 - i)) (by omega)]

/-- Parameters that fill their group are decoded from the octets of the group. -/
theorem decodeXidParams_congr (hagree : ∀ i < stop, data' i = data i) (h : XidParams data stop o stop)
    (p : Params) : decodeXidParams data' stop m p o = decodeXidParams data stop m p o := by
  induction m generalizing p o with
  | zero => rfl
  | succ m ih =>
    rcases h.cases_head with rfl | ⟨o₁, ⟨hlt, rfl⟩, hrest⟩
    · rw [decodeXidParams_stop le_rfl, decodeXidParams_stop le_rfl]
    · have hle : o + 2 + (data (o + 1)).toNat ≤ stop := XidParams.le hrest
      have hend : xidParamEnd data' o = xidParamEnd data o := by
        rw [xidParamEnd, xidParamEnd, hagree (o + 1) (by omega)]
      rw [decodeXidParams_step hlt, decodeXidParams_step hlt, hend, hagree o hlt,
        hagree (o + 1) (by omega), xidValue_congr fun i hi => hagree i (by omega)]
      exact ih hrest _

/-- So is a group that lies in the frame. -/
theorem decodeXidGroup_congr (hagree : ∀ i < len, data' i = data i) (h : XidGroupStep data len g g')
    (hle : g' ≤ len) : decodeXidGroup p data' g len = decodeXidGroup p data g len := by
  obtain ⟨hheader, rfl, hfill⟩ := h
  have hend : xidGroupEnd data' g = xidGroupEnd data g := by
    rw [xidGroupEnd, xidGroupEnd, hagree (g + 2) (by omega), hagree (g + 3) (by omega)]
  have hhas : xidHasParams data' g = xidHasParams data g := by
    rw [xidHasParams, xidHasParams, hagree g (by omega), hagree (g + 1) (by omega)]
  by_cases hparams : xidHasParams data g
  · rw [decodeXidGroup_params hheader (hhas ▸ hparams), decodeXidGroup_params hheader hparams, hend,
      decodeXidParams_congr (fun i hi => hagree i (by omega)) (hfill hparams)]
  · rw [decodeXidGroup_other hheader (hhas ▸ hparams), decodeXidGroup_other hheader hparams, hend]

theorem decodeXidGroups_congr (hagree : ∀ i < len, data' i = data i)
    (h : decodeXidGroups data len m p g = some (q, len)) :
    decodeXidGroups data' len m p g = some (q, len) := by
  induction m generalizing p g with
  | zero => exact h
  | succ m ih =>
    by_cases hlt : g < len
    · cases hgroup : decodeXidGroup p data g len with
      | none =>
        rw [decodeXidGroups_none hlt hgroup] at h
        cases h
      | some r =>
        rw [decodeXidGroups_some hlt hgroup] at h
        have hle := (decodeXidGroups_reaches h).le
        rw [← decodeXidGroup_congr hagree (decodeXidGroup_step hgroup) hle] at hgroup
        rw [decodeXidGroups_some hlt hgroup]
        exact ih h
    · rw [decodeXidGroups_stop (by omega)] at h ⊢
      exact h

theorem decodeXid_congr (hagree : ∀ i < len, data' i = data i) (h : decodeXid p data offset len = some q) :
    decodeXid p data' offset len = some q := by
  rw [decodeXid, decodeXidGroups_congr hagree (decodeXid_eq_some h)]
  exact if_neg (not_not.mpr rfl)

/-! ### The parameters of the caller -/

/-- A group with parameters leaves nothing of what the caller passed. -/
theorem decodeXidGroups_of_params (h : XidGroups data len g g') (hlt : g' < len)
    (hparams : xidHasParams data g') (hm : len - g ≤ m) (p q : Params) :
    decodeXidGroups data len m p g = decodeXidGroups data len m q g := by
  induction h using ReflTransGen.head_induction_on generalizing m p q with
  | refl =>
    obtain ⟨m, rfl⟩ : ∃ k, m = k + 1 := ⟨m - 1, by omega⟩
    have hsame : decodeXidGroup p data g' len = decodeXidGroup q data g' len := by
      by_cases hheader : g' + 4 ≤ len
      · rw [decodeXidGroup_params hheader hparams, decodeXidGroup_params hheader hparams]
      · rw [decodeXidGroup_short (by omega), decodeXidGroup_short (by omega)]
    rw [decodeXidGroups, decodeXidGroups, if_pos hlt, if_pos hlt, hsame]
  | head hstep _ ih =>
    have hg := hstep.lt
    obtain ⟨m, rfl⟩ : ∃ k, m = k + 1 := ⟨m - 1, by omega⟩
    obtain ⟨p', hp⟩ := decodeXidGroup_of_step hstep p
    obtain ⟨q', hq⟩ := decodeXidGroup_of_step hstep q
    rw [decodeXidGroups_some hg.1 hp, decodeXidGroups_some hg.1 hq]
    exact ih (by omega) p' q'

/-- Without such a group, it is all there is. -/
theorem decodeXidGroups_of_other (h : ∀ g', XidGroups data len g g' → g' < len → ¬xidHasParams data g')
    (hgroups : decodeXidGroups data len m p g = some (q, g')) : q = p := by
  induction m generalizing g with
  | zero =>
    cases hgroups
    rfl
  | succ m ih =>
    by_cases hlt : g < len
    · cases hgroup : decodeXidGroup p data g len with
      | none =>
        rw [decodeXidGroups_none hlt hgroup] at hgroups
        cases hgroups
      | some r =>
        have hstep : XidGroupStep data len g r.2 := decodeXidGroup_step hgroup
        rw [decodeXidGroup_other hstep.1 (h g .refl hlt)] at hgroup
        cases hgroup
        rw [decodeXidGroups_some hlt (decodeXidGroup_other hstep.1 (h g .refl hlt))] at hgroups
        exact ih (fun g₁ hg₁ => h g₁ (.head hstep hg₁)) hgroups
    · rw [decodeXidGroups_stop (by omega)] at hgroups
      cases hgroups
      rfl

theorem decodeXid_of_params (h : XidGroups data len offset g) (hlt : g < len) (hparams : xidHasParams data g)
    (p q : Params) : decodeXid p data offset len = decodeXid q data offset len := by
  rw [decodeXid, decodeXid, decodeXidGroups_of_params h hlt hparams (Nat.sub_le _ _) p q]

/-- Where the groups fill the frame, decoding succeeds. -/
theorem decodeXid_of_groups (h : XidGroups data len offset len) (p : Params) :
    ∃ q, decodeXidGroups data len len p offset = some (q, len) ∧ decodeXid p data offset len = some q := by
  obtain ⟨q, hq⟩ := h.run (Nat.sub_le _ _) p
  rw [decodeXidGroups_stop le_rfl] at hq
  refine ⟨q, hq, ?_⟩
  rw [decodeXid, hq]
  exact if_neg (not_not.mpr rfl)

theorem handleXid_congr {i : Nat} {frame : Frame} {w : World} {m m' : Mem} {ms : List Mem}
    (h : ∀ p q, decodeXid p data offset len = decodeXid q data offset len)
    (hmatch : ∀ iface, w.ifaces[i]? = some iface → iface.addrMatch frame.dest) :
    M.handleXid i frame data offset len { w with sys := { w.sys with junk := m :: ms } } =
      M.handleXid i frame data offset len { w with sys := { w.sys with junk := m' :: ms } } := by
  have hrun (m : Mem) : M.junk { w with sys := { w.sys with junk := m :: ms } } =
      .ok (m, { w with sys := { w.sys with junk := ms } }) := rfl
  cases hi : w.ifaces[i]? with
  | none =>
    have hfault (m : Mem) : M.getIface i { w with sys := { w.sys with junk := m :: ms } } =
        .error .nullPointer := by
      rw [M.getIface, Prog.bind_run]
      simp only [Prog.get_run, hi, Prog.fault_run]
    rw [M.handleXid, Prog.bind_error (hfault m), Prog.bind_error (hfault m')]
  | some iface =>
    have hget (m : Mem) : M.getIface i { w with sys := { w.sys with junk := m :: ms } } =
        .ok (iface, { w with sys := { w.sys with junk := m :: ms } }) := by
      rw [M.getIface, Prog.bind_run]
      simp only [Prog.get_run, hi, Prog.pure_run]
    rw [M.handleXid, Prog.bind_ok (hget m), Prog.bind_ok (hget m'), if_neg (by simp [hmatch iface hi]),
      Prog.bind_ok (hrun m), Prog.bind_ok (hrun m'), h (.ofMem m) (.ofMem m')]

/-- What is decoded is a function of the frame exactly if one of its groups has parameters, when it has no
others than whole ones. -/
theorem xidOfFrame_iff (data : Mem) (offset len : Nat) :
    XidOfFrame data offset len ↔ XidHasParams data offset len := by
  constructor
  · intro h hgroups
    by_contra hnone
    have hother : ∀ g, XidGroups data len offset g → g < len → ¬xidHasParams data g :=
      fun g hg hlt hparams => hnone ⟨g, hg, hlt, hparams⟩
    -- decoding gives back what it gets
    have hself (p : Params) : decodeXid p data offset len = some p := by
      obtain ⟨q, hq, hdec⟩ := decodeXid_of_groups hgroups p
      rw [hdec, decodeXidGroups_of_other hother hq]
    have hone := h.decoded .zero { Params.zero with flags := 1 } .zero data (fun _ _ => rfl) (hself .zero)
    rw [hself] at hone
    cases hone
  · intro h
    have hsame {p q r : Params} (hdec : decodeXid p data offset len = some r) :
        decodeXid q data offset len = some r := by
      obtain ⟨g, hg, hlt, hparams⟩ := h (decodeXidGroups_reaches (decodeXid_eq_some hdec))
      rw [decodeXid_of_params hg hlt hparams q p, hdec]
    constructor
    · intro p q r data' hagree hdec
      exact decodeXid_congr hagree (hsame hdec)
    · intro i frame w m m' ms hmatch
      refine handleXid_congr (fun p q => ?_) hmatch
      cases hp : decodeXid p data offset len with
      | some r => exact (hsame hp).symm
      | none =>
        cases hq : decodeXid q data offset len with
        | none => rfl
        | some r => rw [hsame hq] at hp; cases hp

/-- An empty information field leaves the parameters of the caller. -/
theorem not_xidOfFrame_empty : ¬∀ (data : Mem) (offset len : Nat), offset ≤ len → XidOfFrame data offset len := by
  intro h
  have hone := (h overrunXid 4 4 le_rfl).decoded .zero { Params.zero with flags := 1 } .zero overrunXid
    (fun _ _ => rfl) rfl
  cases hone

end Patty
