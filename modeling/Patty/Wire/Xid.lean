import Patty.Frame
import Patty.Lib.Bits

/-! # The XID information field on the wire

The parameters that `patty_ax25_frame_encode_xid` stores are taken back by
`patty_ax25_frame_decode_xid` (`decodeXid_encodeXid`): a parameter is its type, its number of octets and
its value, most significant octet first, and the group they are in gives their length. -/

namespace Patty

/-- A parameter as the encoder has it: its type, its number of octets, and its value. -/
abbrev XidParam := Nat × Nat × Nat

/-- The octets of parameters, one after the other. -/
def xidBody (l : List XidParam) : Bytes := l.flatMap fun v => encodeXidParam v.1 v.2.1 v.2.2

/-- Type and value fit the octets they are stored in. -/
structure XidFits (v : XidParam) : Prop where
  type : v.1 < 256
  bytes : v.2.1 ≤ 4
  value : v.2.2 < 256 ^ v.2.1

variable {buf : Mem} {off n value fuel stop len : Nat} {p params : Params} {l : List XidParam} {bs : Bytes}

/-! ## Values -/

theorem toNat_ofNat_of_lt {n : Nat} (h : n < 256) : (UInt8.ofNat n).toNat = n := by
  rw [UInt8.toNat_ofNat', Nat.mod_eq_of_lt h]

theorem read_getElem {m i : Nat} (h : buf.read off n = bs) (hm : m = off + i) (hi : i < bs.length) :
    buf m = bs[i] := by
  subst h hm
  simp [Mem.read]

/-- The octets of a value are put together again. -/
theorem xidValue_read (hn : n ≤ 4) (hread : buf.read off n =
    (List.range n).map fun i => UInt8.ofNat (value >>> ((n - 1 - i) <<< 3))) :
    xidValue buf off n = value % 256 ^ n := by
  rw [← Bits.fold_bytes]
  apply List.foldl_ext
  intro acc i hi
  have hin : i < n := List.mem_range.mp hi
  have hoctet : buf (off + (n - 1 - i)) = UInt8.ofNat (value >>> (i <<< 3)) := by
    have hback : n - 1 - (n - 1 - i) = i := by omega
    rw [read_getElem hread rfl (by simp; omega), List.getElem_map, List.getElem_range, hback]
  have hbyte : value >>> (i <<< 3) % 256 < 2 ^ 8 := Nat.mod_lt _ (by omega)
  have hshift : i <<< 3 ≤ 24 := by
    rw [Nat.shiftLeft_eq]
    omega
  have hsmall : (value >>> (i <<< 3) % 256) <<< (i <<< 3) < 2 ^ 32 := by
    rw [Nat.shiftLeft_eq]
    calc value >>> (i <<< 3) % 256 * 2 ^ (i <<< 3) < 2 ^ 8 * 2 ^ (i <<< 3) :=
          Nat.mul_lt_mul_of_pos_right hbyte (Nat.two_pow_pos _)
      _ ≤ 2 ^ 8 * 2 ^ 24 := Nat.mul_le_mul_left _ (Nat.pow_le_pow_right (by omega) hshift)
  rw [hoctet, shl32, UInt8.toNat_ofNat', Nat.mod_eq_of_lt (by omega : i <<< 3 < 32),
    Nat.mod_eq_of_lt hsmall]

/-- `needbytes` finds enough octets. -/
theorem lt_needbytes (h : value < 2 ^ 32) : value < 256 ^ needbytes value := by
  have hbits {i k : Nat} (hik : i + k = 32) (hzero : value &&& (2 ^ k - 1) <<< i = 0) : value < 2 ^ i := by
    have hfield := Bits.field value i k
    have hdiv : value / 2 ^ i < 2 ^ k := by
      rw [Nat.div_lt_iff_lt_mul (Nat.two_pow_pos i), ← Nat.pow_add, Nat.add_comm k, hik]
      exact h
    rw [hzero, Nat.zero_shiftRight, Nat.mod_eq_of_lt hdiv] at hfield
    rcases Nat.div_eq_zero_iff.mp hfield.symm with h0 | hlt
    · exact absurd h0 (Nat.two_pow_pos i).ne'
    · exact hlt
  unfold needbytes
  split
  · exact hbits (i := 8) (k := 24) rfl ‹_›
  split
  · exact hbits (i := 16) (k := 16) rfl ‹_›
  split
  · exact hbits (i := 24) (k := 8) rfl ‹_›
  · exact h

theorem needbytes_le (value : Nat) : needbytes value ≤ 4 := by
  unfold needbytes
  split_ifs <;> omega

/-! ## Parameters -/

theorem length_encodeXidParam (type bytes value : Nat) :
    (encodeXidParam type bytes value).length = 2 + bytes := by
  rw [encodeXidParam, List.length_cons, List.length_cons, List.length_map, List.length_range]
  omega

theorem xidBody_cons (v : XidParam) (l : List XidParam) :
    xidBody (v :: l) = encodeXidParam v.1 v.2.1 v.2.2 ++ xidBody l := List.flatMap_cons

theorem length_xidBody_le (h : ∀ v ∈ l, v.2.1 ≤ 4) : (xidBody l).length ≤ 6 * l.length := by
  induction l with
  | nil => exact Nat.zero_le _
  | cons v l ih =>
    rw [List.forall_mem_cons] at h
    have hbytes := h.1
    have hrest := ih h.2
    rw [xidBody_cons, List.length_append, length_encodeXidParam, List.length_cons]
    omega

theorem length_le_xidBody (l : List XidParam) : l.length ≤ (xidBody l).length := by
  induction l with
  | nil => exact Nat.zero_le _
  | cons v l ih =>
    rw [xidBody_cons, List.length_append, length_encodeXidParam, List.length_cons]
    omega

theorem read_encodeXidParam {type : Nat} (h : buf.read off (2 + n) = encodeXidParam type n value) :
    buf off = UInt8.ofNat type ∧ buf (off + 1) = UInt8.ofNat n ∧ buf.read (off + 2) n =
      (List.range n).map fun i => UInt8.ofNat (value >>> ((n - 1 - i) <<< 3)) := by
  rw [Nat.add_comm, Mem.read_succ, Mem.read_succ, encodeXidParam] at h
  obtain ⟨htype, hrest⟩ := List.cons.inj h
  obtain ⟨hbytes, hvalue⟩ := List.cons.inj hrest
  exact ⟨htype, hbytes, hvalue⟩

/-- What the octets of a parameter keep of it. -/
def storedParam (v : XidParam) : XidParam := (v.1, v.2.1, v.2.2 % 256 ^ v.2.1)

theorem encodeXidParam_mod (type n value : Nat) :
    encodeXidParam type n (value % 256 ^ n) = encodeXidParam type n value := by
  rw [encodeXidParam, encodeXidParam]
  congr 2
  apply List.map_congr_left
  intro i hi
  have hin : i < n := List.mem_range.mp hi
  obtain ⟨j, hj⟩ : ∃ j, n = j + (i + 1) := ⟨n - (i + 1), by omega⟩
  have hback : n - 1 - i = j := by omega
  have hpow : 2 ^ (j <<< 3) = 256 ^ j := by
    rw [show (256 : Nat) = 2 ^ 8 from rfl, ← Nat.pow_mul, Nat.shiftLeft_eq, Nat.mul_comm]
  rw [← UInt8.toNat_inj, UInt8.toNat_ofNat', UInt8.toNat_ofNat', hback, Nat.shiftRight_eq_div_pow,
    Nat.shiftRight_eq_div_pow, hpow, hj, Nat.pow_add, Nat.mod_mul_right_div_self]
  exact Nat.mod_mod_of_dvd _ (Dvd.intro_left _ (Nat.pow_succ ..).symm)

theorem xidBody_stored (l : List XidParam) : xidBody (l.map storedParam) = xidBody l := by
  induction l with
  | nil => rfl
  | cons v l ih => rw [List.map_cons, xidBody_cons, xidBody_cons, ih, storedParam, encodeXidParam_mod]

theorem storedParam_fits {v : XidParam} (htype : v.1 < 256) (hbytes : v.2.1 ≤ 4) : XidFits (storedParam v) :=
  ⟨htype, hbytes, Nat.mod_lt _ (Nat.pow_pos (Nat.succ_pos _))⟩

/-- The decoder saves the parameters in order. -/
theorem decodeXidParams_body (hl : ∀ v ∈ l, XidFits v) (hfuel : l.length ≤ fuel)
    (hread : buf.read off (xidBody l).length = xidBody l) (hstop : stop = off + (xidBody l).length) :
    decodeXidParams buf stop fuel p off = (l.foldl (fun p v => saveXidParam p v.1 v.2.2) p, stop) := by
  induction l generalizing fuel off p with
  | nil =>
    have heq : stop = off := hstop
    cases fuel with
    | zero => rw [heq]; rfl
    | succ fuel =>
      rw [decodeXidParams, if_neg (by omega), heq]
      rfl
  | cons v l ih =>
    obtain ⟨fuel, rfl⟩ : ∃ k, fuel = k + 1 := ⟨fuel - 1, by simp at hfuel; omega⟩
    rw [List.forall_mem_cons] at hl
    obtain ⟨htype, hbytes, hvalue⟩ := hl.1
    rw [xidBody_cons, List.length_append, length_encodeXidParam] at hread hstop
    rw [Mem.read_append] at hread
    obtain ⟨hparam, hrest⟩ := List.append_inj hread (by rw [Mem.length_read, length_encodeXidParam])
    obtain ⟨hid, hlen, hread'⟩ := read_encodeXidParam hparam
    have hnext : off + 2 + v.2.1 = off + (2 + v.2.1) := Nat.add_assoc ..
    rw [decodeXidParams, if_pos (by omega)]
    dsimp only
    rw [hid, hlen, toNat_ofNat_of_lt htype, toNat_ofNat_of_lt (by omega), xidValue_read hbytes hread',
      Nat.mod_eq_of_lt hvalue, hnext]
    exact ih hl.2 (by simpa using hfuel) hrest (by omega)

/-! ## The group -/

/-- A group that holds these parameters. -/
def xidGroup (l : List XidParam) : Bytes :=
  PATTY_AX25_FRAME_XID_GROUP_ISO8885 :: PATTY_AX25_FRAME_XID_GROUP_PARAMS ::
    UInt8.ofNat ((xidBody l).length / 256) :: UInt8.ofNat (xidBody l).length :: xidBody l

/-- A group starts from no parameters. -/
theorem decodeXidGroup_body (hl : ∀ v ∈ l, XidFits v) (hfew : (xidBody l).length < 2 ^ 16)
    (hread : buf.read off (xidGroup l).length = xidGroup l) (hlen : off + (xidGroup l).length ≤ len) :
    decodeXidGroup p buf off len =
      some (l.foldl (fun p v => saveXidParam p v.1 v.2.2) .zero, off + (xidGroup l).length) := by
  have hsize : (xidGroup l).length = (xidBody l).length + 4 := rfl
  rw [hsize] at hread hlen ⊢
  rw [Mem.read_succ, Mem.read_succ, Mem.read_succ, Mem.read_succ, xidGroup] at hread
  simp only [List.cons.injEq] at hread
  obtain ⟨hformat, htype, hhigh, hlow, hbody⟩ := hread
  have hgroup : (buf (off + 2)).toNat * 256 + (buf (off + 3)).toNat = (xidBody l).length := by
    rw [hhigh, hlow, toNat_ofNat_of_lt (by omega), UInt8.toNat_ofNat']
    omega
  have hcount := length_le_xidBody l
  have hstop : off + 4 + (xidBody l).length = off + ((xidBody l).length + 4) := by omega
  rw [decodeXidGroup, if_neg (by omega), hgroup, hformat, htype, if_neg (by simp)]
  dsimp only
  rw [decodeXidParams_body hl (by omega) hbody rfl, hstop]
  exact if_neg (fun hne => hne rfl)

/-- A group at the end of the field is all of it. -/
theorem decodeXidGroups_body (hl : ∀ v ∈ l, XidFits v) (hfew : (xidBody l).length < 2 ^ 16)
    (hread : buf.read off (xidGroup l).length = xidGroup l) (hfuel : 0 < fuel) :
    decodeXidGroups buf (off + (xidGroup l).length) fuel p off =
      some (l.foldl (fun p v => saveXidParam p v.1 v.2.2) .zero, off + (xidGroup l).length) := by
  obtain ⟨fuel, rfl⟩ : ∃ k, fuel = k + 1 := ⟨fuel - 1, by omega⟩
  have hpos : off < off + (xidGroup l).length := Nat.lt_add_of_pos_right (Nat.succ_pos _)
  rw [decodeXidGroups, if_pos hpos, decodeXidGroup_body hl hfew hread le_rfl]
  dsimp only
  cases fuel with
  | zero => rfl
  | succ fuel =>
    rw [decodeXidGroups]
    exact if_neg (Nat.lt_irrefl _)

/-! ## The parameters -/

/-- The types of the parameters that are sent. -/
def xidTypes : List Nat :=
  [PATTY_AX25_PARAM_CLASSES, PATTY_AX25_PARAM_HDLC, PATTY_AX25_PARAM_INFO_RX, PATTY_AX25_PARAM_WINDOW_RX,
    PATTY_AX25_PARAM_ACK, PATTY_AX25_PARAM_RETRY]

namespace Params

/-- The bit of the type is set in the flags. -/
def has (params : Params) (type : Nat) : Bool := params.flags &&& 1 <<< type != 0

/-- What is left of the parameters on the wire: those that are flagged, of the types that are sent. -/
def flagged (params : Params) : Params where
  flags := params.flags
  classes := if params.has PATTY_AX25_PARAM_CLASSES then params.classes else 0
  hdlc := if params.has PATTY_AX25_PARAM_HDLC then params.hdlc else 0
  infoTx := 0
  infoRx := if params.has PATTY_AX25_PARAM_INFO_RX then params.infoRx else 0
  windowTx := 0
  windowRx := if params.has PATTY_AX25_PARAM_WINDOW_RX then params.windowRx else 0
  ack := if params.has PATTY_AX25_PARAM_ACK then params.ack else 0
  retry := if params.has PATTY_AX25_PARAM_RETRY then params.retry else 0

/-- Only types that are sent are flagged, and the values fit the octets they have. -/
structure Sendable (params : Params) : Prop where
  flags : ∀ i, params.flags.testBit i → i ∈ xidTypes
  classes : params.classes < 2 ^ 16
  hdlc : params.hdlc < 2 ^ 24
  infoRx : params.infoRx < 2 ^ 32
  windowRx : params.windowRx < 2 ^ 8
  ack : params.ack < 2 ^ 32
  retry : params.retry < 2 ^ 32

theorem has_iff {type : Nat} : params.has type = params.flags.testBit type := by
  rw [has, Nat.shiftLeft_eq, Nat.one_mul]
  cases h : params.flags.testBit type with
  | true =>
    rw [bne_iff_ne]
    intro hzero
    have hbit := congrArg (Nat.testBit · type) hzero
    simp [h] at hbit
  | false =>
    rw [bne_eq_false_iff_eq]
    apply Nat.eq_of_testBit_eq
    intro i
    rw [Nat.testBit_and, Nat.testBit_two_pow, Nat.zero_testBit]
    by_cases hi : type = i
    · simp [← hi, h]
    · simp [hi]

/-- The flags put together from their bits. -/
theorem testBit_flags (types : List Nat) (f i : Nat) :
    (types.foldl (fun f type => f ||| if params.has type then 1 <<< type else 0) f).testBit i =
      (f.testBit i || (params.flags.testBit i && decide (i ∈ types))) := by
  induction types generalizing f with
  | nil => simp
  | cons type types ih =>
    have hbit : (if params.has type then 1 <<< type else 0).testBit i =
        (params.flags.testBit i && decide (i = type)) := by
      rw [has_iff]
      by_cases hi : i = type
      · cases h : params.flags.testBit type <;> simp [hi, h]
      · cases params.flags.testBit type <;> simp [hi, Nat.shiftLeft_eq, Ne.symm hi]
    rw [List.foldl_cons, ih, Nat.testBit_or, hbit]
    cases params.flags.testBit i <;> simp [List.mem_cons, Bool.decide_or, Bool.or_assoc]

theorem Sendable.flags_eq (h : params.Sendable) :
    xidTypes.foldl (fun f type => f ||| if params.has type then 1 <<< type else 0) 0 = params.flags := by
  apply Nat.eq_of_testBit_eq
  intro i
  rw [testBit_flags, Nat.zero_testBit, Bool.false_or]
  cases hbit : params.flags.testBit i with
  | true => simp [h.flags i hbit]
  | false => rfl

end Params

/-- What saving a parameter does, if it is flagged. -/
theorem saveXidParam_if (type : Nat) (h : type ∈ xidTypes) (b : Bool) (p : Params) (v : Nat) :
    (if b then saveXidParam p type v else p) = { p with
      flags := p.flags ||| if b then 1 <<< type else 0
      classes := if type == PATTY_AX25_PARAM_CLASSES && b then v else p.classes
      hdlc := if type == PATTY_AX25_PARAM_HDLC && b then v else p.hdlc
      infoRx := if type == PATTY_AX25_PARAM_INFO_RX && b then v else p.infoRx
      windowRx := if type == PATTY_AX25_PARAM_WINDOW_RX && b then v else p.windowRx
      ack := if type == PATTY_AX25_PARAM_ACK && b then v else p.ack
      retry := if type == PATTY_AX25_PARAM_RETRY && b then v else p.retry } := by
  cases b with
  | false => simp
  | true =>
    simp only [xidTypes, List.mem_cons, List.not_mem_nil, or_false] at h
    rcases h with rfl | rfl | rfl | rfl | rfl | rfl <;> rfl

/-- All that is flagged is saved. -/
theorem Params.Sendable.saved (h : params.Sendable) :
    ((xidValues params).filter fun v => params.has v.1).foldl (fun p v => saveXidParam p v.1 v.2.2) .zero =
      params.flagged := by
  have hinfo := Nat.mod_eq_of_lt h.infoRx
  have hack := Nat.mod_eq_of_lt h.ack
  have hretry := Nat.mod_eq_of_lt h.retry
  have hwindow : params.windowRx % 2 ^ 32 = params.windowRx := Nat.mod_eq_of_lt (by have := h.windowRx; omega)
  rw [List.foldl_filter, xidValues]
  simp only [List.foldl_cons, List.foldl_nil, hinfo, hack, hretry, hwindow]
  rw [saveXidParam_if PATTY_AX25_PARAM_CLASSES (by decide), saveXidParam_if PATTY_AX25_PARAM_HDLC (by decide),
    saveXidParam_if PATTY_AX25_PARAM_INFO_RX (by decide), saveXidParam_if PATTY_AX25_PARAM_WINDOW_RX (by decide),
    saveXidParam_if PATTY_AX25_PARAM_ACK (by decide), saveXidParam_if PATTY_AX25_PARAM_RETRY (by decide)]
  exact congrArg (fun flags => { params.flagged with flags }) h.flags_eq

/-- What is sent fits its octets. -/
theorem Params.Sendable.fits (h : params.Sendable) : ∀ v ∈ xidValues params, XidFits v := by
  have hwindow : params.windowRx % 2 ^ 32 < 256 ^ 1 := (Nat.mod_le ..).trans_lt h.windowRx
  have hlt (x : Nat) : x % 2 ^ 32 < 256 ^ needbytes (x % 2 ^ 32) := lt_needbytes (Nat.mod_lt _ (by omega))
  have hvar {type : Nat} (x : Nat) (htype : type < 256) :
      XidFits (type, needbytes (x % 2 ^ 32), x % 2 ^ 32) := ⟨htype, needbytes_le _, hlt x⟩
  have hfixed {type n x : Nat} (htype : type < 256) (hn : n ≤ 4) (hx : x < 256 ^ n) : XidFits (type, n, x) :=
    ⟨htype, hn, hx⟩
  simp only [xidValues, List.forall_mem_cons, List.not_mem_nil, false_implies, implies_true, and_true]
  exact ⟨hfixed (by decide) (by decide) h.classes, hfixed (by decide) (by decide) h.hdlc,
    hvar _ (by decide), hfixed (by decide) (by decide) hwindow, hvar _ (by decide), hvar _ (by decide)⟩

/-- The parameters that are stored are taken back, wherever the octets are. -/
theorem decodeXid_encodeXid (params params₀ : Params) (size off : Nat) (bs : Bytes) (buf : Mem)
    (h : params.Sendable) (hencode : encodeXid params size = some bs)
    (hread : buf.read off bs.length = bs) :
    decodeXidGroups buf (off + bs.length) (off + bs.length) params₀ off =
        some (params.flagged, off + bs.length) ∧
      decodeXid params₀ buf off (off + bs.length) = some params.flagged := by
  have hbs : bs = xidGroup ((xidValues params).filter fun v => params.has v.1) := by
    unfold encodeXid at hencode
    dsimp only at hencode
    split at hencode
    · cases hencode
    · exact (Option.some.inj hencode).symm
  have hfits : ∀ v ∈ (xidValues params).filter fun v => params.has v.1, XidFits v := by
    intro v hv
    exact h.fits v (List.mem_filter.mp hv).1
  have hfew : (xidBody ((xidValues params).filter fun v => params.has v.1)).length < 2 ^ 16 := by
    have hsix : ((xidValues params).filter fun v => params.has v.1).length ≤ 6 := List.length_filter_le ..
    exact (length_xidBody_le fun v hv => (hfits v hv).bytes).trans_lt (by omega)
  have hgroups : decodeXidGroups buf (off + bs.length) (off + bs.length) params₀ off =
      some (params.flagged, off + bs.length) := by
    rw [← h.saved]
    rw [hbs] at hread ⊢
    exact decodeXidGroups_body hfits hfew hread (Nat.add_pos_right _ (Nat.succ_pos _))
  refine ⟨hgroups, ?_⟩
  rw [decodeXid, hgroups]
  exact if_neg fun hne => hne rfl

/-- Parameters with the classes, a length of two octets and no others. -/
def sampleParams : Params :=
  { Params.zero with
    flags := 1 <<< PATTY_AX25_PARAM_CLASSES ||| 1 <<< PATTY_AX25_PARAM_INFO_RX
    classes := 0x2100
    infoRx := 2040
    retry := 10 }

theorem sampleParams_sendable : sampleParams.Sendable := by
  refine ⟨fun i hi => ?_, by decide, by decide, by decide, by decide, by decide, by decide⟩
  have hlt : i < 11 := by
    by_contra hle
    have hbig : sampleParams.flags < 2 ^ i := calc
      sampleParams.flags < 2 ^ 11 := by decide
      _ ≤ 2 ^ i := Nat.pow_le_pow_right (by omega) (by omega)
    rw [Nat.testBit_lt_two_pow hbig] at hi
    cases hi
  have hall : ∀ i < 11, sampleParams.flags.testBit i → i ∈ xidTypes := by decide
  exact hall i hlt hi

theorem decodeXid_encodeXid_sample : ∃ bs, encodeXid sampleParams 64 = some bs ∧
    decodeXidGroups (Mem.store (fun _ => 0xff) 15 bs) (15 + bs.length) (15 + bs.length) .zero 15 =
        some (sampleParams.flagged, 15 + bs.length) ∧
      decodeXid .zero (Mem.store (fun _ => 0xff) 15 bs) 15 (15 + bs.length) = some sampleParams.flagged :=
  ⟨_, rfl, decodeXid_encodeXid sampleParams .zero 64 15 _ _ sampleParams_sendable rfl Mem.read_store_same⟩

end Patty
