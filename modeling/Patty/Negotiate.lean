import Patty.SockIO

/-! # Negotiation of parameters

`save_xid_param` records that a parameter of type `t` is present as the bit `1 << t`, while
`patty_ax25_sock_params_negotiate` tests the bits of `t` itself. For what XID decodes to, the tests for
CLASSES and HDLC never hold, the test for INFO_RX is that for CLASSES, and the tests for WINDOW_RX, ACK
and RETRY are that for HDLC (`paramsNegotiate_decoded`), so that the parameters are negotiated as they
should be only where this makes no difference (`negotiated_iff`). -/

namespace Patty

namespace Params

/-- The parameter of this type was present, as `save_xid_param` records it. -/
def Has (params : Params) (type : Nat) : Prop := params.flags &&& 1 <<< type ≠ 0

instance (params : Params) (type : Nat) : Decidable (params.Has type) :=
  inferInstanceAs (Decidable (_ ≠ _))

/-- The parameters ask for what the server does not do. -/
def Refused (params : Params) : Prop :=
  params.Has PATTY_AX25_PARAM_CLASSES ∧
    (params.classes &&& PATTY_AX25_PARAM_CLASSES_ABM = 0 ∨
      params.classes &&& PATTY_AX25_PARAM_CLASSES_HALF_DUPLEX = 0 ∨
      params.classes &&& PATTY_AX25_PARAM_CLASSES_FULL_DUPLEX ≠ 0) ∨
  params.Has PATTY_AX25_PARAM_HDLC ∧
    (params.hdlc &&& PATTY_AX25_PARAM_HDLC_XADDR = 0 ∨
      params.hdlc &&& PATTY_AX25_PARAM_HDLC_MODULO_128 = 0 ∨
      params.hdlc &&& PATTY_AX25_PARAM_HDLC_SYNC_TX = 0)

instance (params : Params) : Decidable params.Refused := inferInstanceAs (Decidable (_ ∨ _))

end Params

/-- What negotiation should do: refuse, and leave the socket as it is, or take the smaller sizes and the
larger limits of those that are present. -/
structure Negotiated (s : Sock) (params : Params) : Prop where
  fails : (s.paramsNegotiate params).1.isSome ↔ params.Refused
  unchanged : params.Refused → (s.paramsNegotiate params).2.1 = s
  maxlen : ¬params.Refused → (s.paramsNegotiate params).2.1.nMaxlenTx =
    if params.Has PATTY_AX25_PARAM_INFO_RX then min s.nMaxlenTx (params.infoRx / 8) else s.nMaxlenTx
  window : ¬params.Refused → (s.paramsNegotiate params).2.1.nWindowTx =
    if params.Has PATTY_AX25_PARAM_WINDOW_RX then min s.nWindowTx params.windowRx else s.nWindowTx
  ack : ¬params.Refused → (s.paramsNegotiate params).2.1.nAck =
    if params.Has PATTY_AX25_PARAM_ACK then max s.nAck params.ack else s.nAck
  retry : ¬params.Refused → (s.paramsNegotiate params).2.1.nRetry =
    if params.Has PATTY_AX25_PARAM_RETRY then max s.nRetry params.retry else s.nRetry

/-! ## The flags that XID decodes to -/

theorem saveXidParam_flags {params : Params} (h : params.flags &&& 3 = 0) (type value : Nat) :
    (saveXidParam params type value).flags &&& 3 = 0 := by
  have hbit {t : Nat} (ht : (1 <<< t) &&& 3 = 0) : (params.flags ||| 1 <<< t) &&& 3 = 0 := by
    rw [Nat.and_or_distrib_right, h, ht]
    rfl
  simp only [saveXidParam, apply_ite Params.flags]
  split_ifs with h₁ h₂ h₃ h₄ h₅ h₆ h₇ h₈
  · subst h₁; exact hbit rfl
  · subst h₂; exact hbit rfl
  · subst h₃; exact hbit rfl
  · subst h₄; exact hbit rfl
  · subst h₅; exact hbit rfl
  · subst h₆; exact hbit rfl
  · subst h₇; exact hbit rfl
  · subst h₈; exact hbit rfl
  · exact h

theorem decodeXidParams_flags {data : Mem} {stop n offset : Nat} {params : Params}
    (h : params.flags &&& 3 = 0) : (decodeXidParams data stop n params offset).1.flags &&& 3 = 0 := by
  induction n generalizing params offset with
  | zero => exact h
  | succ n ih =>
    rw [decodeXidParams]
    split
    · exact ih (saveXidParam_flags h _ _)
    · exact h

theorem decodeXidGroup_flags {data : Mem} {offset len next : Nat} {params params' : Params}
    (h : params.flags &&& 3 = 0) (hdec : decodeXidGroup params data offset len = some (params', next)) :
    params'.flags &&& 3 = 0 := by
  unfold decodeXidGroup at hdec
  split at hdec
  · cases hdec
  · dsimp only at hdec
    split at hdec
    · cases hdec
      exact h
    · split at hdec
      · cases hdec
      · cases hdec
        exact decodeXidParams_flags rfl

theorem decodeXidGroups_flags {data : Mem} {offset len n next : Nat} {params params' : Params}
    (h : params.flags &&& 3 = 0)
    (hdec : decodeXidGroups data len n params offset = some (params', next)) :
    params'.flags &&& 3 = 0 := by
  induction n generalizing params offset with
  | zero =>
    cases hdec
    exact h
  | succ n ih =>
    rw [decodeXidGroups] at hdec
    split at hdec
    · cases hgroup : decodeXidGroup params data offset len with
      | none =>
        rw [hgroup] at hdec
        cases hdec
      | some r =>
        rw [hgroup] at hdec
        exact ih (decodeXidGroup_flags h hgroup) hdec
    · cases hdec
      exact h

/-- Bits 0 and 1 of the flags stand for no parameter. -/
theorem decodeXid_flags {data : Mem} {offset len : Nat} {params : Params}
    (h : decodeXid .zero data offset len = some params) : params.flags &&& 3 = 0 := by
  unfold decodeXid at h
  split at h
  · cases h
  · rename_i hgroups
    split at h
    · cases h
    · cases h
      exact decodeXidGroups_flags rfl hgroups

/-! ## What is negotiated -/

variable {s : Sock} {params : Params}

/-- Taking the smaller number, if a flag is set. -/
theorem ite_min {c : Prop} [Decidable c] {a b : Nat} :
    (if c ∧ b < a then b else a) = if c then min a b else a := by
  by_cases hc : c
  · simp only [hc, true_and, if_true]
    split <;> omega
  · simp [hc]

theorem ite_max {c : Prop} [Decidable c] {a b : Nat} :
    (if c ∧ a < b then b else a) = if c then max a b else a := by
  by_cases hc : c
  · simp only [hc, true_and, if_true]
    split <;> omega
  · simp [hc]

/-- The numbers are taken over one by one. -/
theorem negotiateValues_fields (s : Sock) (params : Params) :
    (s.negotiateValues params).nMaxlenTx =
      (if params.flags &&& PATTY_AX25_PARAM_INFO_RX ≠ 0 then
        min s.nMaxlenTx (params.infoRx >>> 3) else s.nMaxlenTx) ∧
    (s.negotiateValues params).nWindowTx =
      (if params.flags &&& PATTY_AX25_PARAM_WINDOW_RX ≠ 0 then
        min s.nWindowTx params.windowRx else s.nWindowTx) ∧
    (s.negotiateValues params).nAck =
      (if params.flags &&& PATTY_AX25_PARAM_ACK ≠ 0 then max s.nAck params.ack else s.nAck) ∧
    (s.negotiateValues params).nRetry =
      if params.flags &&& PATTY_AX25_PARAM_RETRY ≠ 0 then max s.nRetry params.retry else s.nRetry := by
  simp only [← ite_min, ← ite_max]
  unfold Sock.negotiateValues
  dsimp only
  refine ⟨?_, ?_, ?_, ?_⟩
  · simp only [apply_ite Sock.nMaxlenTx, ite_self]
  · simp only [apply_ite Sock.nWindowTx, ite_self]
  · simp only [apply_ite Sock.nAck, ite_self]
  · simp only [apply_ite Sock.nRetry, ite_self]

/-- With bits 0 and 1 clear, a mask tests the bits above them. -/
theorem flags_and {flags : Nat} (h : flags &&& 3 = 0) (low mask : Nat) (hlow : 3 &&& low = low) :
    flags &&& (low ||| mask) = flags &&& mask := by
  have hzero : flags &&& low = 0 := by rw [← hlow, ← Nat.and_assoc, h, Nat.zero_and]
  rw [Nat.and_or_distrib_left, hzero, Nat.zero_or]

/-- The tests for INFO_RX and for the others are those for CLASSES and for HDLC. -/
theorem paramsNegotiate_decoded (s : Sock) (h : params.flags &&& 3 = 0) :
    ∃ s', s.paramsNegotiate params = (none, s', params) ∧
      s'.nMaxlenTx = (if params.Has PATTY_AX25_PARAM_CLASSES then
        min s.nMaxlenTx (params.infoRx / 8) else s.nMaxlenTx) ∧
      s'.nWindowTx = (if params.Has PATTY_AX25_PARAM_HDLC then
        min s.nWindowTx params.windowRx else s.nWindowTx) ∧
      s'.nAck = (if params.Has PATTY_AX25_PARAM_HDLC then max s.nAck params.ack else s.nAck) ∧
      s'.nRetry = if params.Has PATTY_AX25_PARAM_HDLC then max s.nRetry params.retry else s.nRetry := by
  have hclasses : params.flags &&& PATTY_AX25_PARAM_CLASSES = 0 :=
    (flags_and h 2 0 rfl).trans (Nat.and_zero _)
  have hhdlc : params.flags &&& PATTY_AX25_PARAM_HDLC = 0 := h
  have hinfo : params.flags &&& PATTY_AX25_PARAM_INFO_RX = params.flags &&& 1 <<< 2 :=
    flags_and h 2 4 rfl
  have hack : params.flags &&& PATTY_AX25_PARAM_ACK = params.flags &&& 1 <<< 3 := flags_and h 1 8 rfl
  have hretry : params.flags &&& PATTY_AX25_PARAM_RETRY = params.flags &&& 1 <<< 3 :=
    flags_and h 2 8 rfl
  obtain ⟨hm, hw, ha, hr⟩ := negotiateValues_fields s params
  rw [hinfo, Nat.shiftRight_eq_div_pow] at hm
  rw [hack] at ha
  rw [hretry] at hr
  refine ⟨s.negotiateValues params, ?_, hm, hw, ha, hr⟩
  have hno : Sock.negotiateClasses params = none := if_neg (not_not_intro hclasses)
  have hsame : s.negotiateHdlc params = (none, s, params) := if_neg (not_not_intro hhdlc)
  simp only [Sock.paramsNegotiate, hno, hsame]

/-- Whether the test of one parameter stands in for that of another makes no difference. -/
def Agrees (c c' same : Prop) : Prop := (c ↔ c') ∨ same

theorem ite_min_eq {c c' : Prop} [Decidable c] [Decidable c'] {a b : Nat} :
    (if c then min a b else a) = (if c' then min a b else a) ↔ Agrees c c' (a ≤ b) := by
  unfold Agrees
  by_cases hc : c
  · by_cases hc' : c'
    · simp [hc, hc']
    · simp only [hc, hc', if_true, if_false, iff_false, not_true, false_or]
      omega
  · by_cases hc' : c'
    · simp only [hc, hc', if_true, if_false, iff_true, false_or]
      omega
    · simp [hc, hc']

theorem ite_max_eq {c c' : Prop} [Decidable c] [Decidable c'] {a b : Nat} :
    (if c then max a b else a) = (if c' then max a b else a) ↔ Agrees c c' (b ≤ a) := by
  unfold Agrees
  by_cases hc : c
  · by_cases hc' : c'
    · simp [hc, hc']
    · simp only [hc, hc', if_true, if_false, iff_false, not_true, false_or]
      omega
  · by_cases hc' : c'
    · simp only [hc, hc', if_true, if_false, iff_true, false_or]
      omega
    · simp [hc, hc']

/-- Nothing in the parameters is to be refused, and where a number is taken over for another parameter
than its own, it changes nothing. -/
structure Params.Harmless (s : Sock) (params : Params) : Prop where
  accepted : ¬params.Refused
  maxlen : Agrees (params.Has PATTY_AX25_PARAM_CLASSES) (params.Has PATTY_AX25_PARAM_INFO_RX)
    (s.nMaxlenTx ≤ params.infoRx / 8)
  window : Agrees (params.Has PATTY_AX25_PARAM_HDLC) (params.Has PATTY_AX25_PARAM_WINDOW_RX)
    (s.nWindowTx ≤ params.windowRx)
  ack : Agrees (params.Has PATTY_AX25_PARAM_HDLC) (params.Has PATTY_AX25_PARAM_ACK)
    (params.ack ≤ s.nAck)
  retry : Agrees (params.Has PATTY_AX25_PARAM_HDLC) (params.Has PATTY_AX25_PARAM_RETRY)
    (params.retry ≤ s.nRetry)

/-- The parameters that an XID information field decodes to, whatever the caller had in their place, are
negotiated as they should be if and only if they are harmless. -/
theorem negotiated_iff (s : Sock) (params : Params) (data : Mem) (offset len : Nat)
    (h : ∀ junk, decodeXid junk data offset len = some params) :
    Negotiated s params ↔ params.Harmless s := by
  obtain ⟨s', hneg, hm, hw, ha, hr⟩ := paramsNegotiate_decoded s (decodeXid_flags (h .zero))
  constructor
  · intro N
    have hacc : ¬params.Refused := by
      intro href
      have hfails := N.fails.mpr href
      rw [hneg] at hfails
      cases hfails
    have h1 := N.maxlen hacc
    have h2 := N.window hacc
    have h3 := N.ack hacc
    have h4 := N.retry hacc
    rw [hneg] at h1 h2 h3 h4
    exact ⟨hacc, ite_min_eq.mp (hm.symm.trans h1), ite_min_eq.mp (hw.symm.trans h2),
      ite_max_eq.mp (ha.symm.trans h3), ite_max_eq.mp (hr.symm.trans h4)⟩
  · intro H
    refine ⟨?_, fun href => absurd href H.accepted, fun _ => ?_, fun _ => ?_, fun _ => ?_, fun _ => ?_⟩
    · rw [hneg]
      simp [H.accepted]
    · rw [hneg]
      exact hm.trans (ite_min_eq.mpr H.maxlen)
    · rw [hneg]
      exact hw.trans (ite_min_eq.mpr H.window)
    · rw [hneg]
      exact ha.trans (ite_max_eq.mpr H.ack)
    · rw [hneg]
      exact hr.trans (ite_max_eq.mpr H.retry)

/-- A new STREAM socket on a half-duplex interface. -/
def newStream : Sock :=
  { Sock.zero.init with
    flagsClasses := PATTY_AX25_PARAM_CLASSES_ABM ||| PATTY_AX25_PARAM_CLASSES_HALF_DUPLEX
    flagsHdlc := PATTY_AX25_SOCK_DEFAULT_HDLC }

/-- The XID information field that it offers. -/
def newStreamXid : Bytes := (encodeXid (M.xidParams newStream) 256).getD []

/-- The parameters that it offers are negotiated as they should be. -/
theorem negotiated_offer : Negotiated newStream (M.xidParams newStream) := by
  have hdec : ∀ junk, decodeXid junk (.ofBytes newStreamXid fun _ => 0) 0 newStreamXid.length =
      some (M.xidParams newStream) := by
    intro junk
    rfl
  refine (negotiated_iff newStream _ _ _ _ hdec).mpr ⟨by decide, ?_, ?_, ?_, ?_⟩
  · exact .inl (by decide)
  · exact .inl (by decide)
  · exact .inl (by decide)
  · exact .inl (by decide)

/-- An XID information field with CLASSES only, which are those of the socket. -/
def classesXid : Bytes := [0x82, 0x80, 0x00, 0x04, 0x02, 0x02, 0x21, 0x00]

/-- The size in a CLASSES parameter alone is taken to be 0. -/
theorem not_negotiated_classes : ¬∀ (s : Sock) (params : Params) (data : Mem) (offset len : Nat),
    (∀ junk, decodeXid junk data offset len = some params) → Negotiated s params := by
  intro h
  have hmaxlen := (h newStream { Params.zero with flags := 1 <<< 2, classes := 0x2100 }
    (.ofBytes classesXid fun _ => 0) 0 8 (by intro junk; rfl)).maxlen (by decide)
  revert hmaxlen
  decide

end Patty
