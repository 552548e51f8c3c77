import Patty.Ax25

/-! # Callsigns as text

The text of a callsign in the header of an APRS-IS packet, and that `patty_ax25_pton` makes its address
of it (`pton_text`). -/

namespace Patty

/-- The characters that a header is divided by. -/
def separators : Bytes := [0x23, 0x2c, 0x3a, 0x3e]

/-- A callsign with the digits of its SSID, which may be missing. -/
structure Call where
  name : Bytes
  digits : Bytes

namespace Call

def ssid (c : Call) : Nat := c.digits.foldl (fun n d => n * 10 + (d - 0x30).toNat) 0

def text (c : Call) : Bytes := c.name ++ if c.digits.isEmpty then [] else 0x2d :: c.digits

structure Valid (c : Call) : Prop where
  ne : c.name ≠ []
  length : c.name.length ≤ PATTY_AX25_CALLSTRLEN
  chars : ∀ b ∈ c.name, addrCharValid b ∧ b ∉ separators ∧ b ≠ 0x2d
  count : c.digits.length ≤ 2
  digits : ∀ d ∈ c.digits, 0x30 ≤ d ∧ d ≤ 0x39
  ssid : c.ssid ≤ 15

/-- What `patty_ax25_pton` reads without leaving the callsign, also without a character before the dash. -/
structure Scans (c : Call) : Prop where
  length : c.name.length ≤ PATTY_AX25_CALLSTRLEN
  chars : ∀ b ∈ c.name, addrCharValid b ∧ b ≠ 0x2d
  count : c.digits.length ≤ 2
  digits : ∀ d ∈ c.digits, 0x30 ≤ d ∧ d ≤ 0x39
  ssid : c.ssid ≤ 15

theorem Valid.scans {c : Call} (h : c.Valid) : c.Scans where
  length := h.length
  chars b hb := ⟨(h.chars b hb).1, (h.chars b hb).2.2⟩
  count := h.count
  digits := h.digits
  ssid := h.ssid

/-- The address that it is the text of. -/
def addr (c : Call) : Addr where
  callsign := fun i => c.name.getD i 0x20 <<< 1
  ssid := UInt8.ofNat (c.ssid <<< 1)

end Call

theorem addrCharValid_and {c : UInt8} (h : addrCharValid c) : c &&& 0x7f = c := by
  have hle : c.toNat ≤ 0x7e := by
    simp only [addrCharValid, Bool.and_eq_true, decide_eq_true_eq] at h
    exact UInt8.le_iff_toNat_le.mp h.2
  apply UInt8.toNat_inj.mp
  rw [UInt8.toNat_and]
  exact (Nat.and_two_pow_sub_one_eq_mod _ 7).trans (Nat.mod_eq_of_lt (by omega))

theorem shift_ne_zero {c : UInt8} (h : addrCharValid c) : c <<< 1 ≠ 0 := by
  simp only [addrCharValid, Bool.and_eq_true, decide_eq_true_eq] at h
  obtain ⟨hlo, hhi⟩ := h
  have hlo' : 0x20 ≤ c.toNat := UInt8.le_iff_toNat_le.mp hlo
  have hhi' : c.toNat ≤ 0x7e := UInt8.le_iff_toNat_le.mp hhi
  have hval : (c <<< 1).toNat = c.toNat * 2 % 256 := by
    rw [UInt8.toNat_shiftLeft]
    exact congrArg (· % 256) (Nat.shiftLeft_eq ..)
  intro hz
  rw [hz] at hval
  have : (0 : UInt8).toNat = 0 := rfl
  omega

/-- The characters of a callsign. -/
theorem foldlM_name {p : Pton} {name : Bytes} (hp : p.inSsid = false)
    (hlen : p.o + name.length ≤ PATTY_AX25_CALLSTRLEN)
    (hchars : ∀ b ∈ name, addrCharValid b ∧ b ≠ 0x2d) : ∃ q, name.foldlM Pton.step p = some q ∧
      q.inSsid = false ∧ q.o = p.o + name.length ∧ q.digits = p.digits ∧ q.ssid = p.ssid ∧
      ∀ i, q.addr.callsign i = if p.o ≤ i.val ∧ i.val < p.o + name.length
        then name.getD (i - p.o) 0x20 <<< 1 else p.addr.callsign i := by
  induction name generalizing p with
  | nil => exact ⟨p, rfl, hp, rfl, rfl, rfl, fun i => (if_neg (by simp)).symm⟩
  | cons b name ih =>
    rw [List.forall_mem_cons] at hchars
    obtain ⟨⟨hvalid, hdash⟩, hchars⟩ := hchars
    rw [List.length_cons] at hlen
    have hstep : p.step b = some { p with
        o := p.o + 1
        addr := { p.addr with callsign := fun i => if i.val = p.o then b <<< 1 else p.addr.callsign i } } := by
      rw [Pton.step, hp]
      simp only [Bool.false_eq_true, if_false]
      rw [if_neg (by omega), if_neg hdash, if_pos hvalid, addrCharValid_and hvalid, if_neg (by omega)]
    have hroom : p.o + 1 + name.length ≤ PATTY_AX25_CALLSTRLEN := by omega
    obtain ⟨q, hq, hin, ho, hdigits, hssid, hcall⟩ := @ih { p with
        o := p.o + 1
        addr := { p.addr with callsign := fun i => if i.val = p.o then b <<< 1 else p.addr.callsign i } }
      hp hroom hchars
    refine ⟨q, by rw [List.foldlM_cons, hstep]; exact hq, hin, ?_, hdigits, hssid, fun i => ?_⟩
    · rw [ho, List.length_cons]
      dsimp only
      omega
    · rw [hcall i, List.length_cons]
      dsimp only
      by_cases hi : i.val = p.o
      · rw [if_neg (by omega), if_pos hi, if_pos (by omega), hi, Nat.sub_self]
        rfl
      · by_cases hin : p.o + 1 ≤ i.val ∧ i.val < p.o + 1 + name.length
        · rw [if_pos hin, if_pos (by omega), show i.val - p.o = i.val - (p.o + 1) + 1 by omega]
          rfl
        · rw [if_neg hin, if_neg hi, if_neg (by omega)]

/-- The digits of an SSID. -/
theorem foldlM_digits {p : Pton} {digits : Bytes} (hp : p.inSsid = true)
    (hlen : p.digits + digits.length ≤ 2) (hdigits : ∀ d ∈ digits, 0x30 ≤ d ∧ d ≤ 0x39) :
    ∃ q, digits.foldlM Pton.step p = some q ∧ q.o = p.o ∧ q.addr = p.addr ∧
      q.ssid = digits.foldl (fun n d => n * 10 + (d - 0x30).toNat) p.ssid := by
  induction digits generalizing p with
  | nil => exact ⟨p, rfl, rfl, rfl, rfl⟩
  | cons d digits ih =>
    rw [List.forall_mem_cons] at hdigits
    rw [List.length_cons] at hlen
    have hdigit : (0x30 ≤ d && d ≤ 0x39) = true := by simpa using hdigits.1
    have hstep : p.step d = some { p with
        ssid := p.ssid * 10 + (d - 0x30).toNat, digits := p.digits + 1 } := by
      rw [Pton.step, if_pos hp, if_neg (by omega), if_pos hdigit]
    have hroom : p.digits + 1 + digits.length ≤ 2 := by omega
    obtain ⟨q, hq, h⟩ := @ih { p with ssid := p.ssid * 10 + (d - 0x30).toNat, digits := p.digits + 1 }
      hp hroom hdigits.2
    exact ⟨q, by rw [List.foldlM_cons, hstep]; exact hq, h⟩

variable {c : Call}

theorem Call.Scans.length_text (h : c.Scans) : c.text.length ≤ PATTY_AX25_ADDRSTRLEN := by
  have hlen : c.name.length ≤ 6 := h.length
  have hcount := h.count
  rw [Call.text, List.length_append]
  split
  · rw [List.length_nil]
    exact (Nat.add_zero _).le.trans (hlen.trans (by decide))
  · rw [List.length_cons]
    show c.name.length + (c.digits.length + 1) ≤ 9
    omega

theorem Call.text_ne (h : c.name ≠ []) : c.text ≠ [] := by simp [Call.text, h]

/-- The last character is not the dash. -/
theorem Call.Scans.getLast (h : c.Scans) : c.text.getLast? ≠ some 0x2d := by
  intro hlast
  have hmem := List.mem_of_getLast? hlast
  rw [Call.text] at hlast hmem
  split at hlast
  · rename_i hempty
    rw [List.append_nil] at hlast
    exact (h.chars _ (List.mem_of_getLast? hlast)).2 rfl
  · rename_i hne
    rw [List.isEmpty_iff] at hne
    obtain ⟨init, d, hd⟩ := List.eq_nil_or_concat c.digits |>.resolve_left hne
    rw [List.concat_eq_append] at hd
    rw [hd, ← List.cons_append, ← List.append_assoc, List.getLast?_concat] at hlast
    have hrange := h.digits d (by simp [hd])
    rw [Option.some.inj hlast] at hrange
    exact absurd hrange.1 (by decide)

theorem step_dash {p : Pton} (hp : p.inSsid = false) (ho : p.o ≤ PATTY_AX25_CALLSTRLEN) :
    p.step 0x2d = some { p with inSsid := true } := by
  rw [Pton.step, hp]
  simp only [Bool.false_eq_true, if_false]
  rw [if_neg (by omega)]
  rfl

theorem foldlM_text (h : c.Scans) (a : Addr) : ∃ p : Pton,
    c.text.foldlM Pton.step ⟨false, 0, 0, 0, a⟩ = some p ∧ p.o = c.name.length ∧ p.ssid = c.ssid ∧
      ∀ i : Fin 6, i.val < c.name.length → p.addr.callsign i = c.name.getD i 0x20 <<< 1 := by
  have hlen : 0 + c.name.length ≤ PATTY_AX25_CALLSTRLEN := (Nat.zero_add _).le.trans h.length
  obtain ⟨q, hq, hin, ho, hdigits, hssid, hcall⟩ := @foldlM_name ⟨false, 0, 0, 0, a⟩ c.name rfl hlen h.chars
  rw [Nat.zero_add] at ho
  have hname (i : Fin 6) (hi : i.val < c.name.length) : q.addr.callsign i = c.name.getD i 0x20 <<< 1 := by
    rw [hcall i]
    exact if_pos ⟨Nat.zero_le _, by simpa using hi⟩
  rw [Call.text, List.foldlM_append, hq]
  split
  · rename_i hempty
    have hzero : c.ssid = 0 := by
      rw [Call.ssid, List.isEmpty_iff.mp hempty]
      rfl
    exact ⟨q, rfl, ho, hssid.trans hzero.symm, hname⟩
  · have hroom : q.digits + c.digits.length ≤ 2 := by
      rw [hdigits]
      exact (Nat.zero_add _).le.trans h.count
    obtain ⟨p, hp, ho', haddr, hssid'⟩ := @foldlM_digits { q with inSsid := true } c.digits rfl hroom h.digits
    refine ⟨p, ?_, ho'.trans ho, ?_, fun i hi => ?_⟩
    · rw [Option.bind_eq_bind, Option.bind_some, List.foldlM_cons, step_dash hin (ho.le.trans h.length)]
      exact hp
    · rw [hssid']
      dsimp only
      rw [hssid]
      rfl
    · rw [haddr]
      exact hname i hi

theorem pton_scans (h : c.Scans) (htext : c.text ≠ []) (a : Addr) : pton c.text a = some c.addr := by
  obtain ⟨p, hp, ho, hssid, hcall⟩ := foldlM_text h a
  have htake : c.text.take PATTY_AX25_ADDRSTRLEN = c.text := List.take_of_length_le h.length_text
  have hne : c.text.isEmpty = false := by simpa using htext
  have hle := h.ssid
  rw [pton, htake, hne]
  simp only [Bool.false_eq_true, if_false, hp]
  rw [if_neg (by omega), if_neg h.getLast, Call.addr]
  congr 2
  · funext i
    split
    · exact hcall i (by omega)
    · rw [List.getD_eq_default _ _ (by omega)]
  · rw [hssid, show c.ssid &&& 0x0f = c.ssid from
      (Nat.and_two_pow_sub_one_eq_mod _ 4).trans (Nat.mod_eq_of_lt (by omega))]

/-- `patty_ax25_pton` takes the text of a callsign. -/
theorem pton_text (h : c.Valid) (a : Addr) : pton c.text a = some c.addr := pton_scans h.scans (Call.text_ne h.ne) a

/-- An address that was read is set. -/
theorem pton_isSet {text : Bytes} {a b : Addr} (h : pton text a = some b) : b.isSet := by
  have hinv : ∀ (cs : Bytes) (p q : Pton), cs.foldlM Pton.step p = some q →
      (0 < p.o → p.addr.callsign 0 ≠ 0) → 0 < q.o → q.addr.callsign 0 ≠ 0 := by
    intro cs
    induction cs with
    | nil =>
      intro p q hq hp
      cases hq
      exact hp
    | cons c cs ih =>
      intro p q hq hp
      rw [List.foldlM_cons, Option.bind_eq_bind, Option.bind_eq_some_iff] at hq
      obtain ⟨p', hp', hq⟩ := hq
      refine ih p' q hq ?_
      rw [Pton.step] at hp'
      split_ifs at hp' with hin hd hdigit hlen hdash hvalid hsix <;> cases hp'
      · exact hp
      · exact hp
      · exact fun _ => hp (by rw [hsix]; decide)
      · intro _
        dsimp only
        split
        · rw [addrCharValid_and hvalid]
          exact shift_ne_zero hvalid
        · rename_i hne
          exact hp (Nat.pos_of_ne_zero fun hz => hne hz.symm)
  rw [pton] at h
  split at h
  · cases h
  split at h
  · cases h
  · rename_i p hp
    split_ifs at h
    cases h
    have := hinv _ _ _ hp fun hlt => absurd hlt (Nat.lt_irrefl 0)
    simp only [Addr.isSet, Fin.val_zero, bne_iff_ne]
    split
    · exact this ‹_›
    · decide

/-- Whether an address is taken does not depend on what was there before. -/
theorem pton_isNone (text : Bytes) (a b : Addr) : (pton text a).isNone = (pton text b).isNone := by
  have hinv : ∀ (cs : Bytes) (p q : Pton), (p.inSsid, p.o, p.digits, p.ssid) = (q.inSsid, q.o, q.digits, q.ssid) →
      (cs.foldlM Pton.step p).map (·.ssid) = (cs.foldlM Pton.step q).map (·.ssid) := by
    intro cs
    induction cs with
    | nil =>
      intro p q h
      simp only [Prod.mk.injEq] at h
      exact congrArg some h.2.2.2
    | cons c cs ih =>
      intro p q h
      have h' := h
      simp only [Prod.mk.injEq] at h'
      obtain ⟨hin, ho, hd, hs⟩ := h'
      rw [List.foldlM_cons, List.foldlM_cons, Pton.step, Pton.step, hin, ho, hd, hs]
      split_ifs
      · rfl
      · exact ih _ _ rfl
      · rfl
      · rfl
      · exact ih _ _ rfl
      · exact ih _ _ rfl
      · exact ih _ _ rfl
      · rfl
  have hssid := hinv (text.take PATTY_AX25_ADDRSTRLEN) ⟨false, 0, 0, 0, a⟩ ⟨false, 0, 0, 0, b⟩ rfl
  rw [pton, pton]
  generalize (text.take PATTY_AX25_ADDRSTRLEN).foldlM Pton.step ⟨false, 0, 0, 0, a⟩ = r at hssid ⊢
  generalize (text.take PATTY_AX25_ADDRSTRLEN).foldlM Pton.step ⟨false, 0, 0, 0, b⟩ = r' at hssid ⊢
  cases r with
  | none =>
    cases r' with
    | none => rfl
    | some q => cases hssid
  | some p =>
    cases r' with
    | none => cases hssid
    | some q =>
      have hpq : p.ssid = q.ssid := Option.some.inj hssid
      dsimp only
      rw [hpq]
      split_ifs <;> rfl

end Patty
