import Patty.Callsign
import Patty.Lib.Bits
import Patty.Lib.Checked

/-! # The text of an address (`ax25.c`)

`patty_ax25_ntop` writes a callsign and, if it is not zero, the number of its SSID. `patty_ax25_pton` reads
what it writes as the same callsign and number, and what `patty_ax25_pton` takes it writes again, if the SSID
is written as it would be (`ntop_pton`). -/

namespace Patty

/-- `expt` -/
def expt (base e : Nat) : Nat := if e = 0 then 1 else (List.range' 1 (e - 1)).foldl (fun ret _ => ret * base) base

/-- `dest[o++] = c` in a buffer of `len` bytes. -/
def ntopPut (len : Nat) (out : Bytes) (c : UInt8) : Except Fault Bytes :=
  if out.length < len then .ok (out ++ [c]) else .error .overrun

/-- The loop of `patty_ax25_ntop` over the octets of the callsign; none if there is no room. -/
def ntopCall (len : Nat) : Bytes → Bytes → Except Fault (Option Bytes)
  | [], out => .ok (some out)
  | b :: bs, out =>
    if out.length = len then .ok none
    else if (b &&& 0xfe) >>> 1 = 0x20 then .ok (some out)
    else do
      let out ← ntopPut len out ((b &&& 0xfe) >>> 1)
      ntopCall len bs out

/-- The loop of `patty_ax25_ntop` over the digits. -/
def ntopDigits (len ssid digits : Nat) (out : Bytes) : Except Fault Bytes :=
  (List.range digits).foldlM (fun out d =>
    let place := expt 10 (digits - d - 1)
    ntopPut len out (UInt8.ofNat (ssid % (place * 10) / place + 0x30))) out

/-- The end of `patty_ax25_ntop`, which stores the terminator. -/
def ntopEnd (len : Nat) (out : Bytes) : Except Fault (Except Errno Bytes) :=
  if len < out.length then .ok (.error .eoverflow)
  else do
    let _ ← ntopPut len out 0
    return .ok out

/-- `patty_ax25_ntop` into a buffer of `len` bytes: what it stores before the terminator. -/
def ntop (addr : Addr) (len : Nat) : Except Fault (Except Errno Bytes) := do
  let ssid := (addrSsidNumber addr.ssid).toNat
  match ← ntopCall len (List.ofFn addr.callsign) [] with
  | none => return .error .eoverflow
  | some out =>
    if ssid ≠ 0 then
      let digits := if 9 < ssid then 2 else 1
      if len < out.length + 1 + digits then return .error .eoverflow
      else
        let out ← ntopPut len out 0x2d
        let out ← ntopDigits len ssid digits out
        ntopEnd len out
    else ntopEnd len out

/-- The digits of an SSID. -/
def ssidDigits (n : Nat) : Bytes :=
  if n = 0 then []
  else if n ≤ 9 then [UInt8.ofNat (n + 0x30)]
  else [UInt8.ofNat (n / 10 + 0x30), UInt8.ofNat (n % 10 + 0x30)]

/-- One to six characters that are no space and no dash. -/
structure Named (name : Bytes) : Prop where
  ne : name ≠ []
  length : name.length ≤ PATTY_AX25_CALLSTRLEN
  chars : ∀ b ∈ name, (0x21 : UInt8) ≤ b ∧ b ≤ 0x7e ∧ b ≠ 0x2d

/-- An address with the characters as its callsign. -/
def Addr.IsCalled (addr : Addr) (name : Bytes) : Prop := ∀ i : Fin 6, addr.callsign i = name.getD i 0x20 <<< 1

variable {name : Bytes} {addr a : Addr} {len n : Nat} {out : Bytes}

/-! ## What it writes -/

theorem ntopPut_eq {c : UInt8} (h : out.length < len) : ntopPut len out c = .ok (out ++ [c]) := if_pos h

theorem shift_back {b : UInt8} (h : b ≤ 0x7e) : ((b <<< 1) &&& 0xfe) >>> 1 = b := by
  have hle : b.toNat ≤ 0x7e := UInt8.le_iff_toNat_le.mp h
  apply UInt8.toNat_inj.mp
  rw [UInt8.toNat_shiftRight, UInt8.toNat_and, UInt8.toNat_shiftLeft]
  refine (Bits.field (b.toNat <<< 1 % 2 ^ 8) 1 7).trans ?_
  rw [Nat.shiftLeft_eq]
  omega

/-- The octets of a callsign are its characters and spaces. -/
theorem Addr.IsCalled.octets (h : addr.IsCalled name) (hlen : name.length ≤ PATTY_AX25_CALLSTRLEN) :
    List.ofFn addr.callsign = name.map (fun b : UInt8 => b <<< 1) ++
      List.replicate (PATTY_AX25_CALLSTRLEN - name.length) ((0x20 : UInt8) <<< 1) := by
  apply List.ext_getElem
  · rw [List.length_ofFn, List.length_append, List.length_map, List.length_replicate]
    exact (Nat.add_sub_of_le hlen).symm
  · intro i h₁ h₂
    rw [List.getElem_ofFn, h]
    by_cases hi : i < name.length
    · rw [List.getElem_append_left (by simpa using hi), List.getElem_map, List.getD_eq_getElem _ _ hi]
    · rw [List.getElem_append_right (by simpa using hi), List.getElem_replicate,
        List.getD_eq_default _ _ (Nat.not_lt.mp hi)]

theorem ntopCall_chars {rest : Bytes} (h : ∀ b ∈ name, (0x21 : UInt8) ≤ b ∧ b ≤ 0x7e)
    (hroom : out.length + name.length ≤ len) :
    ntopCall len (name.map (fun b : UInt8 => b <<< 1) ++ rest) out = ntopCall len rest (out ++ name) := by
  induction name generalizing out with
  | nil => rw [List.map_nil, List.nil_append, List.append_nil]
  | cons b name ih =>
    rw [List.forall_mem_cons] at h
    obtain ⟨⟨hlo, hhi⟩, hname⟩ := h
    rw [List.length_cons] at hroom
    have hspace : b ≠ 0x20 := by
      rintro rfl
      exact absurd hlo (by decide)
    rw [List.map_cons, List.cons_append, ntopCall, if_neg (by omega), shift_back hhi, if_neg hspace,
      ntopPut_eq (by omega), Except.ok_bind, ih hname (by simp; omega), List.append_assoc]
    rfl

theorem ntopCall_called (h : addr.IsCalled name) (hname : Named name) (hlen : 10 ≤ len) :
    ntopCall len (List.ofFn addr.callsign) [] = .ok (some name) := by
  have hsix : name.length ≤ 6 := hname.length
  rw [h.octets hname.length, ntopCall_chars (fun b hb => ⟨(hname.chars b hb).1, (hname.chars b hb).2.1⟩)
    (by simp; omega), List.nil_append]
  cases hrest : PATTY_AX25_CALLSTRLEN - name.length with
  | zero => rfl
  | succ k =>
    rw [List.replicate_succ, ntopCall, if_neg (by omega)]
    rfl

/-- The one or two digits of an SSID. -/
theorem ntopDigits_eq (h0 : n ≠ 0) (hn : n ≤ 15) (hroom : out.length + 2 ≤ len) :
    ntopDigits len n (if 9 < n then 2 else 1) out = .ok (out ++ ssidDigits n) := by
  rw [ntopDigits, ssidDigits, if_neg h0]
  by_cases h9 : n ≤ 9
  · have hdigit : n % (expt 10 (1 - 0 - 1) * 10) / expt 10 (1 - 0 - 1) = n := by
      rw [show expt 10 (1 - 0 - 1) = 1 from rfl]
      omega
    rw [if_neg (Nat.not_lt.mpr h9), if_pos h9, List.range_one, List.foldlM_cons]
    dsimp only
    rw [hdigit, ntopPut_eq (by omega)]
    rfl
  · have htens : n % (expt 10 (2 - 0 - 1) * 10) / expt 10 (2 - 0 - 1) = n / 10 := by
      rw [show expt 10 (2 - 0 - 1) = 10 from rfl]
      omega
    have hones : n % (expt 10 (2 - 1 - 1) * 10) / expt 10 (2 - 1 - 1) = n % 10 := by
      rw [show expt 10 (2 - 1 - 1) = 1 from rfl]
      omega
    rw [if_pos (Nat.not_le.mp h9), if_neg h9, show List.range 2 = [0, 1] from rfl, List.foldlM_cons]
    dsimp only
    rw [htens, ntopPut_eq (by omega), Except.ok_bind, List.foldlM_cons, hones,
      ntopPut_eq (by simp; omega), Except.ok_bind, List.append_assoc]
    rfl

theorem ssidDigits_length (h0 : n ≠ 0) : (ssidDigits n).length = if 9 < n then 2 else 1 := by
  rw [ssidDigits, if_neg h0]
  by_cases h9 : n ≤ 9
  · rw [if_pos h9, if_neg (Nat.not_lt.mpr h9)]
    rfl
  · rw [if_neg h9, if_pos (Nat.not_le.mp h9)]
    rfl

theorem addrSsidNumber_toNat (ssid : UInt8) : (addrSsidNumber ssid).toNat = ssid.toNat / 2 % 16 := by
  rw [addrSsidNumber, UInt8.toNat_shiftRight, UInt8.toNat_and]
  exact Bits.field ssid.toNat 1 4

/-- The text that is written. -/
theorem ntop_called (h : addr.IsCalled name) (hname : Named name) (hlen : 10 ≤ len) :
    ntop addr len = .ok (.ok (Call.text ⟨name, ssidDigits (addrSsidNumber addr.ssid).toNat⟩)) := by
  have hsix : name.length ≤ 6 := hname.length
  have hn : (addrSsidNumber addr.ssid).toNat ≤ 15 := by
    rw [addrSsidNumber_toNat]
    omega
  have hend {out : Bytes} (h : out.length < 10) : ntopEnd len out = .ok (.ok out) := by
    rw [ntopEnd, if_neg (by omega), ntopPut_eq (by omega)]
    rfl
  rw [ntop, ntopCall_called h hname hlen]
  generalize (addrSsidNumber addr.ssid).toNat = n at hn ⊢
  rw [Except.ok_bind]
  dsimp only
  by_cases h0 : n = 0
  · subst h0
    rw [if_neg (not_not_intro rfl), hend (by omega)]
    simp [Call.text, ssidDigits]
  · have hdigits : (if 9 < n then 2 else 1) ≤ 2 := by split <;> omega
    have hcount := ssidDigits_length h0
    have hne : (ssidDigits n).isEmpty = false := by
      rw [← Bool.not_eq_true, List.isEmpty_iff]
      intro hnil
      rw [hnil, List.length_nil] at hcount
      split at hcount <;> cases hcount
    rw [if_pos h0, if_neg (by omega), ntopPut_eq (by omega), Except.ok_bind,
      ntopDigits_eq h0 hn (by simp; omega), Except.ok_bind, hend (by simp [hcount]; omega), Call.text, hne,
      List.append_assoc]
    rfl

/-! ## Back and forth -/

theorem ssidDigits_value : ∀ n ≤ 15, (ssidDigits n).foldl (fun n d => n * 10 + (d - 0x30).toNat) 0 = n ∧
    (ssidDigits n).length ≤ 2 ∧ ∀ d ∈ ssidDigits n, 0x30 ≤ d ∧ d ≤ 0x39 := by
  decide +kernel

/-- What is written is the text of a callsign. -/
theorem Named.spelled (h : Named name) (hn : n ≤ 15) : Call.Spelled ⟨name, ssidDigits n⟩ := by
  obtain ⟨hvalue, hcount, hdigits⟩ := ssidDigits_value n hn
  refine ⟨⟨h.length, fun b hb => ?_, hcount, hdigits, hvalue.le.trans hn⟩, h.ne⟩
  obtain ⟨hlo, hhi, hdash⟩ := h.chars b hb
  have hspace : (0x20 : UInt8) ≤ b := UInt8.le_trans (show (0x20 : UInt8) ≤ 0x21 by decide) hlo
  exact ⟨by simp [addrCharValid, hspace, hhi], hdash⟩

theorem addrSsidNumber_ofNat : ∀ n ≤ 15, (addrSsidNumber (UInt8.ofNat (n <<< 1))).toNat = n := by decide

/-- The text read back is an address with the same callsign and the same number. -/
theorem pton_ntop (h : addr.IsCalled name) (hname : Named name) (hlen : 10 ≤ len) (addr₀ : Addr) : ∃ text a,
    ntop addr len = .ok (.ok text) ∧ ptonResult text addr₀ = .ok a ∧ a.callsign = addr.callsign ∧
      addrSsidNumber a.ssid = addrSsidNumber addr.ssid := by
  have hn : (addrSsidNumber addr.ssid).toNat ≤ 15 := by
    rw [addrSsidNumber_toNat]
    omega
  have hspelled := hname.spelled hn
  refine ⟨_, Call.addr ⟨name, ssidDigits (addrSsidNumber addr.ssid).toNat⟩, ntop_called h hname hlen, ?_, ?_, ?_⟩
  · rw [ptonResult, pton_scans hspelled.toScans (Call.text_ne hspelled.ne)]
  · funext i
    exact (h i).symm
  · apply UInt8.toNat_inj.mp
    rw [Call.addr, Call.ssid, (ssidDigits_value _ hn).1]
    exact addrSsidNumber_ofNat _ hn

/-- The characters before the dash. -/
def callPart (text : Bytes) : Bytes := text.takeWhile (· != 0x2d)

/-- What follows the dash, if there is one. -/
def ssidPart (text : Bytes) : Bytes := (text.dropWhile (· != 0x2d)).tail

/-- A callsign of one to six characters that are no spaces, and an SSID that is not written if it is zero and
has no leading zero. -/
structure Canonical (text : Bytes) : Prop where
  length : text.length ≤ PATTY_AX25_ADDRSTRLEN
  ne : callPart text ≠ []
  call : (callPart text).length ≤ PATTY_AX25_CALLSTRLEN
  space : 0x20 ∉ callPart text
  ssid : (ssidPart text).head? ≠ some 0x30

theorem digit_eq {d : UInt8} (h : 0x30 ≤ d ∧ d ≤ 0x39) :
    (d - 0x30).toNat ≤ 9 ∧ UInt8.ofNat ((d - 0x30).toNat + 0x30) = d := by
  have hlo : 0x30 ≤ d.toNat := UInt8.le_iff_toNat_le.mp h.1
  have hhi : d.toNat ≤ 0x39 := UInt8.le_iff_toNat_le.mp h.2
  have hsub : (d - 0x30).toNat = d.toNat - 0x30 := UInt8.toNat_sub_of_le _ _ h.1
  rw [hsub, Nat.sub_add_cancel hlo]
  exact ⟨by omega, UInt8.ofNat_toNat⟩

/-- Digits without a leading zero are those of their value. -/
theorem ssidDigits_eq {ds : Bytes} (hcount : ds.length ≤ 2) (hds : ∀ d ∈ ds, 0x30 ≤ d ∧ d ≤ 0x39)
    (hzero : ds.head? ≠ some 0x30) : ssidDigits (ds.foldl (fun n d => n * 10 + (d - 0x30).toNat) 0) = ds := by
  have hfirst {d : UInt8} (hd : 0x30 ≤ d ∧ d ≤ 0x39) (hne : d ≠ 0x30) : (d - 0x30).toNat ≠ 0 := by
    intro h0
    have hback := (digit_eq hd).2
    rw [h0] at hback
    exact hne hback.symm
  match ds with
  | [] => rfl
  | [d] =>
    have hd := hds d (by simp)
    obtain ⟨hle, hback⟩ := digit_eq hd
    have h0 := hfirst hd fun h => hzero (congrArg some h)
    rw [List.foldl_cons, List.foldl_nil, Nat.zero_mul, Nat.zero_add, ssidDigits, if_neg h0, if_pos hle, hback]
  | [d, e] =>
    have hd := hds d (by simp)
    obtain ⟨-, hback⟩ := digit_eq hd
    obtain ⟨hle, hback'⟩ := digit_eq (hds e (by simp))
    have h0 := hfirst hd fun h => hzero (congrArg some h)
    rw [List.foldl_cons, List.foldl_cons, List.foldl_nil, Nat.zero_mul, Nat.zero_add, ssidDigits, if_neg (by omega),
      if_neg (by omega)]
    generalize (d - 0x30).toNat = k at hback ⊢
    generalize (e - 0x30).toNat = j at hle hback' ⊢
    rw [show (k * 10 + j) / 10 = k by omega, show (k * 10 + j) % 10 = j by omega, hback, hback']
  | _ :: _ :: _ :: _ => simp at hcount

/-- The parts of the text of a callsign. -/
theorem parts_text {c : Call} (h : c.Scans) : callPart c.text = c.name ∧ ssidPart c.text = c.digits := by
  have hname : ∀ b ∈ c.name, (b != 0x2d) = true := fun b hb => by simpa using (h.chars b hb).2
  rw [callPart, ssidPart, Call.text, List.takeWhile_append_of_pos hname, List.dropWhile_append_of_pos hname]
  split
  · rename_i hnil
    rw [List.isEmpty_iff.mp hnil]
    exact ⟨List.append_nil _, rfl⟩
  · exact ⟨List.append_nil _, rfl⟩

/-- A text that is taken is written again. -/
theorem ntop_pton_text {text : Bytes} {addr₀ : Addr} (h : Canonical text) (hpton : ptonResult text addr₀ = .ok a)
    (hlen : 10 ≤ len) : ntop a len = .ok (.ok text) := by
  have hsome : pton text addr₀ = some a := by
    rw [ptonResult] at hpton
    split at hpton
    · cases hpton
      assumption
    · cases hpton
  obtain ⟨c, htext, hne, hshape⟩ := text_of_pton hsome
  rw [List.take_of_length_le h.length] at htext
  subst htext
  have hc : c.Scans := by
    rcases hshape with hc | ⟨hseven, hdigits, hchars⟩
    · exact hc
    · have hall : ∀ b ∈ c.text, (b != 0x2d) = true := by
        intro b hb
        rw [Call.text, hdigits, List.isEmpty_nil, if_pos rfl, List.append_nil] at hb
        simpa using (callChar_iff.mp (hchars b hb)).2
      have hcall := h.call
      rw [callPart, List.takeWhile_eq_self_iff.mpr hall, c.length_text_eq, hdigits, hseven] at hcall
      exact absurd hcall (by decide)
  obtain ⟨hcall, hssid⟩ := parts_text hc
  rw [pton_scans hc hne] at hsome
  cases hsome
  have hname : Named c.name := by
    refine ⟨hcall ▸ h.ne, hc.length, fun b hb => ?_⟩
    obtain ⟨hvalid, hdash⟩ := hc.chars b hb
    simp only [addrCharValid, Bool.and_eq_true, decide_eq_true_eq] at hvalid
    have hspace : b ≠ 0x20 := by
      rintro rfl
      exact h.space (hcall.symm ▸ hb)
    have hlo : 0x20 ≤ b.toNat := UInt8.le_iff_toNat_le.mp hvalid.1
    have hne : b.toNat ≠ 0x20 := fun heq => hspace (UInt8.toNat_inj.mp heq)
    exact ⟨UInt8.le_iff_toNat_le.mpr (Nat.lt_of_le_of_ne hlo hne.symm), hvalid.2, hdash⟩
  have hcalled : c.addr.IsCalled c.name := fun _ => rfl
  rw [ntop_called hcalled hname hlen]
  have hnumber : (addrSsidNumber c.addr.ssid).toNat = c.ssid := addrSsidNumber_ofNat _ hc.ssid
  rw [hnumber, Call.ssid, ssidDigits_eq hc.count hc.digits (hssid ▸ h.ssid)]

/-- Both ways between addresses and their text. -/
theorem ntop_pton : (∀ (addr addr₀ : Addr) (name : Bytes) (len : Nat), addr.IsCalled name → Named name → 10 ≤ len →
      ∃ text a, ntop addr len = .ok (.ok text) ∧ ptonResult text addr₀ = .ok a ∧ a.callsign = addr.callsign ∧
        addrSsidNumber a.ssid = addrSsidNumber addr.ssid) ∧
    ∀ (text : Bytes) (addr₀ a : Addr) (len : Nat), Canonical text → ptonResult text addr₀ = .ok a → 10 ≤ len →
      ntop a len = .ok (.ok text) :=
  ⟨fun _ addr₀ _ _ h hname hlen => pton_ntop h hname hlen addr₀,
    fun _ _ _ _ h hpton hlen => ntop_pton_text h hpton hlen⟩

/-- The address of N0CALL-15, and its text. -/
theorem ntop_pton_sample : (∃ text a, ntop ⟨fun i => [0x9c, 0x60, 0x86, 0x82, 0x98, 0x98].getD i 0, 0xfe⟩ 10 =
      .ok (.ok text) ∧ ptonResult text .zero = .ok a ∧ addrSsidNumber a.ssid = 15) ∧
    ntop (Call.addr ⟨[0x41], [0x37]⟩) 10 = .ok (.ok [0x41, 0x2d, 0x37]) := by
  constructor
  · obtain ⟨text, a, htext, ha, -, hssid⟩ := ntop_pton.1
      ⟨fun i => [0x9c, 0x60, 0x86, 0x82, 0x98, 0x98].getD i 0, 0xfe⟩ .zero [0x4e, 0x30, 0x43, 0x41, 0x4c, 0x4c] 10
      (by unfold Addr.IsCalled; decide) ⟨by decide, by decide, by simp⟩ (by decide)
    exact ⟨text, a, htext, ha, hssid⟩
  · have hpton : ptonResult [0x41, 0x2d, 0x37] .zero = .ok (Call.addr ⟨[0x41], [0x37]⟩) := by
      have hscans : Call.Scans ⟨[0x41], [0x37]⟩ := ⟨by decide, by simp [addrCharValid], by decide, by simp, by decide⟩
      rw [ptonResult, show ([0x41, 0x2d, 0x37] : Bytes) = Call.text ⟨[0x41], [0x37]⟩ from rfl,
        pton_scans hscans (by decide)]
    exact ntop_pton.2 [0x41, 0x2d, 0x37] .zero (Call.addr ⟨[0x41], [0x37]⟩) 10
      ⟨by decide, by decide, by decide, by decide, by decide⟩ hpton (by decide)

end Patty
