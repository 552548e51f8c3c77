import Mathlib.Data.List.TakeWhile
import Patty.AprsIs.Calls
import Patty.Basic

/-! # What is taken for a callsign (`ax25.c`)

A callsign has one to six characters and may have an SSID. `patty_ax25_pton` looks at the first nine
characters only, takes an SSID without a callsign, and stores a seventh character of a callsign where the SSID
is (`pton_iff`). -/

namespace Patty

/-- `patty_ax25_pton` with its error. Each way it fails is by `error_invalid_callsign`. -/
def ptonResult (callsign : Bytes) (addr : Addr) : Except Errno Addr :=
  match pton callsign addr with
  | some addr => .ok addr
  | none => .error .einval

/-- Where the loop of `patty_ax25_pton` stores in the callsign. -/
def Pton.stores (p : Pton) : Bytes → List Nat
  | [] => []
  | c :: cs =>
    match p.step c with
    | none => []
    | some q => if p.o < q.o then p.o :: q.stores cs else q.stores cs

/-- Where `patty_ax25_pton` stores in the callsign: the characters, and if it succeeds the spaces. -/
def ptonStores (callsign : Bytes) (addr : Addr) : List Nat :=
  let cs := callsign.take PATTY_AX25_ADDRSTRLEN
  let p : Pton := ⟨false, 0, 0, 0, addr⟩
  p.stores cs ++
    match cs.foldlM Pton.step p, pton callsign addr with
    | some q, some _ => List.range' q.o (PATTY_AX25_CALLSTRLEN - q.o)
    | _, _ => []

/-- A callsign of one to six characters, and an SSID from 0 to 15 if it has digits. -/
structure Call.Spelled (c : Call) : Prop extends c.Scans where
  ne : c.name ≠ []

/-- The text is taken if it is that of a callsign, and refused if not. -/
structure Parses (text : Bytes) (addr : Addr) : Prop where
  taken : ∀ c : Call, c.Spelled → c.text = text →
    ptonResult text addr = .ok c.addr ∧ ∀ o ∈ ptonStores text addr, o < PATTY_AX25_CALLSTRLEN
  refused : (∀ c : Call, c.Spelled → c.text ≠ text) → ptonResult text addr = .error .einval

/-- A character of a callsign. -/
def callChar (c : UInt8) : Bool := addrCharValid c && c != 0x2d

/-- The text is no seven characters of a callsign, no SSID alone, and no callsign of nine characters with more
behind it. -/
structure Plain (text : Bytes) : Prop where
  seven : ¬(text.length = 7 ∧ ∀ c ∈ text, callChar c)
  alone : ∀ c : Call, c.Scans → c.name = [] → c.digits ≠ [] → c.text ≠ text
  long : PATTY_AX25_ADDRSTRLEN < text.length → ∀ c : Call, c.Spelled → c.text.length = PATTY_AX25_ADDRSTRLEN →
    c.text ≠ text.take PATTY_AX25_ADDRSTRLEN

variable {text : Bytes} {addr a : Addr} {p q : Pton} {c : Call}

theorem callChar_iff {b : UInt8} : callChar b ↔ addrCharValid b ∧ b ≠ 0x2d := by
  simp [callChar]

/-! ## What the scan takes -/

theorem step_char {b : UInt8} (hp : p.inSsid = false) (hdash : b ≠ 0x2d) (h : p.step b = some q) :
    addrCharValid b ∧ p.o ≤ PATTY_AX25_CALLSTRLEN ∧ q.inSsid = false ∧ q.o = p.o + 1 ∧ q.digits = p.digits ∧
      q.ssid = p.ssid := by
  rw [Pton.step, hp, if_neg Bool.false_ne_true, if_neg hdash] at h
  split at h
  · cases h
  · rename_i hroom
    split at h
    · rename_i hvalid
      cases h
      exact ⟨hvalid, Nat.not_lt.mp hroom, rfl, rfl, rfl, rfl⟩
    · cases h

theorem step_digit {d : UInt8} (hp : p.inSsid) (h : p.step d = some q) : (0x30 ≤ d ∧ d ≤ 0x39) ∧ p.digits ≠ 2 ∧
    q.inSsid ∧ q.o = p.o ∧ q.digits = p.digits + 1 ∧ q.ssid = p.ssid * 10 + (d - 0x30).toNat := by
  rw [Pton.step, if_pos hp] at h
  split_ifs at h with hfull hdigit
  cases h
  exact ⟨by simpa using hdigit, hfull, hp, rfl, rfl, rfl⟩

theorem digits_of_foldlM {ds : Bytes} (hp : p.inSsid) (hcount : p.digits ≤ 2) (h : ds.foldlM Pton.step p = some q) :
    p.digits + ds.length ≤ 2 ∧ (∀ d ∈ ds, 0x30 ≤ d ∧ d ≤ 0x39) ∧
      q.ssid = ds.foldl (fun n d => n * 10 + (d - 0x30).toNat) p.ssid := by
  induction ds generalizing p with
  | nil =>
    cases h
    exact ⟨hcount, by simp, rfl⟩
  | cons d ds ih =>
    rw [List.foldlM_cons, Option.bind_eq_bind, Option.bind_eq_some_iff] at h
    obtain ⟨p', hstep, h⟩ := h
    obtain ⟨hdigit, hfull, hp', -, hnext, hssid⟩ := step_digit hp hstep
    obtain ⟨hlen, hds, hq⟩ := ih hp' (by omega) h
    rw [List.forall_mem_cons, List.length_cons, List.foldl_cons, ← hssid]
    exact ⟨by omega, ⟨hdigit, hds⟩, hq⟩

/-- The characters that are taken, up to the end or to a dash. -/
theorem split_of_foldlM {cs : Bytes} (hp : p.inSsid = false) (hdigits : p.digits = 0)
    (hroom : p.o ≤ PATTY_AX25_CALLSTRLEN + 1) (h : cs.foldlM Pton.step p = some q) :
    ∃ name, (∀ b ∈ name, addrCharValid b ∧ b ≠ 0x2d) ∧
      ((cs = name ∧ p.o + name.length ≤ PATTY_AX25_CALLSTRLEN + 1) ∨
        ∃ ds, cs = name ++ 0x2d :: ds ∧ p.o + name.length ≤ PATTY_AX25_CALLSTRLEN ∧ ds.length ≤ 2 ∧
          (∀ d ∈ ds, 0x30 ≤ d ∧ d ≤ 0x39) ∧ q.ssid = ds.foldl (fun n d => n * 10 + (d - 0x30).toNat) p.ssid) := by
  induction cs generalizing p with
  | nil => exact ⟨[], by simp, .inl ⟨rfl, hroom⟩⟩
  | cons b cs ih =>
    rw [List.foldlM_cons, Option.bind_eq_bind, Option.bind_eq_some_iff] at h
    obtain ⟨p', hstep, h⟩ := h
    by_cases hdash : b = 0x2d
    · subst hdash
      have hle : p.o ≤ PATTY_AX25_CALLSTRLEN := by
        by_contra hlt
        rw [Pton.step, hp, if_neg Bool.false_ne_true, if_pos (Nat.not_le.mp hlt)] at hstep
        cases hstep
      rw [step_dash hp hle] at hstep
      cases hstep
      obtain ⟨hlen, hds⟩ := digits_of_foldlM (p := { p with inSsid := true }) rfl (by simp [hdigits]) h
      exact ⟨[], by simp, .inr ⟨cs, rfl, hle, by simpa [hdigits] using hlen, hds⟩⟩
    · obtain ⟨hvalid, hle, hp', ho, hdigits', hssid⟩ := step_char hp hdash hstep
      obtain ⟨name, hchars, hshape⟩ := ih hp' (hdigits'.trans hdigits) (ho.le.trans (Nat.succ_le_succ hle)) h
      refine ⟨b :: name, List.forall_mem_cons.mpr ⟨⟨hvalid, hdash⟩, hchars⟩, ?_⟩
      rw [ho, hssid] at hshape
      rw [List.length_cons, Nat.add_comm name.length, ← Nat.add_assoc]
      rcases hshape with ⟨rfl, hlen⟩ | ⟨ds, rfl, hrest⟩
      · exact .inl ⟨rfl, hlen⟩
      · exact .inr ⟨ds, rfl, hrest⟩

/-- What `patty_ax25_pton` takes is the text of a callsign that may have seven characters or none. -/
theorem text_of_pton (h : pton text addr = some a) : ∃ c : Call, c.text = text.take PATTY_AX25_ADDRSTRLEN ∧
    c.text ≠ [] ∧ (c.Scans ∨ c.name.length = 7 ∧ c.digits = [] ∧ ∀ b ∈ c.name, callChar b) := by
  rw [pton] at h
  generalize text.take PATTY_AX25_ADDRSTRLEN = cs at h ⊢
  split at h
  · cases h
  · rename_i hne
    split at h
    · cases h
    · rename_i q hq
      split_ifs at h with hssid hlast
      have hcs : cs ≠ [] := fun hnil => hne (List.isEmpty_iff.mpr hnil)
      obtain ⟨name, hchars, ⟨rfl, hlen⟩ | ⟨ds, rfl, hlen, hcount, hds, hvalue⟩⟩ :=
        split_of_foldlM rfl rfl (Nat.zero_le _) hq
      · refine ⟨⟨cs, []⟩, by simp [Call.text], by simpa [Call.text] using hcs, ?_⟩
        rw [Nat.zero_add] at hlen
        rcases Nat.le_succ_iff.mp hlen with hlen | hseven
        · exact .inl ⟨hlen, hchars, by simp, by simp, Nat.zero_le _⟩
        · exact .inr ⟨hseven, rfl, fun b hb => callChar_iff.mpr (hchars b hb)⟩
      · have hdigits : ds ≠ [] := by
          rintro rfl
          exact hlast List.getLast?_concat
        refine ⟨⟨name, ds⟩, by simp [Call.text, hdigits], by simp [Call.text, hdigits], .inl ?_⟩
        exact ⟨(Nat.zero_add _).symm.le.trans hlen, hchars, hcount, hds, hvalue.symm.le.trans (Nat.not_lt.mp hssid)⟩

/-! ## Where it stores -/

theorem stores_ssid {cs : Bytes} (hp : p.inSsid) : p.stores cs = [] := by
  induction cs generalizing p with
  | nil => rfl
  | cons c cs ih =>
    rw [Pton.stores]
    cases hstep : p.step c with
    | none => rfl
    | some q =>
      obtain ⟨-, -, hq, ho, -⟩ := step_digit hp hstep
      dsimp only
      rw [if_neg (by omega)]
      exact ih hq

/-- The characters are stored one after another. -/
theorem stores_call {cs : Bytes} (hp : p.inSsid = false) (hroom : p.o ≤ PATTY_AX25_CALLSTRLEN) :
    (∀ o ∈ p.stores cs, o < PATTY_AX25_CALLSTRLEN) ↔ p.o + (cs.takeWhile callChar).length ≤ PATTY_AX25_CALLSTRLEN := by
  induction cs generalizing p with
  | nil => simpa [Pton.stores] using hroom
  | cons c cs ih =>
    rw [Pton.stores]
    by_cases hdash : c = 0x2d
    · subst hdash
      rw [step_dash hp hroom]
      dsimp only
      rw [if_neg (Nat.lt_irrefl _), stores_ssid rfl]
      simpa [callChar] using hroom
    · cases hstep : p.step c with
      | none =>
        have hinvalid : callChar c = false := by
          rw [Bool.eq_false_iff]
          intro hchar
          rw [Pton.step, hp, if_neg Bool.false_ne_true, if_neg (Nat.not_lt.mpr hroom), if_neg hdash,
            if_pos (callChar_iff.mp hchar).1] at hstep
          cases hstep
        simpa [hinvalid] using hroom
      | some q =>
        obtain ⟨hvalid, -, hq, ho, -⟩ := step_char hp hdash hstep
        dsimp only
        rw [if_pos (by omega), List.forall_mem_cons, List.takeWhile_cons_of_pos (callChar_iff.mpr ⟨hvalid, hdash⟩),
          List.length_cons]
        rcases Nat.lt_or_eq_of_le hroom with hlt | heq
        · rw [ih hq (ho.le.trans hlt), ho]
          constructor
          · rintro ⟨-, hrest⟩
            omega
          · intro hlen
            exact ⟨hlt, by omega⟩
        · constructor
          · rintro ⟨hlt, -⟩
            omega
          · intro hlen
            omega

/-- Nothing is stored outside the callsign if there are no seven characters to store. -/
theorem ptonStores_iff : (∀ o ∈ ptonStores text addr, o < PATTY_AX25_CALLSTRLEN) ↔
    (text.takeWhile callChar).length ≤ PATTY_AX25_CALLSTRLEN := by
  have hpad {q : Pton} : ∀ o ∈ List.range' q.o (PATTY_AX25_CALLSTRLEN - q.o), o < PATTY_AX25_CALLSTRLEN := by
    intro o ho
    rw [List.mem_range'_1] at ho
    omega
  have hscan := @stores_call ⟨false, 0, 0, 0, addr⟩ (text.take PATTY_AX25_ADDRSTRLEN) rfl (Nat.zero_le _)
  rw [← List.take_takeWhile, List.length_take, Nat.zero_add] at hscan
  have hmin : min PATTY_AX25_ADDRSTRLEN (text.takeWhile callChar).length ≤ PATTY_AX25_CALLSTRLEN ↔
      (text.takeWhile callChar).length ≤ PATTY_AX25_CALLSTRLEN := by
    have : PATTY_AX25_CALLSTRLEN < PATTY_AX25_ADDRSTRLEN := by decide
    omega
  rw [ptonStores, List.forall_mem_append, hscan, hmin, and_iff_left_iff_imp]
  intro _
  split
  · exact hpad
  · simp

/-! ## The exact inputs -/

theorem pton_take : pton (text.take PATTY_AX25_ADDRSTRLEN) addr = pton text addr := by
  rw [pton, pton, List.take_take, Nat.min_self]

/-- Seven characters are taken. -/
theorem pton_seven (hlen : text.length = 7) (hchars : ∀ c ∈ text, callChar c) : (pton text addr).isSome := by
  obtain ⟨name, b, rfl⟩ := List.eq_nil_or_concat text |>.resolve_left (by rintro rfl; cases hlen)
  rw [List.concat_eq_append] at hlen hchars ⊢
  rw [List.length_append, List.length_singleton] at hlen
  rw [List.forall_mem_append, List.forall_mem_singleton, callChar_iff] at hchars
  obtain ⟨hname, hvalid, hdash⟩ := hchars
  have hsix : 0 + name.length ≤ PATTY_AX25_CALLSTRLEN := by
    show 0 + name.length ≤ 6
    omega
  obtain ⟨q, hq, hin, ho, -, hssid, -⟩ := @foldlM_name ⟨false, 0, 0, 0, addr⟩ name rfl hsix
    fun c hc => callChar_iff.mp (hname c hc)
  dsimp only at ho hssid
  have htake : (name ++ [b]).take PATTY_AX25_ADDRSTRLEN = name ++ [b] := by
    rw [List.take_of_length_le]
    rw [List.length_append, List.length_singleton]
    show name.length + 1 ≤ 9
    omega
  have hstep : ∃ q', q.step b = some q' ∧ q'.ssid = 0 := by
    rw [Pton.step, hin, if_neg Bool.false_ne_true, if_neg (Nat.not_lt.mpr (ho.le.trans hsix)), if_neg hdash,
      if_pos hvalid]
    exact ⟨_, rfl, hssid⟩
  obtain ⟨q', hq', hssid'⟩ := hstep
  have hempty : (name ++ [b]).isEmpty = false := by simp
  have hscan : (name ++ [b]).foldlM Pton.step ⟨false, 0, 0, 0, addr⟩ = some q' := by
    rw [List.foldlM_append, hq, Option.bind_eq_bind, Option.bind_some, List.foldlM_cons, hq']
    rfl
  rw [pton, htake, hempty, hscan, if_neg Bool.false_ne_true, List.getLast?_concat]
  dsimp only
  rw [hssid', if_neg (by decide), if_neg (fun h => hdash (Option.some.inj h))]
  rfl

/-- The characters before the SSID. -/
theorem Call.takeWhile_text (h : ∀ b ∈ c.name, callChar b) : c.text.takeWhile callChar = c.name := by
  rw [Call.text, List.takeWhile_append_of_pos h]
  split
  · simp
  · simp [callChar]

theorem Call.Scans.callChars (h : c.Scans) : ∀ b ∈ c.name, callChar b := fun b hb => callChar_iff.mpr (h.chars b hb)

/-- What is taken is the text of a callsign. -/
theorem Parses.spelled (h : Parses text addr) (hsome : (pton text addr).isSome) :
    ∃ c : Call, c.Spelled ∧ c.text = text := by
  by_contra hno
  have hrefused := h.refused fun c hc htext => hno ⟨c, hc, htext⟩
  obtain ⟨a, ha⟩ := Option.isSome_iff_exists.mp hsome
  rw [ptonResult, ha] at hrefused
  cases hrefused

theorem Parses.plain (h : Parses text addr) : Plain text where
  seven := by
    rintro ⟨hlen, hchars⟩
    obtain ⟨c, hc, htext⟩ := h.spelled (pton_seven hlen hchars)
    have hname : c.name = text := by
      rw [← Call.takeWhile_text hc.callChars, htext]
      exact List.takeWhile_eq_self_iff.mpr hchars
    have hsix := hc.length
    rw [hname, hlen] at hsix
    exact absurd hsix (by decide)
  alone := by
    rintro c hc hname hdigits rfl
    have hsome : (pton c.text addr).isSome := by
      rw [pton_scans hc (by simp [Call.text, hdigits])]
      rfl
    obtain ⟨c', hc', htext⟩ := h.spelled hsome
    apply hc'.ne
    rw [← hname, ← Call.takeWhile_text hc'.callChars, ← Call.takeWhile_text hc.callChars, htext]
  long := by
    intro hlong c hc _ htext
    have hsome : (pton text addr).isSome := by
      rw [← pton_take, ← htext, pton_scans hc.toScans (Call.text_ne hc.ne)]
      rfl
    obtain ⟨c', hc', rfl⟩ := h.spelled hsome
    exact absurd hlong (Nat.not_lt.mpr hc'.length_text)

theorem Call.length_text_eq : c.text.length = c.name.length + if c.digits.isEmpty then 0 else c.digits.length + 1 := by
  rw [Call.text, List.length_append]
  split
  · rfl
  · rw [List.length_cons]

theorem Plain.parses (h : Plain text) : Parses text addr where
  taken := by
    rintro c hc rfl
    rw [ptonResult, pton_scans hc.toScans (Call.text_ne hc.ne), ptonStores_iff, Call.takeWhile_text hc.callChars]
    exact ⟨rfl, hc.length⟩
  refused := by
    intro hno
    rw [ptonResult]
    cases hpton : pton text addr with
    | none => rfl
    | some a =>
      obtain ⟨c, htext, hne, hshape⟩ := text_of_pton hpton
      by_cases hlong : PATTY_AX25_ADDRSTRLEN < text.length
      · have hnine : c.text.length = PATTY_AX25_ADDRSTRLEN := by
          rw [htext, List.length_take]
          omega
        have hlen := c.length_text_eq
        rcases hshape with hc | ⟨hseven, hdigits, -⟩
        · have hname : c.name ≠ [] := by
            intro hname
            have hcount := hc.count
            rw [hname, hnine, List.length_nil] at hlen
            split at hlen
            · cases hlen
            · have : 0 + (c.digits.length + 1) = 9 := hlen.symm
              omega
          exact absurd htext (h.long hlong c ⟨hc, hname⟩ hnine)
        · rw [hdigits, hseven, hnine] at hlen
          cases hlen
      · rw [List.take_of_length_le (Nat.not_lt.mp hlong)] at htext
        rcases hshape with hc | ⟨hseven, hdigits, hchars⟩
        · by_cases hname : c.name = []
          · have hdigits : c.digits ≠ [] := by
              intro hdigits
              exact hne (by simp [Call.text, hname, hdigits])
            exact absurd htext (h.alone c hc hname hdigits)
          · exact absurd htext (hno c ⟨hc, hname⟩)
        · have hname : c.name = text := by simpa [Call.text, hdigits] using htext
          exact absurd ⟨hname ▸ hseven, hname ▸ hchars⟩ h.seven

/-- A text is taken as a callsign exactly if it is one, but for seven characters, for an SSID alone and for a
callsign of nine characters with more behind it; and the code stores inside the callsign exactly if the text does not
begin with seven characters of a callsign. -/
theorem pton_iff (text : Bytes) (addr : Addr) : (Parses text addr ↔ Plain text) ∧
    ((∀ o ∈ ptonStores text addr, o < PATTY_AX25_CALLSTRLEN) ↔
      (text.takeWhile callChar).length ≤ PATTY_AX25_CALLSTRLEN) :=
  ⟨⟨Parses.plain, Plain.parses⟩, ptonStores_iff⟩

/-- Seven letters are taken, and the last is stored where the SSID is. -/
theorem not_parses_seven : ¬∀ text addr, Parses text addr := by
  intro h
  have hplain := (h [0x41, 0x42, 0x43, 0x44, 0x45, 0x46, 0x47] .zero).plain
  exact hplain.seven ⟨rfl, by simp; decide⟩

end Patty
