import Mathlib.Algebra.Order.Group.Nat
import Patty.Kiss.Reader
import Patty.Kiss.RoundTrip

/-! # KISS frames that are too long (`tnc.c`)

Once the output buffer is full, `tnc_drop` resets the offsets of the read in the middle of the loop of
`patty_kiss_tnc_drain`, which goes on with the first octet of the read again and then gives up the rest of
it. What it returns counts from the old offset, and the FEND that ends the frame is taken for one that
starts a frame, so that each frame after it is read as one on port 12. An empty frame does the same. -/

namespace Patty

/-! ## What is asked for -/

/-- What is delivered and how many frames are dropped, if a frame of more than `len` octets costs only
itself. Nothing is said of a frame without octets and of one with `len`. -/
inductive Treated (len : Nat) : List Bytes → List Bytes → Nat → Prop
  | nil : Treated len [] [] 0
  | good {p : Bytes} {payloads got : List Bytes} {n : Nat} : p ≠ [] → p.length < len →
    Treated len payloads got n → Treated len (p :: payloads) (p :: got) n
  | long {p : Bytes} {payloads got : List Bytes} {n : Nat} : len < p.length →
    Treated len payloads got n → Treated len (p :: payloads) got (n + 1)
  | other {p : Bytes} {payloads got got' : List Bytes} {m n : Nat} : p = [] ∨ p.length = len → m ≤ 1 →
    got' = got ∨ got' = p :: got → Treated len payloads got n → Treated len (p :: payloads) got' (n + m)

/-- With the frames cut into these reads, `patty_kiss_tnc_drain` always returns what it takes, and in the
end each frame was treated as it should be. -/
def Alone (len : Nat) (payloads reads : List Bytes) (junk out : Mem) : Prop :=
  (∀ x, Reader.Reaches len (.start reads junk out) x → x.tnc.pending = false → x.tnc.Counts len x.out) ∧
  ∃ x tnc, Reader.Reaches len (.start reads junk out) x ∧ x.Closes len tnc ∧
    Treated len payloads x.got tnc.dropped

namespace Treated

variable {len n : Nat} {p : Bytes} {payloads got goods after : List Bytes}

theorem good_inv (hne : p ≠ []) (hlen : p.length < len) (h : Treated len (p :: payloads) got n) :
    ∃ got', got = p :: got' ∧ Treated len payloads got' n := by
  cases h with
  | good _ _ h => exact ⟨_, rfl, h⟩
  | long hlong => omega
  | other hp => exact hp.elim (fun hp => absurd hp hne) fun hp => by omega

theorem of_goods (hgoods : ∀ p ∈ goods, p ≠ [] ∧ p.length < len) (h : Treated len (goods ++ after) goods n) :
    Treated len after [] n := by
  induction goods with
  | nil => exact h
  | cons p goods ih =>
    rw [List.forall_mem_cons] at hgoods
    obtain ⟨got', hgot, h'⟩ := good_inv hgoods.1.1 hgoods.1.2 h
    obtain rfl := (List.cons.inj hgot).2
    exact ih hgoods.2 h'

/-- Nothing is delivered of empty frames only. -/
theorem empty_of_nil (hshort : ∀ p ∈ after, p.length < len) (h : Treated len after [] n) :
    ∀ p ∈ after, p = [] := by
  induction after generalizing n with
  | nil => nofun
  | cons p after ih =>
    rw [List.forall_mem_cons] at hshort ⊢
    obtain ⟨hp, hshort⟩ := hshort
    cases h with
    | long hlong => omega
    | other hother _ hgot h =>
      obtain rfl := hgot.resolve_right nofun
      exact ⟨hother.resolve_right (by omega), ih hshort h⟩

theorem dropped_le (h : Treated len payloads got n) : n ≤ payloads.length := by
  induction h with
  | nil => exact Nat.le_refl 0
  | good _ _ _ ih => exact ih.trans (Nat.le_succ _)
  | long _ _ ih => exact Nat.succ_le_succ ih
  | other _ hm _ _ ih => exact Nat.add_le_add ih hm

theorem goods_empty (hgoods : ∀ p ∈ goods, p ≠ [] ∧ p.length < len) (n : Nat) :
    Treated len (goods ++ List.replicate n []) goods 0 := by
  induction goods with
  | nil =>
    induction n with
    | zero => exact .nil
    | succ n ih => exact .other (m := 0) (.inl rfl) (Nat.zero_le _) (.inl rfl) ih
  | cons p goods ih =>
    rw [List.forall_mem_cons] at hgoods
    exact .good hgoods.1.1 hgoods.1.2 (ih hgoods.2)

end Treated

/-! ## The run over frames -/

namespace Dec

variable {len : Nat} {d : Dec} {ms : List (UInt8 × Bool)} {p rest : Bytes} {goods after payloads : List Bytes}

/-- After an empty frame the decoder is left within one. -/
theorem run_empty (hstate : d.state = .none) (hgot : d.got = []) (hlen : 0 < len)
    (hms : ms.map (·.1) = kissFrame [] ++ rest) : ∃ (d' : Dec) (ms' : _), d'.state = .frameCommand ∧ d'.got = [] ∧
      ms'.map (·.1) = rest ∧ run len true false d ms = run len true false d' ms' := by
  obtain ⟨l, ms, rfl, hms₁⟩ := head_of_map hms
  obtain ⟨l₁, ms, rfl, hms₂⟩ := head_of_map hms₁
  obtain ⟨l₂, ms, rfl, hms₃⟩ := head_of_map hms₂
  have hroom : d.got.length < len := by
    rw [hgot]
    exact hlen
  have hb : d.byte PATTY_KISS_FEND = .more { d with state := .frameCommand } := by
    rw [byte, hstate]
    rfl
  have hidle : { d with state := .frameCommand }.pending = false := by simp [pending, hgot]
  have hrun := @run_other len true { d with state := .frameCommand } ms ⟨0x00, [], 1⟩
    [(PATTY_KISS_DATA, l₁)] l₂ rfl (by decide) hroom (by simp [hgot, KissItem.stored]) rfl
  refine ⟨_, ms, rfl, ?_, hms₃, (run_more hroom hb hidle).trans hrun⟩
  dsimp only
  rw [hgot]
  rfl

/-- The FEND that starts a frame is then taken for its command, on port 12. -/
theorem run_after (hstate : d.state = .frameCommand) (hroom : d.got.length + (p.length + 1) < len)
    (hms : ms.map (·.1) = kissFrame p ++ rest) : ∃ (d' : Dec) (ms' : _), d'.state = .frameCommand ∧
      d'.got.length = d.got.length + (p.length + 1) ∧ ms'.map (·.1) = rest ∧
      run len true false d ms = run len true false d' ms' := by
  have hdata : PATTY_KISS_FEND &&& 0x0f = PATTY_KISS_DATA := by decide
  have hother : PATTY_KISS_FEND ≠ PATTY_KISS_DATA := by decide
  have hstored : KissItem.stored ⟨PATTY_KISS_FEND, PATTY_KISS_DATA :: p, 1⟩ = PATTY_KISS_DATA :: p := by
    simp [KissItem.stored, hdata]
  have hsplit : ms.map (·.1) =
      KissItem.octets ⟨PATTY_KISS_FEND, PATTY_KISS_DATA :: p, 1⟩ ++ (PATTY_KISS_FEND :: rest) := by
    rw [hms, kissFrame, List.append_assoc]
    rfl
  obtain ⟨m, ms, rfl, hm, hms₁⟩ := List.map_eq_append_iff.mp hsplit
  obtain ⟨l, ms, rfl, hms₂⟩ := head_of_map hms₁
  have hrun := @run_other len true d ms ⟨PATTY_KISS_FEND, PATTY_KISS_DATA :: p, 1⟩ m l hstate
    (show PATTY_KISS_FEND &&& 0x0f ≤ PATTY_KISS_HW_SET by decide) (by rw [hstored]; exact hroom)
    (fun h => hother h.1) hm
  refine ⟨_, ms, rfl, ?_, hms₂, hrun⟩
  dsimp only
  rw [hstored, List.length_append, List.length_cons]

/-- From there on nothing is delivered, and all is stored. -/
theorem run_within (hstate : d.state = .frameCommand)
    (hroom : d.got.length + (payloads.map (·.length + 1)).sum < len)
    (hms : ms.map (·.1) = payloads.flatMap kissFrame) : ∃ d' : Dec,
      run len true false d ms = some ([], d') ∧ d'.got.length = d.got.length + (payloads.map (·.length + 1)).sum := by
  induction payloads generalizing d ms with
  | nil =>
    rw [List.flatMap_nil, List.map_eq_nil_iff] at hms
    subst hms
    exact ⟨d, by rw [run], rfl⟩
  | cons p payloads ih =>
    rw [List.flatMap_cons] at hms
    rw [List.map_cons, List.sum_cons] at hroom
    have hroom₁ : d.got.length + (p.length + 1) < len := by omega
    obtain ⟨d₁, ms₁, hstate₁, hgot₁, hms₁, hrun₁⟩ := run_after hstate hroom₁ hms
    obtain ⟨d₂, hrun₂, hgot₂⟩ := ih hstate₁ (by rw [hgot₁]; omega) hms₁
    refine ⟨d₂, hrun₁.trans hrun₂, ?_⟩
    rw [hgot₂, hgot₁, List.map_cons, List.sum_cons]
    omega

/-- The run over frames that fit, where only the first after them must be empty. -/
theorem run_stream (hstate : d.state = .none) (hgot : d.got = [])
    (hgoods : ∀ p ∈ goods, p ≠ [] ∧ p.length < len) (hafter : ∀ p ∈ after.head?, p = [])
    (hroom : (after.map (·.length + 1)).sum ≤ len)
    (hms : ms.map (·.1) = (goods ++ after).flatMap kissFrame) : ∃ d' : Dec,
      run len true false d ms = some (goods, d') ∧ (after.map (·.length + 1)).sum ≤ d'.got.length + 1 := by
  induction goods generalizing d ms with
  | nil =>
    cases after with
    | nil =>
      rw [List.append_nil, List.flatMap_nil, List.map_eq_nil_iff] at hms
      subst hms
      exact ⟨d, by rw [run], Nat.zero_le _⟩
    | cons p after =>
      obtain rfl : p = [] := hafter p rfl
      rw [List.nil_append, List.flatMap_cons] at hms
      rw [List.map_cons, List.sum_cons, List.length_nil] at hroom ⊢
      have hlen : 0 < len := by omega
      obtain ⟨d₁, ms₁, hstate₁, hgot₁, hms₁, hrun₁⟩ := run_empty hstate hgot hlen hms
      have hroom₁ : d₁.got.length + (after.map (·.length + 1)).sum < len := by
        rw [hgot₁, List.length_nil]
        omega
      obtain ⟨d₂, hrun₂, hgot₂⟩ := run_within hstate₁ hroom₁ hms₁
      exact ⟨d₂, hrun₁.trans hrun₂, by omega⟩
  | cons p goods ih =>
    rw [List.forall_mem_cons] at hgoods
    rw [List.cons_append, List.flatMap_cons] at hms
    obtain ⟨d₁, ms₁, hstate₁, hgot₁, hms₁, hrun₁⟩ := run_sent_cons true hstate hgot hms hgoods.1.1 hgoods.1.2
    obtain ⟨d₂, hrun₂, hsum⟩ := ih hstate₁ hgot₁ hgoods.2 hms₁
    exact ⟨d₂, by rw [hrun₁, hrun₂]; rfl, hsum⟩

/-! ## One octet in a read -/

/-- An octet that is a read: what is delivered, and the decoder then. -/
def single (d : Dec) (c : UInt8) : Option (List Bytes × Dec) :=
  match d.byte c with
  | .more d | .frame d => some (if d.pending then ([d.got], d.flush) else ([], d))
  | .fail => none

theorem run_single {c : UInt8} (hroom : d.got.length < len) : run len true false d ((c, true) :: ms) =
    (d.single c).bind fun (qs, d) => (run len true false d ms).map fun r => (qs ++ r.1, r.2) := by
  have hnil (d : Dec) : run len true false d ms = (run len true false d ms).map fun r => ([] ++ r.1, r.2) := by
    cases run len true false d ms with
    | none => rfl
    | some r => rfl
  rw [run, if_neg (by omega), single]
  cases d.byte c with
  | more d' | frame d' =>
    cases hp : d'.pending with
    | true => simp [hp]
    | false =>
      simp only [hp, Bool.true_and, Bool.false_eq_true, if_false, Bool.not_true, Bool.false_and,
        Option.bind_some]
      exact hnil d'
  | fail => rfl

theorem run_single_some {c : UInt8} {qs : List Bytes} {d' : Dec} {r : List Bytes × Dec} (hroom : d.got.length < len)
    (hc : d.single c = some (qs, d')) (h : run len true false d' ms = some r) :
    run len true false d ((c, true) :: ms) = some (qs ++ r.1, r.2) := by
  rw [run_single hroom, hc, Option.bind_some]
  dsimp only
  rw [h, Option.map_some]

/-- An octet stores at most one, and a FEND none. -/
theorem byte_more_got {c : UInt8} {d' : Dec} (h : d.byte c = .more d') : d'.got = d.got ∨
    d'.got.length = d.got.length + 1 ∧ d'.pending = false ∧ c ≠ PATTY_KISS_FEND := by
  have hput {b : UInt8} : (d.put b).got.length = d.got.length + 1 := List.length_append
  have hbody : TncState.frameBody ≠ .frameCommand := by decide
  rw [byte] at h
  split at h
  · cases h
    split
    · exact .inl rfl
    · exact .inl rfl
  · dsimp only at h
    split at h
    · cases h
      exact .inl rfl
    · split at h
      · cases h
        exact .inl rfl
      · cases h
  · rename_i hstate
    split at h
    · cases h
      exact .inl rfl
    · split at h
      · cases h
      · rename_i hfend
        split at h
        · cases h
          refine .inr ⟨hput, pending_state ?_, hfend⟩
          change d.state ≠ _
          rw [hstate]
          decide
        · cases h
          exact .inl rfl
  · split at h
    · rename_i hc
      cases h
      exact .inr ⟨hput, pending_state hbody, by rw [hc]; decide⟩
    · split at h
      · rename_i hc
        cases h
        exact .inr ⟨hput, pending_state hbody, by rw [hc]; decide⟩
      · cases h

theorem byte_frame_got {c : UInt8} {d' : Dec} (h : d.byte c = .frame d') : d'.got = d.got := by
  rw [byte] at h
  split at h
  · cases h
  · dsimp only at h
    split at h
    · cases h
    · split at h
      · cases h
      · cases h
  · split at h
    · cases h
    · split at h
      · cases h
        rfl
      · split at h
        · cases h
        · cases h
  · split at h
    · cases h
    · split at h
      · cases h
      · cases h

/-- What is delivered was stored before, unless the octet is stored. -/
theorem single_got {c : UInt8} {qs : List Bytes} {d' : Dec} (h : d.single c = some (qs, d')) :
    (d'.got.length ≤ d.got.length ∧ ∀ q ∈ qs, q = d.got) ∨
      d.byte c = .more d' ∧ qs = [] ∧ d'.got.length = d.got.length + 1 ∧ c ≠ PATTY_KISS_FEND := by
  have hsame {t : Dec} (hgot : t.got = d.got) (ht : (if t.pending then ([t.got], t.flush) else ([], t)) = (qs, d')) :
      d'.got.length ≤ d.got.length ∧ ∀ q ∈ qs, q = d.got := by
    split at ht
    · cases ht
      exact ⟨Nat.zero_le _, by simp [hgot]⟩
    · cases ht
      exact ⟨by rw [hgot], nofun⟩
  rw [single] at h
  cases hb : d.byte c with
  | more t =>
    rw [hb] at h
    have ht := Option.some.inj h
    rcases byte_more_got hb with hgot | ⟨hgot, hp, hfend⟩
    · exact .inl (hsame hgot ht)
    · rw [if_neg (by simp [hp])] at ht
      cases ht
      exact .inr ⟨rfl, rfl, hgot, hfend⟩
  | frame t =>
    rw [hb] at h
    exact .inl (hsame (byte_frame_got hb) (Option.some.inj h))
  | fail =>
    rw [hb] at h
    cases h

/-- With a read for each octet, there comes an octet that finds the output buffer full. -/
def Fills (len : Nat) (d : Dec) (bs : Bytes) : Prop :=
  ∃ fore c c' aft ps d₀ d₁, bs = fore ++ c :: c' :: aft ∧
    run len true false d (fore.map (·, true)) = some (ps, d₀) ∧
    d₀.got.length < len ∧ d₀.byte c = .more d₁ ∧ d₁.got.length = len

theorem Fills.cons {c : UInt8} {bs : Bytes} {qs : List Bytes} {d' : Dec} (hroom : d.got.length < len)
    (hc : d.single c = some (qs, d')) (h : d'.Fills len bs) : d.Fills len (c :: bs) := by
  obtain ⟨fore, b, b', aft, ps, d₀, d₁, rfl, hrun, hrest⟩ := h
  exact ⟨c :: fore, b, b', aft, qs ++ ps, d₀, d₁, rfl, run_single_some hroom hc hrun, hrest⟩

/-- If a larger output buffer is enough up to the FEND at the end, then so is this one, or an octet finds
it full. -/
theorem run_or_fills {len' : Nat} {bs : Bytes} {r : List Bytes × Dec} (hle : len ≤ len')
    (hroom : d.got.length < len) (hlast : ∀ c ∈ bs.getLast?, c = PATTY_KISS_FEND)
    (h : run len' true false d (bs.map (·, true)) = some r) :
    (run len true false d (bs.map (·, true)) = some r ∧ r.2.got.length < len ∧ ∀ p ∈ r.1, p.length < len) ∨
      d.Fills len bs := by
  induction bs generalizing d r with
  | nil =>
    rw [List.map_nil, run] at h
    cases h
    exact .inl ⟨rfl, hroom, fun p hp => absurd hp List.not_mem_nil⟩
  | cons c bs ih =>
    have hlast' : ∀ c ∈ bs.getLast?, c = PATTY_KISS_FEND := by
      cases bs with
      | nil => exact fun c hc => absurd hc (Option.not_mem_none c)
      | cons b bs => exact hlast
    rw [List.map_cons, run_single (by omega), Option.bind_eq_some_iff] at h
    obtain ⟨⟨qs, d'⟩, hc, h⟩ := h
    dsimp only at h
    obtain ⟨r', hrest, rfl⟩ := Option.map_eq_some_iff.mp h
    have hgo (hroom' : d'.got.length < len) (hqs : ∀ q ∈ qs, q.length < len) :
        (run len true false d ((c :: bs).map (·, true)) = some (qs ++ r'.1, r'.2) ∧ r'.2.got.length < len ∧
          ∀ p ∈ qs ++ r'.1, p.length < len) ∨ d.Fills len (c :: bs) := by
      rcases ih hroom' hlast' hrest with ⟨hrun, hgot, hps⟩ | hfills
      · exact .inl ⟨run_single_some hroom hc hrun, hgot, fun p hp => (List.mem_append.mp hp).elim (hqs p) (hps p)⟩
      · exact .inr (hfills.cons hroom hc)
    rcases single_got hc with ⟨hgot, hqs⟩ | ⟨hb, rfl, hgot, hfend⟩
    · exact hgo (by omega) fun q hq => by rwa [hqs q hq]
    · by_cases hfull : d'.got.length = len
      · cases bs with
        | nil => exact absurd (hlast c rfl) hfend
        | cons c' bs => exact .inr ⟨[], c, c', bs, [], d, d', rfl, rfl, hroom, hb, hfull⟩
      · exact hgo (by omega) fun p hp => absurd hp List.not_mem_nil

end Dec

/-! ## Where the output buffer is full -/

namespace Tnc

variable {len : Nat} {tnc : Tnc} {out : Mem} {c c' : UInt8} {d : Dec}

/-- Where an octet finds the output buffer full, the first of the read is taken again, and it is the last. -/
theorem drain_full (fuel : Nat) (out : Mem) (hi : tnc.offsetI < tnc.readlen) (hfull : tnc.offsetO = len) : ∃ tnc' : Tnc,
    drainLoop len (fuel + 1) tnc out = .ok (true, tnc', out) ∧ drainTaken len (fuel + 1) tnc out = 1 ∧
      tnc'.offsetI = 1 ∧ tnc'.readlen = 0 ∧ tnc'.offsetO = 0 ∧ tnc'.dropped = tnc.dropped + 1 := by
  have hchecked : tnc.checked len = tnc.drop := if_pos hfull
  have hzero : tnc.drop.offsetI = 0 := rfl
  obtain ⟨t, hagain, hadv⟩ : ∃ t, tnc.drop.take.drainByte out len (tnc.drop.buf tnc.drop.offsetI) = .ok (.more t out) ∧
      t.offsetI = 1 ∧ t.readlen = 0 ∧ t.offsetO = 0 ∧ t.dropped = tnc.dropped + 1 := by
    refine ⟨_, rfl, ?_⟩
    split
    · exact ⟨rfl, rfl, rfl, rfl⟩
    · exact ⟨rfl, rfl, rfl, rfl⟩
  obtain ⟨hi', hl', -⟩ := id hadv
  refine ⟨t, ?_, ?_, hadv⟩
  · rw [drainLoop_succ hi, hchecked, if_neg (by rw [hzero]; decide), hagain]
    exact drainLoop_end (by omega)
  · rw [drainTaken, if_pos hi, hchecked, hagain]
    cases fuel with
    | zero => rfl
    | succ fuel =>
      dsimp only
      rw [drainTaken, if_neg (by omega)]

/-- Where the second octet of a read finds the output buffer full, draining takes two octets and returns 1. -/
theorem not_counts (hi : tnc.offsetI = 0) (hunread : tnc.unread = [c, c'])
    (hroom : tnc.offsetO < len) (hb : (tnc.dec out).byte c = .more d) (hfull : d.got.length = len) :
    ¬tnc.Counts len out := by
  have hlen : tnc.readlen = 2 := by
    have h := tnc.unread_length
    rw [hunread, hi] at h
    exact h.symm
  have hlt : tnc.offsetI < tnc.readlen := by omega
  have hc : tnc.buf tnc.offsetI = c := by
    rw [unread_cons hlt] at hunread
    exact (List.cons.inj hunread).1
  have hchecked : tnc.checked len = tnc := if_neg hroom.ne
  obtain ⟨r, hr, hfollows⟩ := @drainByte_dec len tnc.take out c hroom
  have hdec : tnc.take.dec out = tnc.dec out := rfl
  rw [hdec, hb] at hfollows
  cases r with
  | done | error => exact fun _ => hfollows
  | more t o =>
    have hleads : Leads len tnc.take t o d := hfollows
    have ho : t.offsetO = len := by
      have hgot : (t.dec o).got.length = t.offsetO := got_length
      rw [← hgot, hleads.dec, hfull]
    have hti : t.offsetI = 1 := hleads.offsetI.trans (by rw [take, hi])
    have htl : t.readlen = 2 := hleads.readlen.trans hlen
    obtain ⟨t', hloop, htaken, hi', -⟩ := drain_full (PATTY_KISS_TNC_BUFSZ - 1) o
      (show t.offsetI < t.readlen by omega) ho
    have hloop : drainLoop len (PATTY_KISS_TNC_BUFSZ + 1) tnc out = .ok (true, t', o) := by
      rw [drainLoop_succ hlt, hchecked, hi, if_neg (by decide), ← hi, hc, hr]
      exact hloop
    have htaken : drainTaken len (PATTY_KISS_TNC_BUFSZ + 1) tnc out = 2 := by
      rw [drainTaken, if_pos hlt, hchecked, hc, hr]
      exact congrArg (· + 1) htaken
    intro h
    have h := h t' o hloop
    rw [drain, hloop, htaken] at h
    have hcount : (t'.offsetI : Int) - tnc.offsetI = (2 : Nat) := congrArg (·.1) (Except.ok.inj h)
    omega

end Tnc

namespace Reader

open Chunks

variable {len : Nat} {bs : Bytes} {x : Reader}

theorem flatten_singles (bs : Bytes) : (bs.map fun c => [c]).flatten = bs := by
  induction bs with
  | nil => rfl
  | cons c bs ih => rw [List.map_cons, List.flatten_cons, ih, List.singleton_append]

theorem marks_singles (bs : Bytes) : (bs.map fun c => [c]).flatMap marks = bs.map (·, true) := by
  induction bs with
  | nil => rfl
  | cons c bs ih =>
    rw [List.map_cons, List.flatMap_cons, ih]
    rfl

theorem readable_singles (bs : Bytes) : Tnc.Readable (bs.map fun c => [c]) := by
  intro r hr
  obtain ⟨c, -, rfl⟩ := List.mem_map.mp hr
  exact ⟨List.cons_ne_nil _ _, show 1 ≤ PATTY_KISS_TNC_BUFSZ by decide⟩

/-- There is then a way to cut the octets into reads in which draining does not return what it takes. -/
theorem miscounts (junk out : Mem) (h : Dec.fresh.Fills len bs) : ∃ reads x, Tnc.Readable reads ∧ reads.flatten = bs ∧
    Reaches len (start reads junk out) x ∧ x.tnc.pending = false ∧ ¬x.tnc.Counts len x.out := by
  obtain ⟨fore, c, c', aft, ps, d₀, d₁, rfl, hrun, hroom, hb, hfull⟩ := h
  have hreads : Tnc.Readable ([c, c'] :: aft.map fun c => [c]) :=
    List.forall_mem_cons.mpr ⟨⟨List.cons_ne_nil _ _, show 2 ≤ PATTY_KISS_TNC_BUFSZ by decide⟩, readable_singles aft⟩
  rw [← marks_singles] at hrun
  obtain ⟨y, hreaches, hy⟩ :=
    (start_tracks ([c, c'] :: aft.map fun c => [c]) junk out (readable_singles fore) hrun).arrives
  refine ⟨_, _, List.forall_mem_append.mpr ⟨readable_singles fore, hreads⟩, ?_,
    hreaches.tail (hy.fills (List.cons_ne_nil _ _)), hy.pending, Tnc.not_counts rfl Tnc.fill_unread ?_ ?_ hfull⟩
  · rw [List.flatten_append, List.flatten_cons, flatten_singles, flatten_singles]
    rfl
  · have hgot : (y.tnc.dec y.out).got.length = y.tnc.offsetO := Tnc.got_length
    rw [hy.dec] at hgot
    exact hgot ▸ hroom
  · dsimp only
    rw [Tnc.fill_dec, hy.dec]
    exact hb

/-- Without an output buffer, each read is dropped. -/
theorem drops_all (hout : x.tnc.offsetO = 0) (hend : x.tnc.readlen ≤ x.tnc.offsetI)
    (hreads : x.reads = bs.map fun c => [c]) :
    ∃ y tnc, Reaches 0 x y ∧ y.Closes 0 tnc ∧ tnc.dropped = x.tnc.dropped + bs.length := by
  have hidle {t : Tnc} (ht : t.offsetO = 0) : t.pending = false := by simp [Tnc.pending, ht]
  have hdrain : x.tnc.drain x.out 0 = .ok (0, x.tnc, x.out) := Tnc.drain_end (by omega)
  induction bs generalizing x with
  | nil => exact ⟨x, x.tnc, .refl, ⟨hreads, hidle hout, x.out, hdrain⟩, rfl⟩
  | cons c bs ih =>
    have hfill := next_fill (hidle hout) hdrain hreads (List.cons_ne_nil c [])
    obtain ⟨t, hloop, -, hi, hl, ho, hdropped⟩ := Tnc.drain_full PATTY_KISS_TNC_BUFSZ x.out
      (show (x.tnc.fill [c]).offsetI < (x.tnc.fill [c]).readlen from Nat.one_pos) hout
    have hone : (x.tnc.fill [c]).drain x.out 0 = .ok ((t.offsetI : Int) - (x.tnc.fill [c]).offsetI, t, x.out) := by
      rw [Tnc.drain, hloop]
    have hdrop := @next_drain 0 ⟨bs.map fun c => [c], x.tnc.fill [c], x.out, x.got⟩ _ t x.out (hidle hout) hone
      (by rw [hi]; exact Int.one_pos)
    have hend' : t.readlen ≤ t.offsetI := by omega
    obtain ⟨y, tnc, hreaches, hcloses, hall⟩ := @ih ⟨bs.map fun c => [c], t, x.out, x.got⟩ ho hend' rfl
      (Tnc.drain_end (Nat.not_lt.mpr hend'))
    refine ⟨y, tnc, .head hfill (.head hdrop hreaches), hcloses, ?_⟩
    rw [hall, List.length_cons]
    dsimp only
    rw [hdropped, Tnc.fill]
    dsimp only
    omega

end Reader

/-! ## Which streams are read as they should be -/

open Chunks

variable {len : Nat} {payloads goods after : List Bytes}

theorem le_sum_of_mem {p : Bytes} (h : p ∈ payloads) : p.length + 1 ≤ (payloads.map (·.length + 1)).sum :=
  List.single_le_sum (fun _ _ => Nat.zero_le _) _ (List.mem_map_of_mem h)

/-- The frames up to the first that is empty. -/
theorem split_empty (payloads : List Bytes) : ∃ goods after, payloads = goods ++ after ∧ (∀ p ∈ goods, p ≠ []) ∧
    ∀ p ∈ after.head?, p = [] := by
  induction payloads with
  | nil => exact ⟨[], [], rfl, nofun, nofun⟩
  | cons p payloads ih =>
    by_cases hp : p = []
    · exact ⟨[], p :: payloads, rfl, nofun, fun q hq => (Option.some.inj hq) ▸ hp⟩
    · obtain ⟨goods, after, rfl, hgoods, hafter⟩ := ih
      exact ⟨p :: goods, after, rfl, List.forall_mem_cons.mpr ⟨hp, hgoods⟩, hafter⟩

/-- A stream of frames ends with a FEND. -/
theorem frames_getLast (payloads : List Bytes) :
    ∀ c ∈ (payloads.flatMap kissFrame).getLast?, c = PATTY_KISS_FEND := by
  induction payloads with
  | nil => nofun
  | cons p payloads ih =>
    intro c hc
    rw [List.flatMap_cons, List.getLast?_append] at hc
    cases hlast : (payloads.flatMap kissFrame).getLast? with
    | some b =>
      rw [hlast, Option.some_or] at hc
      exact ih c (hlast.trans hc)
    | none =>
      rw [hlast, Option.none_or, kissFrame, List.getLast?_concat] at hc
      exact (Option.some.inj hc).symm

/-- Frames that fit are read as they should be, also if some empty ones follow. -/
theorem alone_of_goods {reads : List Bytes} {n : Nat} (junk out : Mem)
    (hgoods : ∀ p ∈ goods, p ≠ [] ∧ p.length < len) (hn : n ≤ len) (hreads : Tnc.Readable reads)
    (hstream : reads.flatten = (goods ++ List.replicate n []).flatMap kissFrame) :
    Alone len (goods ++ List.replicate n []) reads junk out := by
  have hafter : ∀ p ∈ (List.replicate n ([] : Bytes)).head?, p = [] :=
    fun p hp => List.eq_of_mem_replicate (List.mem_of_mem_head? hp)
  have hroom : ((List.replicate n ([] : Bytes)).map (·.length + 1)).sum ≤ len := by simpa using hn
  obtain ⟨d, hrun, -⟩ := Dec.run_stream (d := .fresh) rfl rfl hgoods hafter hroom
    ((flatMap_marks reads).trans hstream)
  have htracks := Reader.start_tracks [] junk out hreads hrun
  rw [List.append_nil] at htracks
  obtain ⟨x, hreaches, hx⟩ := htracks.arrives
  refine ⟨fun y hy hp => (htracks.reaches hy).counts hp, x, x.tnc, hreaches, hx.closes, ?_⟩
  rw [hx.got, hx.dropped]
  exact .goods_empty hgoods n

/-- Of other streams there is a way to cut them into reads that shows it. -/
theorem goods_of_alone (hlen : 0 < len) (junk out : Mem) (h : ∀ reads, Tnc.Readable reads →
    reads.flatten = payloads.flatMap kissFrame → Alone len payloads reads junk out) :
    ∃ goods n, payloads = goods ++ List.replicate n [] ∧ (∀ p ∈ goods, p ≠ [] ∧ p.length < len) ∧ n ≤ len := by
  obtain ⟨goods, after, rfl, hne, hafter⟩ := split_empty payloads
  -- a large enough output buffer takes the stream
  have hbig : ∃ big, len ≤ big ∧ (∀ p ∈ goods, p.length < big) ∧ (after.map (·.length + 1)).sum ≤ big :=
    ⟨len + (goods.map (·.length + 1)).sum + (after.map (·.length + 1)).sum, by omega,
      fun p hp => by have := le_sum_of_mem hp; omega, by omega⟩
  obtain ⟨big, hle, hfit, hroom⟩ := hbig
  have hmarks : (((goods ++ after).flatMap kissFrame).map (·, true)).map (·.1) =
      (goods ++ after).flatMap kissFrame := by
    rw [List.map_map]
    exact List.map_id _
  obtain ⟨d, hrun, hsum⟩ := Dec.run_stream (d := .fresh) rfl rfl (fun p hp => ⟨hne p hp, hfit p hp⟩) hafter hroom hmarks
  rcases Dec.run_or_fills (d := .fresh) hle hlen (frames_getLast _) hrun with ⟨hrun, hgot, hshort⟩ | hfills
  · -- so does this one, if each octet is a read
    dsimp only at hgot hshort
    rw [← Reader.marks_singles] at hrun
    have htracks := Reader.start_tracks [] junk out (Reader.readable_singles _) hrun
    rw [List.append_nil] at htracks
    obtain ⟨y, hreaches, hy⟩ := htracks.arrives
    obtain ⟨-, x, tnc, hx, hcloses, htreated⟩ := h _ (Reader.readable_singles _) (Reader.flatten_singles _)
    obtain rfl := Reader.reaches_unique hx hreaches hcloses.next hy.closes.next
    rw [hy.got] at htreated
    have hgoods : ∀ p ∈ goods, p ≠ [] ∧ p.length < len := fun p hp => ⟨hne p hp, hshort p hp⟩
    have hempty := (htreated.of_goods hgoods).empty_of_nil fun p hp => by
      have hp := le_sum_of_mem hp
      omega
    obtain ⟨n, rfl⟩ : ∃ n, after = List.replicate n [] := ⟨_, List.eq_replicate_of_mem hempty⟩
    refine ⟨goods, n, rfl, hgoods, ?_⟩
    rw [List.map_replicate, List.sum_replicate] at hsum
    simp at hsum
    omega
  · obtain ⟨reads, x, hreads, hflat, hx, hp, hcounts⟩ := Reader.miscounts junk out hfills
    exact absurd ((h reads hreads hflat).1 x hx hp) hcounts

/-- Without an output buffer, no frame is. -/
theorem nil_of_alone (junk out : Mem) (h : ∀ reads, Tnc.Readable reads →
    reads.flatten = payloads.flatMap kissFrame → Alone 0 payloads reads junk out) : payloads = [] := by
  have hlength : 3 * payloads.length ≤ (payloads.flatMap kissFrame).length := by
    clear h
    induction payloads with
    | nil => exact Nat.le_refl 0
    | cons p payloads ih =>
      rw [List.flatMap_cons, List.length_append, List.length_cons, kissFrame]
      simp only [List.length_append, List.length_cons, List.length_nil]
      omega
  obtain ⟨-, x, tnc, hx, hcloses, htreated⟩ := h _ (Reader.readable_singles _) (Reader.flatten_singles _)
  obtain ⟨y, tnc', hy, hcloses', hdropped⟩ := Reader.drops_all (x := .start _ junk out) rfl (Nat.le_refl 0) rfl
  obtain rfl := Reader.reaches_unique hx hy hcloses.next hcloses'.next
  obtain ⟨-, -, o, hdrain⟩ := hcloses
  obtain ⟨-, -, o', hdrain'⟩ := hcloses'
  rw [hdrain] at hdrain'
  cases hdrain'
  have hle := htreated.dropped_le
  rw [hdropped] at hle
  have hzero : (Reader.start ((payloads.flatMap kissFrame).map fun c => [c]) junk out).tnc.dropped = 0 := rfl
  rw [hzero] at hle
  exact List.eq_nil_of_length_eq_zero (by omega)

/-- A stream of frames is read as it should be, however it is cut into reads, exactly when its frames have
one octet or more and fewer than the output buffer, but that empty ones may follow, as many as the output
buffer has octets. -/
theorem alone_iff (len : Nat) (payloads : List Bytes) :
    (∀ reads junk out, Tnc.Readable reads → reads.flatten = payloads.flatMap kissFrame →
      Alone len payloads reads junk out) ↔
    ∃ goods n, payloads = goods ++ List.replicate n [] ∧ (∀ p ∈ goods, p ≠ [] ∧ p.length < len) ∧ n ≤ len := by
  constructor
  · intro h
    have h₀ := fun reads => h reads (fun _ => 0) fun _ => 0
    rcases Nat.eq_zero_or_pos len with rfl | hlen
    · exact ⟨[], 0, nil_of_alone _ _ h₀, nofun, Nat.le_refl 0⟩
    · exact goods_of_alone hlen _ _ h₀
  · rintro ⟨goods, n, rfl, hgoods, hn⟩ reads junk out hreads hstream
    exact alone_of_goods junk out hgoods hn hreads hstream

/-- The frame after one that is too long is lost. -/
example : Tnc.recvAll 3 1 [[0xc0], [0x00], [0x41], [0x42], [0x43], [0x44], [0xc0], [0xc0], [0x00], [0x45], [0xc0]]
    (.new fun _ => 0) (fun _ => 0) = .ok ([], true) := by decide

/-- Two frames, of which the first is too long: in one read, draining takes six octets of it and returns 1. -/
theorem not_alone_long : ¬∀ reads junk out, Tnc.Readable reads →
    reads.flatten = [[0x41, 0x42, 0x43, 0x44], [0x45]].flatMap kissFrame →
    Alone 3 [[0x41, 0x42, 0x43, 0x44], [0x45]] reads junk out := by
  intro h
  obtain ⟨hcounts, -⟩ := h [[0xc0, 0x00, 0x41, 0x42, 0x43, 0x44, 0xc0, 0xc0, 0x00, 0x45, 0xc0]] (fun _ => 0)
    (fun _ => 0) (by decide) (by decide)
  have hdrain := hcounts _ (.single rfl) rfl _ _ rfl
  exact absurd (congrArg (·.map (·.1)) hdrain) (by decide)

end Patty
