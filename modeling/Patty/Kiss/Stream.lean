import Mathlib.Algebra.Order.BigOperators.Group.List
import Patty.Kiss.Reads
import Patty.Lib.Bits

/-! # Streams of KISS frames

Frames of any kind with any number of FENDs after each, and what the two loops take from such a stream.
A frame that is not for the server is skipped without harm only if the read ends with the FENDs after it,
if it leaves nothing in the output buffer before a data frame, and a frame for the server only if two
FENDs follow it (`skips_run`). -/

namespace Patty

/-- A frame of a stream: the octet with its command and port, its contents, and how many FENDs follow. -/
structure KissItem where
  command : UInt8
  contents : Bytes
  fends : Nat
  deriving DecidableEq

namespace KissItem

/-- The octets of the frame between FENDs. -/
def octets (x : KissItem) : Bytes := x.command :: x.contents.flatMap kissEscape

/-- The octets of the frame with the FENDs after it. -/
def wire (x : KissItem) : Bytes := x.octets ++ List.replicate x.fends PATTY_KISS_FEND

/-- The payload, of a data frame on port 0 that is not empty. -/
def payload (x : KissItem) : Option Bytes :=
  if x.command = PATTY_KISS_DATA ∧ x.contents ≠ [] then some x.contents else none

/-- The command is one of those that the decoder knows, the payload of a data frame on port 0 fits, and
a FEND ends the frame. -/
structure Valid (len : Nat) (x : KissItem) : Prop where
  command : x.command &&& 0x0f ≤ PATTY_KISS_HW_SET ∨ x.command = PATTY_KISS_RETURN
  contents : x.command = PATTY_KISS_DATA → x.contents.length < len
  fends : 0 < x.fends

instance (len : Nat) (x : KissItem) : Decidable (x.Valid len) :=
  decidable_of_iff ((x.command &&& 0x0f ≤ PATTY_KISS_HW_SET ∨ x.command = PATTY_KISS_RETURN) ∧
    (x.command = PATTY_KISS_DATA → x.contents.length < len) ∧ 0 < x.fends)
    ⟨fun h => ⟨h.1, h.2.1, h.2.2⟩, fun h => ⟨h.command, h.contents, h.fends⟩⟩

/-- What the decoder stores of the contents, whether or not they are for the server: all of a data
frame, and the escaped octets of another. -/
def stored (x : KissItem) : Bytes :=
  x.contents.filter fun c =>
    x.command &&& 0x0f = PATTY_KISS_DATA || c = PATTY_KISS_FEND || c = PATTY_KISS_FESC

end KissItem

/-- A stream that starts with `lead` FENDs. -/
def kissStream (lead : Nat) (items : List KissItem) : Bytes :=
  List.replicate lead PATTY_KISS_FEND ++ items.flatMap KissItem.wire

/-- Between two frames there are two FENDs if the first is for the server; if it is not, a read ends with
the last FEND between them, and none with another. `ends` says which octets of the frames end a read. -/
def Gaps : List KissItem → List Bool → Prop
  | x :: y :: items, ends =>
    (if x.payload.isSome then x.fends = 2
      else (ends.drop x.octets.length).take x.fends = List.replicate (x.fends - 1) false ++ [true]) ∧
    Gaps (y :: items) (ends.drop x.wire.length)
  | _, _ => True

instance decidableGaps : ∀ items ends, Decidable (Gaps items ends)
  | [], _ => isTrue trivial
  | [_], _ => isTrue trivial
  | x :: y :: items, ends =>
    have := decidableGaps (y :: items) (ends.drop x.wire.length)
    inferInstanceAs (Decidable (_ ∧ _))

/-- The decoder gets through the stream: one FEND before the first frame, frames with gaps that it takes,
no command that it refuses, room for what it stores of frames that are not for the server, and no data
frame on port 0 after something was stored. -/
structure Separate (len lead : Nat) (items : List KissItem) (ends : List Bool) : Prop where
  start : items ≠ [] → lead = 1
  gaps : Gaps items (ends.drop lead)
  known : ∀ x ∈ items, x.command ≠ PATTY_KISS_RETURN
  room : ((items.filter (·.payload.isNone)).map (·.stored.length)).sum < len
  clean : items.Pairwise fun x y => x.payload = none → x.stored ≠ [] → y.command ≠ PATTY_KISS_DATA

namespace Dec

variable {len : Nat} {keep : Bool} {d d' : Dec} {c : UInt8} {last : Bool} {ms : List (UInt8 × Bool)}

/-! ## Octets -/

theorem run_more (hroom : d.got.length < len) (hb : d.byte c = .more d') (hp : d'.pending = false) :
    run len keep false d ((c, last) :: ms) = run len keep false d' ms := by
  rw [run, if_neg (by omega), hb]
  simp [hp]

theorem run_frame (hroom : d.got.length < len) (hb : d.byte c = .frame d') (hp : d'.pending = true) :
    run len keep false d ((c, last) :: ms) =
      (run len keep false d'.flush ms).map fun r => (d'.got :: r.1, r.2) := by
  rw [run, if_neg (by omega), hb]
  simp [hp]

theorem run_skip (hroom : d.got.length < len) (hb : d.byte c = .frame d') (hp : d'.pending = false) :
    run len keep false d ((c, last) :: ms) = run len keep (!keep && !last) d' ms := by
  rw [run, if_neg (by omega), hb]
  simp [hp]

theorem pending_state (h : d.state ≠ .frameCommand) : d.pending = false := by
  simp [pending, h]

theorem head_of_map {bs : Bytes} (h : ms.map (·.1) = c :: bs) :
    ∃ last m, ms = (c, last) :: m ∧ m.map (·.1) = bs := by
  obtain ⟨⟨c', last⟩, m, hms, hc, hm⟩ := List.map_eq_cons_iff.mp h
  cases hc
  exact ⟨last, m, hms, hm⟩

/-- What is stored of contents, where `all` says that it is all. -/
def storedOf (all : Bool) (contents : Bytes) : Bytes :=
  contents.filter fun c => all || c = PATTY_KISS_FEND || c = PATTY_KISS_FESC

theorem byte_tfend (h : d.state = .frameEscape) :
    d.byte PATTY_KISS_TFEND = .more ⟨.frameBody, d.command, d.port, d.got ++ [PATTY_KISS_FEND]⟩ := by
  rw [byte, h]
  rfl

theorem byte_tfesc (h : d.state = .frameEscape) :
    d.byte PATTY_KISS_TFESC = .more ⟨.frameBody, d.command, d.port, d.got ++ [PATTY_KISS_FESC]⟩ := by
  rw [byte, h]
  rfl

/-- The contents of a frame. -/
theorem run_contents {contents : Bytes} {m : List (UInt8 × Bool)} (hstate : d.state = .frameBody)
    (hroom : d.got.length + (storedOf (d.command = PATTY_KISS_DATA) contents).length < len)
    (hm : m.map (·.1) = contents.flatMap kissEscape) : run len keep false d (m ++ ms) =
      run len keep false { d with got := d.got ++ storedOf (d.command = PATTY_KISS_DATA) contents } ms := by
  induction contents generalizing d m with
  | nil =>
    rw [List.flatMap_nil, List.map_eq_nil_iff] at hm
    subst hm
    simp [storedOf]
  | cons c contents ih =>
    rw [List.flatMap_cons] at hm
    -- an octet that is escaped
    have hescaped {e : UInt8} (hstored : storedOf (d.command = PATTY_KISS_DATA) (c :: contents) =
        c :: storedOf (d.command = PATTY_KISS_DATA) contents)
        (hm : m.map (·.1) = PATTY_KISS_FESC :: e :: contents.flatMap kissEscape)
        (hb : ∀ d : Dec, d.state = .frameEscape →
          d.byte e = .more ⟨.frameBody, d.command, d.port, d.got ++ [c]⟩) :
        run len keep false d (m ++ ms) = run len keep false
          { d with got := d.got ++ storedOf (d.command = PATTY_KISS_DATA) (c :: contents) } ms := by
      obtain ⟨l₁, m₁, rfl, hm₁⟩ := head_of_map hm
      obtain ⟨l₂, m₂, rfl, hm₂⟩ := head_of_map hm₁
      rw [hstored, List.length_cons] at hroom
      have hfesc : d.byte PATTY_KISS_FESC = .more { d with state := .frameEscape } := by
        simp [byte, hstate]
      have hroom₂ : (d.got ++ [c]).length +
          (storedOf (d.command = PATTY_KISS_DATA) contents).length < len := by
        rw [List.length_append, List.length_singleton]
        omega
      rw [List.cons_append, List.cons_append, run_more (by omega) hfesc (pending_state (by simp)),
        run_more (by change d.got.length < len; omega) (hb _ rfl) (pending_state (by simp)),
        @ih ⟨.frameBody, d.command, d.port, d.got ++ [c]⟩ m₂ rfl hroom₂ hm₂, hstored, hstate,
        List.append_assoc]
      rfl
    by_cases hfend : c = PATTY_KISS_FEND
    · subst hfend
      exact hescaped (by simp [storedOf]) hm fun d hd => byte_tfend hd
    by_cases hfesc : c = PATTY_KISS_FESC
    · subst hfesc
      exact hescaped (by simp [storedOf]) hm fun d hd => byte_tfesc hd
    have hplain : kissEscape c = [c] := by rw [kissEscape, if_neg hfend, if_neg hfesc]
    rw [hplain, List.singleton_append] at hm
    obtain ⟨l, m₁, rfl, hm₁⟩ := head_of_map hm
    rw [List.cons_append]
    by_cases hdata : d.command = PATTY_KISS_DATA
    · have hstored : storedOf (d.command = PATTY_KISS_DATA) (c :: contents) =
          c :: storedOf (d.command = PATTY_KISS_DATA) contents := by simp [storedOf, hdata]
      rw [hstored, List.length_cons] at hroom
      have hroom₂ : (d.got ++ [c]).length +
          (storedOf (d.command = PATTY_KISS_DATA) contents).length < len := by
        rw [List.length_append, List.length_singleton]
        omega
      have hb : d.byte c = .more (d.put c) := by simp [byte, hstate, hfend, hfesc, hdata]
      rw [run_more (by omega) hb (pending_state (by simp [put, hstate])),
        @ih (d.put c) m₁ hstate hroom₂ hm₁, hstored, put, List.append_assoc]
      rfl
    · have hstored : storedOf (d.command = PATTY_KISS_DATA) (c :: contents) =
          storedOf (d.command = PATTY_KISS_DATA) contents := by simp [storedOf, hdata, hfend, hfesc]
      rw [hstored] at hroom ⊢
      have hb : d.byte c = .more d := by simp [byte, hstate, hfend, hfesc, hdata]
      rw [run_more (by omega) hb (pending_state (by simp [hstate])), ih hstate hroom hm₁]

/-! ## Frames -/

theorem byte_command (hstate : d.state = .frameCommand) (h : c &&& 0x0f ≤ PATTY_KISS_HW_SET) :
    d.byte c = .more ⟨.frameBody, c &&& 0x0f, (c &&& 0xf0) >>> 4, d.got⟩ := by
  have hne : c &&& 0x0f ≠ PATTY_KISS_FEND := by
    intro hfend
    rw [hfend] at h
    exact absurd h (by decide)
  rw [byte, hstate]
  simp only [hne, if_false, h, decide_true, Bool.true_or, if_true]

theorem byte_fend (hstate : d.state = .frameBody) :
    d.byte PATTY_KISS_FEND = .frame { d with state := .frameCommand } := by
  rw [byte, hstate]
  rfl

/-- The octets of a frame up to its end. -/
theorem run_octets {x : KissItem} {m : List (UInt8 × Bool)} (hstate : d.state = .frameCommand)
    (hcommand : x.command &&& 0x0f ≤ PATTY_KISS_HW_SET)
    (hroom : d.got.length + x.stored.length < len) (hm : m.map (·.1) = x.octets) :
    run len keep false d (m ++ ms) = run len keep false
      ⟨.frameBody, x.command &&& 0x0f, (x.command &&& 0xf0) >>> 4, d.got ++ x.stored⟩ ms := by
  obtain ⟨last, m₁, rfl, hm₁⟩ := head_of_map hm
  rw [List.cons_append, run_more (by omega) (byte_command hstate hcommand) (pending_state (by simp))]
  exact run_contents rfl hroom hm₁

theorem command_data (c : UInt8) : c &&& 0x0f = 0 ∧ (c &&& 0xf0) >>> 4 = 0 ↔ c = 0 := by
  constructor
  · rintro ⟨hlow, hhigh⟩
    have hlow' : c.toNat % 16 = 0 := by
      have := congrArg UInt8.toNat hlow
      rwa [UInt8.toNat_and, show (0x0f : UInt8).toNat = 2 ^ 4 - 1 from rfl,
        Nat.and_two_pow_sub_one_eq_mod] at this
    have hhigh' : c.toNat / 16 % 16 = 0 := by
      have := congrArg UInt8.toNat hhigh
      rw [UInt8.toNat_shiftRight, UInt8.toNat_and] at this
      have hfield : (c.toNat &&& 0xf0) >>> 4 = c.toNat / 16 % 16 := Bits.field c.toNat 4 4
      exact hfield.symm.trans this
    have hlt := c.toNat_lt
    apply UInt8.toNat_inj.mp
    rw [UInt8.toNat_zero]
    omega
  · rintro rfl
    exact ⟨rfl, rfl⟩

/-- After its frame, the decoder has a payload if the frame was for the server. -/
theorem pending_frame {x : KissItem} {got : Bytes} :
    pending ⟨.frameCommand, x.command &&& 0x0f, (x.command &&& 0xf0) >>> 4, got⟩ = true ↔
      x.command = PATTY_KISS_DATA ∧ got ≠ [] := by
  rw [← command_data, ← List.length_pos_iff]
  simp [pending, and_assoc]

/-! ## FENDs -/

/-- No number of FENDs makes the decoder give a payload. -/
structure Calm (len : Nat) (d : Dec) : Prop where
  room : d.got.length < len
  state : d.state ≠ .frameEscape
  other : d.command ≠ PATTY_KISS_DATA ∨ d.port ≠ 0 ∨ d.got = []

theorem Calm.pending (h : d.Calm len) (state : TncState) : { d with state }.pending = false := by
  obtain hc | hp | hg := h.other
  · simp [Dec.pending, hc]
  · simp [Dec.pending, hp]
  · simp [Dec.pending, hg]

theorem run_fends {lost : Bool} (h : d.Calm len) (hms : ∀ c ∈ ms.map (·.1), c = PATTY_KISS_FEND) :
    ∃ d', run len keep lost d ms = some ([], d') := by
  induction ms generalizing d lost with
  | nil => exact ⟨d, by rw [run]⟩
  | cons x ms ih =>
    obtain ⟨c, last⟩ := x
    rw [List.map_cons, List.forall_mem_cons] at hms
    obtain ⟨rfl, hms⟩ := hms
    cases lost with
    | true =>
      rw [run]
      exact ih h hms
    | false =>
      cases hstate : d.state with
      | none =>
        have hb : d.byte PATTY_KISS_FEND = .more { d with state := .frameCommand } := by
          rw [byte, hstate]
          rfl
        rw [run_more h.room hb (h.pending _)]
        exact ih ⟨h.room, by simp, h.other⟩ hms
      | frameCommand =>
        -- a FEND reads as a data frame on port 12
        have hport : (PATTY_KISS_FEND &&& 0xf0) >>> 4 ≠ 0 := by decide
        rw [run_more h.room (byte_command hstate (by decide)) (pending_state (by simp))]
        exact ih ⟨h.room, by simp, .inr (.inl hport)⟩ hms
      | frameBody =>
        rw [run_skip h.room (byte_fend hstate) (h.pending _)]
        exact ih ⟨h.room, by simp, h.other⟩ hms
      | frameEscape => exact absurd hstate h.state

/-- The rest of a read is lost up to its end. -/
theorem run_rest {n : Nat} {m : List (UInt8 × Bool)} (h : last :: m.map (·.2) = List.replicate n false ++ [true]) :
    run len false (!last) d (m ++ ms) = run len false false d ms := by
  induction n generalizing last m with
  | zero =>
    obtain ⟨rfl, hm⟩ := List.cons.inj h
    rw [List.map_eq_nil_iff] at hm
    subst hm
    rfl
  | succ n ih =>
    obtain ⟨rfl, hm⟩ := List.cons.inj h
    cases m with
    | nil => simp at hm
    | cons x m =>
      rw [List.cons_append]
      exact ih hm

/-! ## Streams -/

/-- The decoder after a frame that was not for the server. -/
theorem calm_frame {x : KissItem} (hroom : d.got.length + x.stored.length < len)
    (hpay : ¬(x.command = PATTY_KISS_DATA ∧ d.got ++ x.stored ≠ [])) :
    Calm len ⟨.frameCommand, x.command &&& 0x0f, (x.command &&& 0xf0) >>> 4, d.got ++ x.stored⟩ := by
  refine ⟨by simpa using hroom, by simp, ?_⟩
  by_cases hgot : d.got ++ x.stored = []
  · exact .inr (.inr hgot)
  · have hcommand : ¬x.command = PATTY_KISS_DATA := fun h => hpay ⟨h, hgot⟩
    rw [← command_data] at hcommand
    by_cases hlow : x.command &&& 0x0f = 0
    · exact .inr (.inl fun hport => hcommand ⟨hlow, hport⟩)
    · exact .inl hlow

/-- The decoder after it has given a payload. -/
theorem calm_flush (hlen : 0 < len) : d.flush.Calm len where
  room := hlen
  state := by simp [flush]
  other := .inl (show PATTY_KISS_RETURN ≠ PATTY_KISS_DATA by decide)

/-- The two FENDs after a payload. -/
theorem run_flush {l : Bool} (hlen : 0 < len) :
    run len keep false d.flush ((PATTY_KISS_FEND, l) :: ms) =
      run len keep false { d.flush with state := .frameCommand } ms :=
  run_more hlen rfl ((calm_flush hlen).pending _)

/-- A frame with the FENDs after it, cut out of a stream. -/
theorem split_item {x : KissItem} {items : List KissItem} (hfends : 0 < x.fends)
    (hms : ms.map (·.1) = (x :: items).flatMap KissItem.wire) : ∃ m l gap rest,
      ms = m ++ (PATTY_KISS_FEND, l) :: (gap ++ rest) ∧ m.map (·.1) = x.octets ∧
      gap.map (·.1) = List.replicate (x.fends - 1) PATTY_KISS_FEND ∧
      rest.map (·.1) = items.flatMap KissItem.wire := by
  obtain ⟨n, hn⟩ : ∃ n, x.fends = n + 1 := ⟨x.fends - 1, by omega⟩
  rw [List.flatMap_cons, KissItem.wire, List.append_assoc, hn, List.replicate_succ] at hms
  obtain ⟨m, ms₁, rfl, hm, hms₁⟩ := List.map_eq_append_iff.mp hms
  obtain ⟨l, ms₂, rfl, hms₂⟩ := head_of_map hms₁
  obtain ⟨gap, rest, rfl, hgap, hrest⟩ := List.map_eq_append_iff.mp hms₂
  exact ⟨m, l, gap, rest, rfl, hm, by rw [hn]; exact hgap, hrest⟩

/-- What the gap after the first of two frames is, and the gaps after the others. -/
theorem gaps_split {x y : KissItem} {items : List KissItem} {m gap rest : List (UInt8 × Bool)} {l : Bool}
    (hm : m.map (·.1) = x.octets) (hgap : gap.map (·.1) = List.replicate (x.fends - 1) PATTY_KISS_FEND)
    (hfends : 0 < x.fends)
    (h : Gaps (x :: y :: items) ((m ++ (PATTY_KISS_FEND, l) :: (gap ++ rest)).map (·.2))) :
    (x.payload.isSome → x.fends = 2) ∧
    (x.payload = none → l :: gap.map (·.2) = List.replicate (x.fends - 1) false ++ [true]) ∧
    Gaps (y :: items) (rest.map (·.2)) := by
  have hmlen : x.octets.length = (m.map (·.2)).length := by
    rw [← hm, List.length_map, List.length_map]
  have hgaplen : x.fends = (l :: gap.map (·.2)).length := by
    have hlen := congrArg List.length hgap
    rw [List.length_map, List.length_replicate] at hlen
    rw [List.length_cons, List.length_map]
    omega
  have hwire : x.wire.length = (m.map (·.2) ++ (l :: gap.map (·.2))).length := by
    rw [KissItem.wire, List.length_append, List.length_replicate, List.length_append, hmlen, ← hgaplen]
  have hsplit : (m ++ (PATTY_KISS_FEND, l) :: (gap ++ rest)).map (·.2) =
      m.map (·.2) ++ ((l :: gap.map (·.2)) ++ rest.map (·.2)) := by simp
  rw [hsplit] at h
  obtain ⟨hfirst, hrest⟩ := h
  rw [hwire, ← List.append_assoc, List.drop_left] at hrest
  refine ⟨fun hpay => ?_, fun hpay => ?_, hrest⟩
  · rwa [if_pos hpay] at hfirst
  · rw [if_neg (by simp [hpay]), hmlen, List.drop_left] at hfirst
    have htake : ((l :: gap.map (·.2)) ++ rest.map (·.2)).take x.fends = l :: gap.map (·.2) := by
      rw [hgaplen, List.take_left]
    exact htake.symm.trans hfirst

theorem stored_data {x : KissItem} (h : x.command = PATTY_KISS_DATA) : x.stored = x.contents := by
  simp [KissItem.stored, h]

/-- A frame for the server gives its payload. -/
theorem run_payload {x : KissItem} {m : List (UInt8 × Bool)} {l : Bool} (hstate : d.state = .frameCommand)
    (hgot : d.got = []) (hdata : x.command = PATTY_KISS_DATA) (hne : x.contents ≠ [])
    (hroom : x.contents.length < len) (hm : m.map (·.1) = x.octets) :
    ∃ d' : Dec, run len keep false d (m ++ (PATTY_KISS_FEND, l) :: ms) =
      (run len keep false d'.flush ms).map fun r => (x.contents :: r.1, r.2) := by
  have hstored : d.got ++ x.stored = x.contents := by rw [hgot, stored_data hdata, List.nil_append]
  have hroom' : d.got.length + x.stored.length < len := by rwa [← List.length_append, hstored]
  have hcommand : x.command &&& 0x0f ≤ PATTY_KISS_HW_SET := by
    rw [hdata]
    decide
  refine ⟨⟨.frameCommand, x.command &&& 0x0f, (x.command &&& 0xf0) >>> 4, x.contents⟩, ?_⟩
  rw [run_octets hstate hcommand hroom' hm, hstored, run_frame hroom (byte_fend rfl)
    (pending_frame.mpr ⟨hdata, hne⟩)]

/-- A frame that is not for the server gives nothing. -/
theorem run_other {x : KissItem} {m : List (UInt8 × Bool)} {l : Bool} (hstate : d.state = .frameCommand)
    (hcommand : x.command &&& 0x0f ≤ PATTY_KISS_HW_SET) (hroom : d.got.length + x.stored.length < len)
    (hpay : ¬(x.command = PATTY_KISS_DATA ∧ d.got ++ x.stored ≠ [])) (hm : m.map (·.1) = x.octets) :
    run len keep false d (m ++ (PATTY_KISS_FEND, l) :: ms) = run len keep (!keep && !l)
      ⟨.frameCommand, x.command &&& 0x0f, (x.command &&& 0xf0) >>> 4, d.got ++ x.stored⟩ ms := by
  have hcalm := calm_frame hroom hpay
  have hbody : ({ state := .frameBody, command := x.command &&& 0x0f, port := (x.command &&& 0xf0) >>> 4,
                  got := d.got ++ x.stored } : Dec).got.length < len := hcalm.room
  rw [run_octets hstate hcommand hroom hm, run_skip hbody (byte_fend rfl) (hcalm.pending _)]

/-- From the first octet of a frame on, the run takes the payloads of the frames for the server. -/
theorem run_items {items : List KissItem} (hstate : d.state = .frameCommand)
    (hms : ms.map (·.1) = items.flatMap KissItem.wire) (hvalid : ∀ x ∈ items, x.Valid len)
    (hknown : ∀ x ∈ items, x.command ≠ PATTY_KISS_RETURN) (hgaps : Gaps items (ms.map (·.2)))
    (hroom : d.got.length + ((items.filter (·.payload.isNone)).map (·.stored.length)).sum < len)
    (hclean : items.Pairwise fun x y => x.payload = none → x.stored ≠ [] → y.command ≠ PATTY_KISS_DATA)
    (hgot : d.got ≠ [] → ∀ x ∈ items, x.command ≠ PATTY_KISS_DATA) :
    ∃ d', run len false false d ms = some (items.filterMap KissItem.payload, d') := by
  induction items generalizing d ms with
  | nil =>
    rw [List.flatMap_nil, List.map_eq_nil_iff] at hms
    subst hms
    exact ⟨d, by rw [run]; rfl⟩
  | cons x items ih =>
    rw [List.forall_mem_cons] at hvalid hknown
    rw [List.pairwise_cons] at hclean
    obtain ⟨hx, hvalid⟩ := hvalid
    have hcommand := hx.command.resolve_right hknown.1
    obtain ⟨m, l, gap, rest, rfl, hm, hgap, hrest⟩ := split_item hx.fends hms
    have hfends : ∀ c ∈ gap.map (·.1), c = PATTY_KISS_FEND := by
      rw [hgap]
      exact fun c hc => (List.mem_replicate.mp hc).2
    have hlen : 0 < len := by omega
    cases hpay : x.payload with
    | some p =>
      have hdata : x.command = PATTY_KISS_DATA ∧ x.contents ≠ [] ∧ x.contents = p := by
        rw [KissItem.payload] at hpay
        split at hpay
        · rename_i h
          exact ⟨h.1, h.2, Option.some.inj hpay⟩
        · cases hpay
      obtain ⟨hdata, hne, rfl⟩ := hdata
      have hempty : d.got = [] := by
        by_contra h
        exact hgot h x (List.mem_cons_self ..) hdata
      obtain ⟨d', hrun⟩ := @run_payload len false d (gap ++ rest) x m l hstate hempty hdata hne
        (hx.contents hdata) hm
      rw [List.filterMap_cons_some hpay, hrun]
      suffices h : ∃ d₂, run len false false d'.flush (gap ++ rest) =
          some (items.filterMap KissItem.payload, d₂) by
        obtain ⟨d₂, h⟩ := h
        exact ⟨d₂, by rw [h]; rfl⟩
      cases items with
      | nil =>
        rw [List.flatMap_nil, List.map_eq_nil_iff] at hrest
        subst hrest
        exact run_fends (calm_flush hlen) (by rwa [List.append_nil])
      | cons y items =>
        obtain ⟨htwo, -, hgaps'⟩ := gaps_split hm hgap hx.fends hgaps
        rw [htwo (by rw [hpay]; rfl)] at hgap
        obtain ⟨l', gap', rfl, hgap'⟩ := head_of_map hgap
        obtain rfl : gap' = [] := List.map_eq_nil_iff.mp hgap'
        rw [List.singleton_append, run_flush hlen]
        refine ih rfl hrest hvalid hknown.2 hgaps' ?_ hclean.2 (fun h => absurd rfl h)
        rw [List.filter_cons_of_neg (by simp [hpay])] at hroom
        change 0 + _ < len
        omega
    | none =>
      have hother : ¬(x.command = PATTY_KISS_DATA ∧ d.got ++ x.stored ≠ []) := by
        rintro ⟨hdata, hne⟩
        have hempty : d.got = [] := by
          by_contra h
          exact hgot h x (List.mem_cons_self ..) hdata
        rw [hempty, stored_data hdata, List.nil_append] at hne
        rw [KissItem.payload, if_pos ⟨hdata, hne⟩] at hpay
        cases hpay
      rw [List.filter_cons_of_pos (by simp [hpay]), List.map_cons, List.sum_cons] at hroom
      have hroom' : d.got.length + x.stored.length < len := by omega
      have hcalm := calm_frame hroom' hother
      rw [List.filterMap_cons_none hpay, run_other hstate hcommand hroom' hother hm]
      cases items with
      | nil =>
        rw [List.flatMap_nil, List.map_eq_nil_iff] at hrest
        subst hrest
        exact run_fends hcalm (by rwa [List.append_nil])
      | cons y items =>
        obtain ⟨-, hlost, hgaps'⟩ := gaps_split hm hgap hx.fends hgaps
        rw [Bool.not_false, Bool.true_and, run_rest (hlost hpay)]
        refine ih rfl hrest hvalid hknown.2 hgaps' ?_ hclean.2 fun h z hz hdata => ?_
        · change (d.got ++ x.stored).length + _ < len
          rw [List.length_append]
          omega
        · by_cases hstored : x.stored = []
          · refine hgot (fun hempty => h ?_) z (List.mem_cons_of_mem _ hz) hdata
            change d.got ++ x.stored = []
            rw [hempty, hstored, List.append_nil]
          · exact hclean.1 z hz hpay hstored hdata

end Dec

/-! ## What `handle_iface` takes -/

/-- Over these reads, `handle_iface` with a new decoder takes these payloads, and does not fail. -/
def Takes (len : Nat) (junk out : Mem) (reads payloads : List Bytes) : Prop :=
  ∃ tnc' out', Tnc.handleReads len reads (.new junk) out = .ok (true, payloads, tnc', out')

theorem new_fits (junk : Mem) (len : Nat) : (Tnc.new junk).Fits len :=
  ⟨Nat.zero_le _, Nat.zero_le _, Nat.zero_le _⟩

/-- However the stream is cut into reads, the frames for the server are taken and the others skipped, if
the decoder gets through it. -/
theorem skips_run (len lead : Nat) (junk out : Mem) (items : List KissItem) (reads : List Bytes)
    (hvalid : ∀ x ∈ items, x.Valid len) (hreads : Tnc.Readable reads)
    (hstream : reads.flatten = kissStream lead items)
    (hsep : Separate len lead items (Chunks.ends reads)) :
    Takes len junk out reads (items.filterMap KissItem.payload) := by
  have hms := (Chunks.flatMap_marks reads).trans hstream
  suffices h : ∃ d, Dec.run len false false .fresh (reads.flatMap Chunks.marks) =
      some (items.filterMap KissItem.payload, d) by
    obtain ⟨d, h⟩ := h
    exact Tnc.handleReads_run (new_fits junk len) hreads h
  have hfresh : Dec.fresh.Calm len := Dec.calm_flush (d := .fresh) (Nat.zero_lt_of_lt hsep.room)
  have hgaps := hsep.gaps
  rw [Chunks.ends] at hgaps
  generalize reads.flatMap Chunks.marks = ms at hms hgaps
  rw [kissStream] at hms
  cases items with
  | nil =>
    refine Dec.run_fends hfresh ?_
    rw [hms, List.flatMap_nil, List.append_nil]
    exact fun c hc => (List.mem_replicate.mp hc).2
  | cons x items =>
    rw [hsep.start (List.cons_ne_nil _ _)] at hms hgaps
    obtain ⟨l, ms, rfl, hms'⟩ := Dec.head_of_map hms
    have hfend : Dec.fresh.byte PATTY_KISS_FEND = .more { Dec.fresh with state := .frameCommand } := rfl
    rw [Dec.run_more hfresh.room hfend (hfresh.pending .frameCommand)]
    refine Dec.run_items rfl hms' hvalid hsep.known hgaps ?_ hsep.clean fun h => absurd rfl h
    change 0 + _ < len
    rw [Nat.zero_add]
    exact hsep.room

/-- A frame with a command, and a frame for the server after it. -/
def setThenData : List KissItem := [⟨0x06, [0x01], 2⟩, ⟨0x00, [0x41], 1⟩]

/-- Its payload is taken if a read ends before it. -/
theorem skips_setThenData : Takes 16 (fun _ => 0) (fun _ => 0)
    [[0xc0, 0x06, 0x01, 0xc0, 0xc0], [0x00, 0x41, 0xc0]] [[0x41]] :=
  skips_run 16 1 (fun _ => 0) (fun _ => 0) setThenData _ (by decide) (by decide) rfl
    ⟨fun _ => rfl, by decide, by decide, by decide, by decide⟩

/-- In one read it is lost. -/
theorem not_skips_setThenData : ¬∀ (len lead : Nat) (junk out : Mem) (items : List KissItem)
    (reads : List Bytes), 0 < lead → (∀ x ∈ items, x.Valid len) → Tnc.Readable reads →
    reads.flatten = kissStream lead items →
    Takes len junk out reads (items.filterMap KissItem.payload) := by
  intro h
  obtain ⟨tnc, out, hrun⟩ := h 16 1 (fun _ => 0) (fun _ => 0) setThenData
    [[0xc0, 0x06, 0x01, 0xc0, 0xc0, 0x00, 0x41, 0xc0]] Nat.one_pos (by decide) (by decide) rfl
  have hnone : (Tnc.handleReads 16 [[0xc0, 0x06, 0x01, 0xc0, 0xc0, 0x00, 0x41, 0xc0]]
      (.new fun _ => 0) fun _ => 0).map (·.2.1) = .ok [] := by decide
  rw [hrun] at hnone
  cases hnone

end Patty
