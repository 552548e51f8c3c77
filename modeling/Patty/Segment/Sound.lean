import Patty.Segment.Effect

/-! # What a reassembled message is made of

A message that `handle_segment` writes is made of the latest segment with the first-segment bit and of
the segments that were accepted after it, provided that first segment began it (`sound_run`): when it
came, the reassembler was made anew for it or waited for it with nothing stored, and it was stored. A
first segment that finds the reassembler waiting for as many segments goes on with the message under way
instead (`not_sound_restart`). -/

namespace Patty

/-- The segment is the first of a message. -/
def Frame.Starts (f : Frame) : Prop := 1 ≤ f.infolen ∧ f.segFirst = true

instance (f : Frame) : Decidable f.Starts := inferInstanceAs (Decidable (_ ∧ _))

/-- A segment, and the socket that it finds. -/
structure Handed where
  sock : Sock
  frame : Frame

namespace Handed

/-- The segment is not stored, whatever the reassembler holds. -/
def Refused (x : Handed) : Prop :=
  x.frame.segRefused x.sock.nMaxlenRx ∨ sizeSub x.sock.nMaxlenRx 1 < x.frame.segData.length

/-- The segment begins a message: it is stored where the reassembler starts. -/
structure Begins (x : Handed) : Prop where
  taken : ¬x.Refused
  fresh : x.sock.assembler.all (·.total < x.frame.segCount + 1) ∨
    ∃ a, x.sock.assembler = some a ∧ a.offset = 0 ∧ a.Awaits x.frame.segCount

/-- The segment completes the message under way. -/
structure Completes (x : Handed) : Prop where
  taken : ¬x.Refused
  later : ¬x.frame.Starts
  last : x.frame.segCount = 0
  awaited : ∃ a, x.sock.assembler = some a ∧ a.Awaits 0

end Handed

/-- `x` is the latest segment with the first-segment bit, and `rest` came after it. -/
def Latest (past : List Handed) (x : Handed) (rest : List Handed) : Prop :=
  ∃ pre, past = pre ++ x :: rest ∧ x.frame.Starts ∧ ∀ y ∈ rest, ¬y.frame.Starts

/-- Of the segments that follow when `n` are to come, those accepted with counts that decrease by one, and
how many are to come after them. -/
inductive Taken (n : Nat) : List Handed → List Handed → Nat → Prop
  | nil : Taken n [] [] n
  | skip {rest acc : List Handed} {k : Nat} {y : Handed} : Taken n rest acc k → y.Refused →
    Taken n (rest ++ [y]) acc k
  | take {rest acc : List Handed} {k : Nat} {y : Handed} : Taken n rest acc k → ¬y.Refused →
    y.frame.segCount + 1 = k → Taken n (rest ++ [y]) (acc ++ [y]) y.frame.segCount

/-- What the segments carry. -/
def datas (l : List Handed) : Bytes := l.flatMap (·.frame.segData)

/-- The message is the data of the latest segment with the first-segment bit and of the segments accepted
after it, down to the last, without the PID. -/
def Sound (past : List Handed) (m : Bytes) : Prop :=
  ∃ x rest acc, Latest past x rest ∧ Taken x.frame.segCount rest acc 0 ∧ m = (datas (x :: acc)).drop 1

/-! ## Runs -/

/-- The server between two segments, and the segments that the socket was handed. -/
structure Reassembly where
  world : World
  past : List Handed

/-- A segment, and the server that is to handle it. -/
structure SegArrival where
  frame : Frame
  world : World

/-- `handle_segment` handles a segment for the socket `p`. Since the one before it, the server has left
the reassembler alone. -/
inductive SegStep (p : Ptr) (t : Reassembly) (x : SegArrival) : Reassembly → Prop
  | intro {s : Sock} {w' : World} : x.world.heap p = some s →
    (t.world.heap p).map (·.assembler) = some s.assembler →
    (M.handleSegment p x.frame).after x.world = some w' →
    SegStep p t x ⟨w', t.past ++ [⟨s, x.frame⟩]⟩

/-- What the step writes to the pty is sound. -/
def WritesSound (p : Ptr) (_ : Reassembly) (x : SegArrival) (u : Reassembly) : Prop :=
  ∀ s m, x.world.heap p = some s → u.world.written = x.world.written ++ [(s.fd, m)] → Sound u.past m

/-- If the segment completes a message and the pty takes it, the latest segment with the first-segment bit
began it. -/
def Begun (p : Ptr) (t : Reassembly) (x : SegArrival) : Prop :=
  ∀ s, x.world.heap p = some s → Handed.Completes ⟨s, x.frame⟩ → x.world.sys.refuses = false →
    ∃ y rest, Latest t.past y rest ∧ y.Begins

/-! ## The invariant -/

theorem latest_snoc {past : List Handed} {x y : Handed} {rest : List Handed} :
    Latest (past ++ [y]) x rest ↔
      y.frame.Starts ∧ x = y ∧ rest = [] ∨
      ¬y.frame.Starts ∧ ∃ rest', rest = rest' ++ [y] ∧ Latest past x rest' := by
  constructor
  · rintro ⟨pre, heq, hx, hrest⟩
    rcases List.eq_nil_or_concat rest with rfl | ⟨rest', z, rfl⟩
    · obtain ⟨-, rfl⟩ := List.append_singleton_inj.mp heq
      exact .inl ⟨hx, rfl, rfl⟩
    · rw [List.concat_eq_append, ← List.cons_append, ← List.append_assoc] at heq
      obtain ⟨rfl, rfl⟩ := List.append_singleton_inj.mp heq
      simp only [List.concat_eq_append, List.mem_append, List.mem_singleton] at hrest
      exact .inr ⟨hrest y (.inr rfl), rest', by simp, pre, rfl, hx, fun z hz => hrest z (.inl hz)⟩
  · rintro (⟨hy, rfl, rfl⟩ | ⟨hy, rest', rfl, pre, rfl, hx, hrest⟩)
    · exact ⟨past, rfl, hy, by simp⟩
    · refine ⟨pre, by simp, hx, fun z hz => ?_⟩
      rcases List.mem_append.mp hz with hz | hz
      · exact hrest z hz
      · exact List.mem_singleton.mp hz ▸ hy

/-- The reassembler holds the message that the latest first segment began, if one did. -/
def Holds (past : List Handed) (asm : Option Assembler) : Prop :=
  ∀ x rest, Latest past x rest → x.Begins → ∀ a, asm = some a → a.total ≠ 0 →
    ∃ acc, Taken x.frame.segCount rest acc a.remaining ∧ a.stored = datas (x :: acc)

theorem not_starts {f : Frame} {n : Nat} (href : ¬f.segRefused n) (h : ¬f.Starts) :
    f.segFirst = false := by
  have hlen : ¬f.infolen < 2 := fun h => href (.inl h)
  by_contra hfirst
  exact h ⟨by omega, by simpa using hfirst⟩

theorem datas_append (l l' : List Handed) : datas (l ++ l') = datas l ++ datas l' :=
  List.flatMap_append

theorem Opens.later {s : Sock} {f : Frame} {asm : Option Assembler} (h : Opens s f asm)
    (hf : f.segFirst = false) : s.assembler = asm := by
  cases h with
  | next => rfl
  | kept h => exact absurd (h.symm.trans hf) (by simp)
  | new _ h => exact absurd (h.symm.trans hf) (by simp)

theorem Saves.remaining {s : Sock} {f : Frame} {a : Assembler} (h : Saves s f a) :
    (a.save f.segData).remaining = f.segCount := by
  change a.remaining - 1 = f.segCount
  rw [← h.awaited.2, Nat.add_sub_cancel]

section

variable {s : Sock} {f : Frame} {refuses : Bool} {asm : Option Assembler} {msg : Option Bytes}
  {past : List Handed}

/-- A later segment that is stored is the one that is awaited. -/
theorem Saves.takes {a : Assembler} (h : Saves s f a) (hf : ¬f.Starts) (hpast : Holds past s.assembler)
    {x : Handed} {rest : List Handed} (hx : Latest past x rest) (hb : x.Begins) :
    ∃ acc, Taken x.frame.segCount (rest ++ [⟨s, f⟩]) acc f.segCount ∧
      (a.save f.segData).stored = datas (x :: acc) := by
  have ha : s.assembler = some a := h.opens.later (not_starts h.taken hf)
  have htaken : ¬Handed.Refused ⟨s, f⟩ := not_or.mpr ⟨h.taken, Nat.not_lt.mpr h.short⟩
  obtain ⟨acc, hacc, hstored⟩ := hpast x rest hx hb a ha h.awaited.1
  refine ⟨acc ++ [⟨s, f⟩], .take hacc htaken h.awaited.2, ?_⟩
  rw [Assembler.stored_save, hstored, ← List.cons_append, datas_append]
  exact congrArg _ (List.append_nil f.segData).symm

namespace SegmentEffect

/-- The first segment that begins a message is stored, and nothing else is. -/
theorem begins (h : SegmentEffect s f refuses asm msg) (hf : f.Starts) (hb : Handed.Begins ⟨s, f⟩)
    {a : Assembler} (ha : asm = some a) (htotal : a.total ≠ 0) :
    a.remaining = f.segCount ∧ a.stored = f.segData := by
  have hsave {a₀ : Assembler} (hsaves : Saves s f a₀) :
      (a₀.save f.segData).remaining = f.segCount ∧ (a₀.save f.segData).stored = f.segData := by
    refine ⟨hsaves.remaining, ?_⟩
    have hopens := hsaves.opens
    have hoffset : a₀.offset = 0 := by
      generalize hsome : some a₀ = asm₀ at hopens
      cases hopens with
      | next hno => exact absurd (hf.2.symm.trans hno) (by simp)
      | @kept b _ hb₀ hle =>
        obtain rfl := Option.some.inj hsome
        rcases hb.fresh with hlt | ⟨c, hc, hzero, -⟩
        · simp only [hb₀, Option.all_some, decide_eq_true_eq] at hlt
          omega
        · obtain rfl := Option.some.inj (hc.symm.trans hb₀)
          exact hzero
      | new m => exact (Option.some.inj hsome) ▸ rfl
    rw [Assembler.stored_save, List.eq_nil_of_length_eq_zero (a₀.stored_length.trans hoffset),
      List.nil_append]
  cases h with
  | refused href => exact absurd (.inl href) hb.taken
  | noMemory => cases ha
  | stopped =>
    obtain ⟨b, -, rfl⟩ := Option.map_eq_some_iff.mp ha
    exact absurd rfl htotal
  | overlong _ _ _ hlong => exact absurd (.inr hlong) hb.taken
  | saved hsaves =>
    cases ha
    exact hsave hsaves
  | unwritten hsaves =>
    cases ha
    exact hsave hsaves
  | delivered =>
    cases ha
    exact absurd rfl htotal

/-- The invariant of a run. -/
theorem holds (h : SegmentEffect s f refuses asm msg) (hpast : Holds past s.assembler) :
    Holds (past ++ [⟨s, f⟩]) asm := by
  intro x rest hx hb a ha htotal
  rcases latest_snoc.mp hx with ⟨hf, rfl, rfl⟩ | ⟨hf, rest, rfl, hx'⟩
  · obtain ⟨hrem, hstored⟩ := h.begins hf hb ha htotal
    exact ⟨[], hrem ▸ .nil, by simp [hstored, datas]⟩
  · have hsave {a₀ : Assembler} (hsaves : Saves s f a₀) :
        ∃ acc, Taken x.frame.segCount (rest ++ [⟨s, f⟩]) acc (a₀.save f.segData).remaining ∧
          (a₀.save f.segData).stored = datas (x :: acc) :=
      hsaves.remaining ▸ hsaves.takes hf hpast hx' hb
    cases h with
    | refused href =>
      obtain ⟨acc, hacc, hstored⟩ := hpast x rest hx' hb a ha htotal
      exact ⟨acc, .skip hacc (.inl href), hstored⟩
    | noMemory => cases ha
    | stopped =>
      obtain ⟨b, -, rfl⟩ := Option.map_eq_some_iff.mp ha
      exact absurd rfl htotal
    | overlong href hopens _ hlong =>
      cases ha
      obtain ⟨acc, hacc, hstored⟩ := hpast x rest hx' hb a (hopens.later (not_starts href hf)) htotal
      exact ⟨acc, .skip hacc (.inr hlong), hstored⟩
    | saved hsaves =>
      cases ha
      exact hsave hsaves
    | unwritten hsaves =>
      cases ha
      exact hsave hsaves
    | delivered =>
      cases ha
      exact absurd rfl htotal

/-- What is written at the end. -/
theorem sound {m : Bytes} (h : SegmentEffect s f refuses asm (some m)) (hpast : Holds past s.assembler)
    (hbegun : Handed.Completes ⟨s, f⟩ → refuses = false → ∃ y rest, Latest past y rest ∧ y.Begins) :
    Sound (past ++ [⟨s, f⟩]) m := by
  generalize hmsg : some m = msg at h
  cases h with
  | @delivered a hsaves hcount hrefuses =>
    obtain rfl := Option.some.inj hmsg
    have hf : ¬f.Starts := fun hf => hsaves.taken (.inr (.inl ⟨hf.2, hcount⟩))
    have ha : s.assembler = some a := hsaves.opens.later (not_starts hsaves.taken hf)
    have hcompletes : Handed.Completes ⟨s, f⟩ :=
      ⟨not_or.mpr ⟨hsaves.taken, Nat.not_lt.mpr hsaves.short⟩, hf, hcount, a, ha, hcount ▸ hsaves.awaited⟩
    obtain ⟨y, rest, hy, hb⟩ := hbegun hcompletes hrefuses
    obtain ⟨acc, hacc, hstored⟩ := hsaves.takes hf hpast hy hb
    exact ⟨y, _, acc, latest_snoc.mpr (.inr ⟨hf, rest, rfl, hy⟩), hcount ▸ hacc, by rw [hstored]⟩
  | _ => cases hmsg

end SegmentEffect

end

/-- The invariant between two segments. -/
def Reassembly.Kept (p : Ptr) (t : Reassembly) : Prop :=
  ∀ s, t.world.heap p = some s → Holds t.past s.assembler

/-- A step keeps the invariant, and what it writes is sound if a first segment began the message. -/
theorem sound_step {p : Ptr} {t u : Reassembly} {x : SegArrival} (ht : t.Kept p) (hbegun : Begun p t x)
    (h : SegStep p t x u) : u.Kept p ∧ WritesSound p t x u := by
  obtain @⟨s, w', hs, hasm, hafter⟩ := h
  have hpast : Holds t.past s.assembler := by
    obtain ⟨s₀, hs₀, heq⟩ := Option.map_eq_some_iff.mp hasm
    exact heq ▸ ht s₀ hs₀
  obtain ⟨asm, msg, heffect, hheap, hwritten⟩ := (M.handleSegment_spec hs).after hafter
  constructor
  · intro s' hs'
    obtain rfl := Option.some.inj (hheap.symm.trans hs')
    exact heffect.holds hpast
  · intro s' m hs' hm
    obtain rfl := Option.some.inj (hs.symm.trans hs')
    have hmsg : msg = some m := by
      have htail := List.append_cancel_left (hwritten.symm.trans hm)
      cases msg with
      | none => cases htail
      | some m' => simpa using htail
    exact (hmsg ▸ heffect).sound hpast (hbegun s hs)

/-- In every run of segments each of whose messages was begun by its first segment, each message is sound. -/
theorem sound_run {p : Ptr} {w : World} {l : List (SegArrival × Reassembly)}
    (hl : Trace (SegStep p) ⟨w, []⟩ l) (hbegun : Meets (Begun p) ⟨w, []⟩ l) :
    Each (WritesSound p) ⟨w, []⟩ l := by
  have hstart : Reassembly.Kept p ⟨w, []⟩ := by
    rintro s - x rest ⟨pre, hnil, -⟩
    simp at hnil
  exact hl.each (fun _ _ _ ht hC h => sound_step ht hC h) hstart hbegun

/-! ## A message, and one that is begun twice -/

/-- A segment with the header `header` and the data `bs`. -/
def segment (header : UInt8) (bs : Bytes) : Frame := fragmentFrame .i 0 (header :: bs)

/-- The server after the segment, if it does not fault. -/
def World.segment (w : World) (f : Frame) : Option World := (M.handleSegment 0 f).after w

/-- The run that hands the segments to the socket 0, one after the other. -/
def World.segments (w : World) (past : List Handed) : List Frame → List (SegArrival × Reassembly)
  | [] => []
  | f :: l =>
    match w.heap 0, w.segment f with
    | some s, some w' =>
      (⟨f, w⟩, ⟨w', past ++ [⟨s, f⟩]⟩) :: w'.segments (past ++ [⟨s, f⟩]) l
    | _, _ => []

theorem segments_trace : ∀ (l : List Frame) (w : World) (past : List Handed),
    Trace (SegStep 0) ⟨w, past⟩ (w.segments past l)
  | [], _, _ => .nil
  | f :: l, w, past => by
    rw [World.segments]
    split
    · rename_i s w' hs hw'
      exact .cons (.intro hs (by rw [hs]; rfl) hw') (segments_trace l w' _)
    · exact .nil

theorem segments_cons {w w' : World} {past : List Handed} {f : Frame} {l : List Frame} {s : Sock}
    (hs : w.heap 0 = some s) (hw : w.segment f = some w') : w.segments past (f :: l) =
      (⟨f, w⟩, ⟨w', past ++ [⟨s, f⟩]⟩) :: w'.segments (past ++ [⟨s, f⟩]) l := by
  rw [World.segments, hs, hw]

/-- The socket after a segment. -/
theorem segment_sock {w w' : World} {f : Frame} {s : Sock} (hs : w.heap 0 = some s)
    (hw : w.segment f = some w') : ∃ asm, w'.heap 0 = some { s with assembler := asm } := by
  obtain ⟨asm, -, -, hheap, -⟩ := (M.handleSegment_spec hs).after hw
  exact ⟨asm, hheap⟩

/-- A message of two segments is sound. -/
theorem sound_twoSegments :
    Each (WritesSound 0) ⟨.withSock acceptedSock, []⟩ ((World.withSock acceptedSock).segments []
      [segment 0x81 [0xf0, 0x61], segment 0x00 [0x62]]) := by
  refine sound_run (segments_trace _ _ _) ?_
  rw [World.segments]
  split
  · rename_i s w' hs _
    obtain rfl : acceptedSock = s := Option.some.inj hs
    have hstarts : (segment 0x81 [0xf0, 0x61]).Starts := by decide
    refine ⟨fun s _ hcompletes => absurd hstarts hcompletes.later, ?_⟩
    rw [World.segments]
    split
    · refine ⟨fun _ _ _ _ => ⟨_, [], ⟨[], rfl, hstarts, by simp⟩, ?_⟩, trivial⟩
      exact ⟨by rintro (h | h) <;> revert h <;> decide, .inl rfl⟩
    · trivial
  · trivial

/-- The first segment of a message of two, after the first of a message of three: the message that is
written has the data of both. -/
def restarted : List Frame :=
  [segment 0x82 [0xf0, 0x61], segment 0x81 [0xf0, 0x62], segment 0x00 [0x63]]

theorem restarted_written :
    ((World.withSock acceptedSock).segments [] restarted).map (·.2.world.written) =
      [[], [], [(3, [0x61, 0xf0, 0x62, 0x63])]] := by
  decide

theorem Taken.sublist {n k : Nat} {rest acc : List Handed} (h : Taken n rest acc k) :
    acc.Sublist rest := by
  induction h with
  | nil => exact .slnil
  | skip _ _ ih => exact ih.trans (List.sublist_append_left _ _)
  | take _ _ _ ih => exact ih.append (.refl _)

/-- Where two first segments and a last one came, what is sound has no data of the first of them. -/
theorem sound_length {s₁ s₂ s₃ : Sock} {f₁ f₂ f₃ : Frame} {m : Bytes}
    (h₂ : f₂.Starts) (h₃ : ¬f₃.Starts) (h : Sound [⟨s₁, f₁⟩, ⟨s₂, f₂⟩, ⟨s₃, f₃⟩] m) :
    m.length ≤ f₂.segData.length + f₃.segData.length - 1 := by
  obtain ⟨x, rest, acc, hlatest, htaken, rfl⟩ := h
  rcases (@latest_snoc [⟨s₁, f₁⟩, ⟨s₂, f₂⟩] _ _ _).mp hlatest with ⟨h, -⟩ | ⟨-, rest, rfl, hrest⟩
  · exact absurd h h₃
  · rcases (@latest_snoc [⟨s₁, f₁⟩] _ _ _).mp hrest with ⟨-, rfl, rfl⟩ | ⟨h, -⟩
    · rcases List.sublist_singleton.mp htaken.sublist with rfl | rfl
      · simp [datas]
        omega
      · simp [datas]
    · exact absurd h₂ h

theorem not_sound_restart : ¬∀ (p : Ptr) (w : World) (s : Sock) (l : List (SegArrival × Reassembly)),
    w.heap p = some s → s.type = .stream → s.state = .established → s.assembler = none →
    Trace (SegStep p) ⟨w, []⟩ l → Each (WritesSound p) ⟨w, []⟩ l := by
  intro h
  have heach := h 0 (.withSock acceptedSock) acceptedSock _ rfl rfl rfl rfl
    (segments_trace restarted _ _)
  have hwritten := restarted_written
  obtain ⟨w₁, hw₁⟩ := Option.isSome_iff_exists.mp
    (show ((World.withSock acceptedSock).segment (segment 0x82 [0xf0, 0x61])).isSome by decide)
  have hs₀ : (World.withSock acceptedSock).heap 0 = some acceptedSock := rfl
  obtain ⟨asm₁, hs₁⟩ := segment_sock hs₀ hw₁
  rw [restarted, segments_cons hs₀ hw₁] at heach hwritten
  cases hw₂ : w₁.segment (segment 0x81 [0xf0, 0x62]) with
  | none => simp [World.segments, hs₁, hw₂] at hwritten
  | some w₂ =>
    obtain ⟨asm₂, hs₂⟩ := segment_sock hs₁ hw₂
    rw [segments_cons hs₁ hw₂] at heach hwritten
    cases hw₃ : w₂.segment (segment 0x00 [0x63]) with
    | none => simp [World.segments, hs₂, hw₃] at hwritten
    | some w₃ =>
      rw [segments_cons hs₂ hw₃] at heach hwritten
      obtain ⟨-, -, hsound, -⟩ := heach
      simp only [List.map_cons, List.cons.injEq] at hwritten
      have hm := sound_length (by decide) (by decide)
        (hsound _ [0x61, 0xf0, 0x62, 0x63] hs₂ (by rw [hwritten.2.2.1, hwritten.2.1]; rfl))
      exact absurd hm (by decide)

end Patty
