import Patty.Receive

/-! # What a segment does to the reassembler

`handle_segment` refuses a segment, opens the reassembler for it, gives up the message it has, or stores
the segment, and with the last one writes the message (`handleSegment_spec`). -/

namespace Patty

namespace Frame

/-- The bit that marks the first segment of a message. -/
def segFirst (f : Frame) : Bool := f.infoAt 0 &&& 0x80 != 0

/-- How many segments are to follow. -/
def segCount (f : Frame) : Nat := (f.infoAt 0 &&& 0x7f).toNat

/-- What follows the header of the segment. -/
def segData (f : Frame) : Bytes := f.infoBytes.drop 1

/-- The segment is answered with SREJ whatever the reassembler holds. -/
def segRefused (f : Frame) (nMaxlenRx : Nat) : Prop :=
  f.infolen < 2 ∨ (f.segFirst = true ∧ f.segCount = 0) ∨ (f.segFirst = false ∧
    (0 < f.segCount ∧ f.infolen ≠ nMaxlenRx ∨ f.segCount = 0 ∧ nMaxlenRx < f.infolen))

instance (f : Frame) (nMaxlenRx : Nat) : Decidable (f.segRefused nMaxlenRx) :=
  inferInstanceAs (Decidable (_ ∨ _))

end Frame

namespace Assembler

/-- The reassembler before a message of `total` segments; its memory holds `m`. -/
def opened (total nMaxlenRx : Nat) (m : Mem) : Assembler :=
  { total, remaining := total, offset := 0, data := ⟨total * nMaxlenRx, m⟩ }

/-- It waits for a segment after which `count` follow. -/
def Awaits (a : Assembler) (count : Nat) : Prop := a.total ≠ 0 ∧ count + 1 = a.remaining

def stop (a : Assembler) : Assembler := { a with remaining := 0, total := 0 }

/-- The reassembler with the bytes stored after those it has. -/
def save (a : Assembler) (bs : Bytes) : Assembler :=
  { a with
    data := { a.data with mem := a.data.mem.store a.offset bs }
    offset := a.offset + bs.length
    remaining := a.remaining - 1 }

/-- What it has stored. -/
def stored (a : Assembler) : Bytes := a.data.mem.read 0 a.offset

theorem stored_length (a : Assembler) : a.stored.length = a.offset := Mem.length_read

theorem stored_save (a : Assembler) (bs : Bytes) : (a.save bs).stored = a.stored ++ bs := by
  have hfront : (a.data.mem.store a.offset bs).read 0 a.offset = a.data.mem.read 0 a.offset :=
    Mem.read_store_disjoint (.inl (by omega))
  have hback : (a.data.mem.store a.offset bs).read (0 + a.offset) bs.length = bs := by
    rw [Nat.zero_add]
    exact Mem.read_store_same
  simp only [stored, save, Mem.read_append, hfront, hback]

/-- The message without its first octet. -/
theorem read_stored (a : Assembler) : a.data.mem.read 1 (a.offset - 1) = a.stored.drop 1 := by
  rw [stored]
  cases a.offset with
  | zero => rfl
  | succ n =>
    rw [Mem.read_succ, List.drop_one, List.tail_cons]
    rfl

end Assembler

/-- The reassembler once it is opened for the segment: the one there is, or a new one. -/
inductive Opens (s : Sock) (f : Frame) : Option Assembler → Prop
  | next : f.segFirst = false → Opens s f s.assembler
  | kept {a : Assembler} : f.segFirst = true → s.assembler = some a → f.segCount + 1 ≤ a.total →
    Opens s f (some a)
  | new (m : Mem) : f.segFirst = true → s.assembler.all (·.total < f.segCount + 1) →
    Opens s f (some (.opened (f.segCount + 1) s.nMaxlenRx m))

/-- The segment is stored in `a`, the reassembler once it is opened. -/
structure Saves (s : Sock) (f : Frame) (a : Assembler) : Prop where
  taken : ¬f.segRefused s.nMaxlenRx
  opens : Opens s f (some a)
  awaited : a.Awaits f.segCount
  short : f.segData.length ≤ sizeSub s.nMaxlenRx 1
  fits : a.offset + f.segData.length ≤ a.data.size

/-- What a segment makes of the reassembler of `s`, and the message that it writes. `refuses` says that
the pty does not take it. -/
inductive SegmentEffect (s : Sock) (f : Frame) (refuses : Bool) : Option Assembler → Option Bytes → Prop
  | refused : f.segRefused s.nMaxlenRx → SegmentEffect s f refuses s.assembler none
  | noMemory : ¬f.segRefused s.nMaxlenRx → f.segFirst = true → SegmentEffect s f refuses none none
  | stopped {asm : Option Assembler} : ¬f.segRefused s.nMaxlenRx → Opens s f asm →
    (∀ a, asm = some a → ¬a.Awaits f.segCount) → SegmentEffect s f refuses (asm.map .stop) none
  | overlong {a : Assembler} : ¬f.segRefused s.nMaxlenRx → Opens s f (some a) → a.Awaits f.segCount →
    sizeSub s.nMaxlenRx 1 < f.segData.length → SegmentEffect s f refuses (some a) none
  | saved {a : Assembler} : Saves s f a → f.segCount ≠ 0 →
    SegmentEffect s f refuses (some (a.save f.segData)) none
  | unwritten {a : Assembler} : Saves s f a → f.segCount = 0 → refuses = true →
    SegmentEffect s f refuses (some (a.save f.segData)) none
  | delivered {a : Assembler} : Saves s f a → f.segCount = 0 → refuses = false →
    SegmentEffect s f refuses (some (a.save f.segData).stop) (some ((a.save f.segData).stored.drop 1))

/-- The socket `p` is `s` but for its reassembler, which is `asm`, and `msg` was written to its pty. -/
def Segmented (p : Ptr) (s : Sock) (written : List (Nat × Bytes)) (asm : Option Assembler)
    (msg : Option Bytes) (w : World) : Prop :=
  w.heap p = some { s with assembler := asm } ∧
    w.written = written ++ (msg.map fun m => (s.fd, m)).toList

namespace M

open Prog

variable {w : World} {p : Ptr} {s : Sock} {frame : Frame}

theorem mute_assemblerInit {n : Nat} : Mute (assemblerInit s n) :=
  .ite (mute_setErrno.bind fun _ => .pure)
    (.ite ((mute_answer.bind fun _ => .ite .pure (mute_setErrno.bind fun _ => .pure)).bind fun _ =>
      .ite (mute_answer.bind fun _ => .pure) .pure) .pure)

/-- What `patty_ax25_sock_assembler_init` returns for a message of `n` segments. -/
inductive AssemblerInit (s : Sock) (n : Nat) : Bool × Sock → Prop
  | noMemory : AssemblerInit s n (false, { s with assembler := none })
  | new (m : Mem) : s.assembler.all (·.total < n) →
    AssemblerInit s n (true, { s with assembler := some (.opened n s.nMaxlenRx m) })
  | kept {a : Assembler} : s.assembler = some a → n ≤ a.total → AssemblerInit s n (true, s)

theorem assemblerInit_spec {n : Nat} (hn : 2 ≤ n) : wp (assemblerInit s n)
    (fun r w' => w'.sys.refuses = w.sys.refuses ∧ AssemblerInit s n r) (fun _ => True) w := by
  rw [assemblerInit, if_neg (by omega), wp_ite]
  refine ⟨fun hall => ?_, fun hall => ⟨rfl, ?_⟩⟩
  · have hjunk {w₁ : World} (h : w₁.sys.refuses = w.sys.refuses) : wp junk
        (fun m w' => w'.sys.refuses = w.sys.refuses ∧
          AssemblerInit s n (true, { s with assembler := some (.opened n s.nMaxlenRx m) }))
        (fun _ => True) w₁ := by
      rw [junk, wp_answer]
      exact ⟨fun _ => ⟨h, .new _ hall⟩, fun m _ _ => ⟨h, .new m hall⟩⟩
    rw [wp_bind, alloc, wp_bind, wp_answer]
    refine ⟨fun _ => wp_bind.mpr (hjunk rfl), fun ok as _ => ?_⟩
    cases ok with
    | true => exact wp_bind.mpr (hjunk rfl)
    | false => exact ⟨rfl, .noMemory⟩
  · cases ha : s.assembler with
    | none => simp [ha] at hall
    | some a => exact .kept ha (by simpa [ha] using hall)

/-- An answer with SREJ. -/
theorem segmented_srej {s' : Sock} {asm : Option Assembler} (hp : w.heap p = some s')
    (hs : s' = { s with assembler := asm }) {written : List (Nat × Bytes)} (hw : w.written = written) :
    wp (sendSrej s' .response) (fun _ => Segmented p s written asm none) (fun _ => True) w := by
  refine wp_intro fun r w' h => ⟨?_, ?_⟩
  · rw [← hs, ← hp]
    exact congrFun (congrArg Core.heap (quiet_sendSrej.core _ _ _ h)) p
  · rw [Option.map_none, Option.toList_none, List.append_nil, ← hw]
    exact mute_frameSend _ _ _ h

/-- Storing a segment in the reassembler that waits for it. -/
theorem segmentSave_spec {s₁ : Sock} {asm : Option Assembler} (hs : s₁ = { s with assembler := asm })
    (href : ¬frame.segRefused s.nMaxlenRx) (hopens : Opens s frame asm) (hp : w.heap p = some s₁) :
    wp (segmentSave p s₁ frame frame.segCount) (fun _ w' => ∃ asm' msg,
      SegmentEffect s frame w.sys.refuses asm' msg ∧ Segmented p s w.written asm' msg w')
      (fun _ => True) w := by
  subst hs
  rw [segmentSave, wp_ite]
  constructor
  · intro hpend
    have hno : ∀ a, asm = some a → ¬a.Awaits frame.segCount := by
      rintro a rfl ⟨htotal, hcount⟩
      simp [Sock.assemblerPending, htotal, hcount] at hpend
    rw [wp_bind, wp_store]
    exact (segmented_srej heap_setSock rfl rfl).post fun _ w' h => ⟨_, _, .stopped href hopens hno, h⟩
  · intro hpend
    obtain ⟨a, rfl, haw⟩ : ∃ a, asm = some a ∧ a.Awaits frame.segCount := by
      cases asm with
      | none => simp [Sock.assemblerPending] at hpend
      | some a => exact ⟨a, rfl, by simpa [Sock.assemblerPending, Assembler.Awaits] using hpend⟩
    rw [wp_bind, wp_lift]
    refine ⟨fun r hr => ?_, fun _ _ => trivial⟩
    rw [Sock.assemblerSave] at hr
    split at hr
    · rename_i hlong
      cases hr
      exact ⟨_, _, .overlong href hopens haw hlong, hp, by simp [World.written]⟩
    · rename_i hlong
      dsimp only at hr
      rw [if_neg (by have := haw.2; omega)] at hr
      split at hr
      · cases hr
      · rename_i hroom
        cases hr
        have hsaves : Saves s frame a :=
          ⟨href, hopens, haw, Nat.not_lt.mp hlong, Nat.not_lt.mp hroom⟩
        have hread := (a.save frame.segData).read_stored
        dsimp only
        rw [wp_bind, wp_store, wp_ite]
        refine ⟨fun hcount => ?_, fun hcount => ?_⟩
        · exact ⟨_, _, .saved hsaves hcount, heap_setSock, (List.append_nil _).symm⟩
        · rw [ne_eq, not_not] at hcount
          rw [Sock.assemblerRead, Option.map_some]
          dsimp only
          rw [wp_bind]
          refine writePty_spec.post fun ok w₁ hw₁ => ?_
          have hp₁ : w₁.heap p = some { s with assembler := some (a.save frame.segData) } :=
            (congrFun (congrArg Core.heap hw₁.1) p).trans heap_setSock
          have hok : ok = !w.sys.refuses := hw₁.2.1
          have hlog : w₁.log = if w.sys.refuses then w.log else w.log ++
              [.ptyWrite s.fd ((a.save frame.segData).data.mem.read 1
                ((a.save frame.segData).offset - 1))] := hw₁.2.2
          subst hok
          rw [wp_ite]
          cases hrefuses : w.sys.refuses with
          | true =>
            rw [hrefuses, if_pos rfl] at hlog
            refine ⟨fun h => absurd h (by simp), fun _ => ?_⟩
            exact ⟨_, _, .unwritten hsaves hcount rfl, hp₁,
              by rw [World.written, hlog]; exact (List.append_nil _).symm⟩
          | false =>
            rw [hrefuses, if_neg (by simp)] at hlog
            refine ⟨fun _ => ?_, fun h => absurd rfl h⟩
            refine ⟨_, _, .delivered hsaves hcount rfl, heap_setSock, ?_⟩
            change w₁.written = _
            rw [World.written, hlog, List.filterMap_append, ← hread]
            rfl

/-- What a segment does to the reassembler, and what it writes. -/
theorem handleSegment_spec (hp : w.heap p = some s) : wp (handleSegment p frame)
    (fun _ w' => ∃ asm msg, SegmentEffect s frame w.sys.refuses asm msg ∧
      Segmented p s w.written asm msg w') (fun _ => True) w := by
  have hrefused (h : frame.segRefused s.nMaxlenRx) : wp (sendSrej s .response)
      (fun _ w' => ∃ asm msg, SegmentEffect s frame w.sys.refuses asm msg ∧
        Segmented p s w.written asm msg w') (fun _ => True) w :=
    (segmented_srej hp rfl rfl).post fun _ w' hw' => ⟨_, _, .refused h, hw'⟩
  rw [handleSegment, wp_bind]
  refine wp_deref_some hp ?_
  dsimp only
  rw [wp_ite]
  refine ⟨fun hshort => hrefused (.inl hshort), fun hlong => ?_⟩
  rw [wp_ite]
  constructor
  · intro hfirst
    rw [wp_ite]
    refine ⟨fun hcount => hrefused (.inr (.inl ⟨hfirst, hcount⟩)), fun hcount => ?_⟩
    have hcount' : frame.segCount ≠ 0 := hcount
    have href : ¬frame.segRefused s.nMaxlenRx := by
      rintro (h | ⟨-, h⟩ | ⟨h, -⟩)
      · exact hlong h
      · exact hcount h
      · exact absurd (hfirst.symm.trans h) (by simp)
    rw [wp_bind]
    refine (assemblerInit_spec (by change 2 ≤ frame.segCount + 1; omega)).and
      ((quiet_assemblerInit (s := s)).core.wp (fun _ _ h => h) fun _ => trivial) |>.and
      (mute_assemblerInit.wp (fun _ _ h => h) fun _ => trivial) |>.post ?_
    rintro ⟨ok, s₁⟩ w₁ ⟨⟨⟨hsys, hinit⟩, hcore⟩, hmute⟩
    rw [wp_bind, wp_store, wp_ite]
    have hwritten : (w₁.setSock p s₁).written = w.written := hmute
    have hsys' : (w₁.setSock p s₁).sys.refuses = w.sys.refuses := hsys
    cases hinit with
    | noMemory =>
      refine ⟨fun h => absurd h (by simp), fun _ => ?_⟩
      exact ⟨_, _, .noMemory href hfirst, heap_setSock, hwritten.trans (List.append_nil _).symm⟩
    | new m hall =>
      refine ⟨fun _ => ?_, fun h => absurd rfl h⟩
      rw [← hsys', ← hwritten]
      exact segmentSave_spec rfl href (.new m hfirst hall) heap_setSock
    | kept ha hle =>
      refine ⟨fun _ => ?_, fun h => absurd rfl h⟩
      rw [← hsys', ← hwritten]
      exact segmentSave_spec rfl href (ha ▸ .kept hfirst ha hle) heap_setSock
  · intro hfirst
    have hfirst' : frame.segFirst = false := by simpa [Frame.segFirst] using hfirst
    rw [wp_ite]
    refine ⟨fun h => hrefused (.inr (.inr ⟨hfirst', .inl h⟩)), fun h₁ => ?_⟩
    rw [wp_ite]
    refine ⟨fun h => hrefused (.inr (.inr ⟨hfirst', .inr h⟩)), fun h₂ => ?_⟩
    have href : ¬frame.segRefused s.nMaxlenRx := by
      rintro (h | ⟨h, -⟩ | ⟨-, h | h⟩)
      · exact hlong h
      · exact absurd (hfirst'.symm.trans h) (by simp)
      · exact h₁ h
      · exact h₂ h
    exact segmentSave_spec rfl href (.next hfirst') hp

end M

/-- A segment in a frame of the given type. -/
def fragmentFrame (type : FrameType) (ns : Nat) (bs : Bytes) : Frame :=
  { iFrame ns 0 bs with type, proto := PATTY_AX25_PROTO_FRAGMENT }

end Patty
