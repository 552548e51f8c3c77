import Mathlib.Logic.Relation
import Patty.Kiss.Bounds

/-! # The reader of a KISS decoder (`tnc.c`)

Calling `patty_kiss_tnc_recv` again and again drains the decoder, flushes what is pending and fills its
buffer from the next read. `Reader.next` is a round of its loop, which `recvLoop_returns` connects to
the calls. As long as no octet finds the output buffer full, the reader delivers what the run of
`Dec` takes, drops nothing, and each call of `patty_kiss_tnc_drain` returns what it has taken (`Tracks`). -/

namespace Patty

namespace Tnc

/-- How many octets the loop of `patty_kiss_tnc_drain` takes. -/
def drainTaken (len : Nat) : Nat → Tnc → Mem → Nat
  | 0, _, _ => 0
  | fuel + 1, tnc, out =>
    if tnc.offsetI < tnc.readlen then
      match (tnc.checked len).take.drainByte out len ((tnc.checked len).buf (tnc.checked len).offsetI) with
      | .ok (.more tnc out) => drainTaken len fuel tnc out + 1
      | _ => 1
    else 0

/-- Without an error, `patty_kiss_tnc_drain` returns how many octets it has taken. -/
def Counts (len : Nat) (tnc : Tnc) (out : Mem) : Prop :=
  ∀ tnc' out', drainLoop len (PATTY_KISS_TNC_BUFSZ + 1) tnc out = .ok (true, tnc', out') →
    tnc.drain out len = .ok ((drainTaken len (PATTY_KISS_TNC_BUFSZ + 1) tnc out : Int), tnc', out')

end Tnc

/-- Calls of `patty_kiss_tnc_recv`, with the reads to come and the payloads that were returned. -/
structure Reader where
  reads : List Bytes
  tnc : Tnc
  out : Mem
  got : List Bytes

namespace Reader

def start (reads : List Bytes) (junk out : Mem) : Reader := ⟨reads, .new junk, out, []⟩

/-- A round of the loop of `patty_kiss_tnc_recv`, or its end with a payload. There is none once it returns
0 or -1. -/
def next (len : Nat) (x : Reader) : Option Reader :=
  if x.tnc.pending then
    some { x with tnc := x.tnc.flush.2, got := x.got ++ [x.out.read 0 x.tnc.flush.1] }
  else
    match x.tnc.drain x.out len with
    | .error _ => none
    | .ok (r, tnc, out) =>
      if r < 0 then none
      else if r = 0 then
        match x.reads with
        | [] => none
        | bs :: reads => if bs.isEmpty then none else some ⟨reads, tnc.fill bs, out, x.got⟩
      else some { x with tnc, out }

/-- `y` is reached from `x` by rounds. -/
abbrev Reaches (len : Nat) : Reader → Reader → Prop := Relation.ReflTransGen fun x y => x.next len = some y

/-- `patty_kiss_tnc_recv` returns 0, with the decoder then: all is read, and nothing is left. -/
def Closes (len : Nat) (x : Reader) (tnc : Tnc) : Prop :=
  x.reads = [] ∧ x.tnc.pending = false ∧ ∃ out, x.tnc.drain x.out len = .ok (0, tnc, out)

/-- What a call of `patty_kiss_tnc_recv` returns, and the rounds that it makes. -/
inductive Returns (len : Nat) (x : Reader) : Tnc.Received → Prop
  | payload {p : Bytes} {reads : List Bytes} {tnc : Tnc} {out : Mem} :
    Reaches len x ⟨reads, tnc, out, x.got ++ [p]⟩ → Returns len x (.payload p reads tnc out)
  | closed {y : Reader} {tnc : Tnc} : Reaches len x y → y.got = x.got → y.Closes len tnc → Returns len x .closed
  | failed : Returns len x .failed

/-! ## The rounds -/

section

variable {len : Nat} {x : Reader} {bs : Bytes} {reads : List Bytes} {n : Int} {tnc : Tnc} {out : Mem}

theorem next_flush (hp : x.tnc.pending = true) :
    x.next len = some { x with tnc := x.tnc.flush.2, got := x.got ++ [x.out.read 0 x.tnc.flush.1] } := if_pos hp

theorem next_drain (hp : x.tnc.pending = false) (hdrain : x.tnc.drain x.out len = .ok (n, tnc, out)) (hn : 0 < n) :
    x.next len = some { x with tnc, out } := by
  rw [next, if_neg (by simp [hp]), hdrain]
  dsimp only
  rw [if_neg (by omega), if_neg (by omega)]

theorem next_fill (hp : x.tnc.pending = false) (hdrain : x.tnc.drain x.out len = .ok (0, tnc, out))
    (hreads : x.reads = bs :: reads) (hbs : bs ≠ []) : x.next len = some ⟨reads, tnc.fill bs, out, x.got⟩ := by
  have hempty : bs.isEmpty = false := by simpa using hbs
  rw [next, if_neg (by simp [hp]), hdrain, hreads]
  simp only [Int.lt_irrefl, if_false, if_true, hempty, Bool.false_eq_true]

end

/-! ## The calls -/

variable {len fuel : Nat} {x y : Reader} {r : Tnc.Received}

theorem Returns.head (hnext : x.next len = some y) (hgot : y.got = x.got) (h : y.Returns len r) :
    x.Returns len r := by
  cases h with
  | payload hreaches =>
    rw [hgot] at hreaches
    exact .payload (.head hnext hreaches)
  | closed hreaches hgot' hcloses => exact .closed (.head hnext hreaches) (hgot'.trans hgot) hcloses
  | failed => exact .failed

/-- A call makes rounds up to what it returns. -/
theorem recvLoop_returns (hreads : ∀ bs ∈ x.reads, bs ≠ [])
    (h : Tnc.recvLoop len fuel x.reads x.tnc x.out = .ok r) : x.Returns len r := by
  induction fuel generalizing x with
  | zero =>
    cases h
    exact .failed
  | succ fuel ih =>
    obtain ⟨reads, tnc, out, got⟩ := x
    rw [Tnc.recvLoop] at h
    dsimp only at h hreads
    by_cases hp : tnc.pending
    · rw [if_pos hp] at h
      cases h
      exact .payload (.single (if_pos hp))
    · rw [if_neg hp] at h
      have hnext : next len ⟨reads, tnc, out, got⟩ = _ := if_neg hp
      cases hdrain : tnc.drain out len with
      | error e =>
        rw [hdrain] at h
        cases h
      | ok res =>
        obtain ⟨n, t, o⟩ := res
        rw [hdrain] at h hnext
        dsimp only at h hnext
        by_cases hneg : n < 0
        · rw [if_pos hneg] at h
          cases h
          exact .failed
        rw [if_neg hneg] at h hnext
        by_cases hzero : n = 0
        · rw [if_pos hzero] at h hnext
          subst hzero
          cases reads with
          | nil =>
            cases h
            exact .closed .refl rfl ⟨rfl, Bool.eq_false_iff.mpr hp, o, hdrain⟩
          | cons bs reads =>
            rw [List.forall_mem_cons] at hreads
            have hbs : ¬bs.isEmpty := by simpa using hreads.1
            dsimp only at h hnext
            rw [if_neg hbs] at h hnext
            exact .head hnext rfl (ih hreads.2 h)
        · rw [if_neg hzero] at h hnext
          exact .head hnext rfl (ih hreads h)

/-- A reader ends in one way. -/
theorem reaches_unique {z : Reader} (hx : Reaches len z x) (hy : Reaches len z y) (hxend : x.next len = none)
    (hyend : y.next len = none) : x = y := by
  have hstop {x y : Reader} (hxend : x.next len = none) (h : Reaches len x y) : x = y := by
    cases h using Relation.ReflTransGen.head_induction_on with
    | refl => rfl
    | head hnext => exact nomatch hxend.symm.trans hnext
  have hunique : Relator.RightUnique fun x y : Reader => x.next len = some y := by
    intro x y z hy hz
    exact Option.some.inj (hy.symm.trans hz)
  rcases Relation.ReflTransGen.total_of_right_unique hunique hx hy with h | h
  · exact hstop hxend h
  · exact (hstop hyend h).symm

theorem Closes.next {tnc : Tnc} (h : x.Closes len tnc) : x.next len = none := by
  obtain ⟨hreads, hp, out, hdrain⟩ := h
  rw [Reader.next, if_neg (by simp [hp]), hdrain, hreads]
  rfl

end Reader

/-! ## Draining where no octet finds the output buffer full -/

namespace Tnc

variable {len fuel : Nat} {tnc : Tnc} {out : Mem} {d : Dec} {rest : Bytes}

theorem drainLoop_kept (hfits : tnc.Fits len) (hfuel : tnc.unread.length < fuel)
    (h : (tnc.dec out).drain len tnc.unread = some (d, rest)) : ∃ tnc' out',
      drainLoop len fuel tnc out = .ok (true, tnc', out') ∧
      tnc'.offsetI = tnc.offsetI + drainTaken len fuel tnc out ∧ tnc'.dropped = tnc.dropped := by
  induction fuel generalizing tnc out with
  | zero => omega
  | succ fuel ih =>
    by_cases hi : tnc.offsetI < tnc.readlen
    · rw [unread_cons hi, Dec.drain, got_length] at h
      rw [unread_cons hi, List.length_cons] at hfuel
      have hout := hfits.out
      have hbuf := hfits.buf
      split at h
      · cases h
      · rename_i hroom
        have hchecked : tnc.checked len = tnc := if_neg hroom
        have hfits₁ : tnc.take.Fits len := ⟨hout, hi, hbuf⟩
        have hlt : tnc.take.offsetO < len := show tnc.offsetO < len by omega
        obtain ⟨r, hr, hfollows⟩ := drainByte_dec out (tnc.buf tnc.offsetI) hlt
        obtain ⟨r', hr', hadv⟩ := drainByte_advances out (tnc.buf tnc.offsetI) hlt.le (.inr hlt)
        obtain rfl : r = r' := Except.ok.inj (hr.symm.trans hr')
        rw [drainLoop_succ hi, drainTaken, if_pos hi, hchecked, if_neg (by omega), hr]
        have hdec : tnc.take.dec out = tnc.dec out := rfl
        rw [hdec] at hfollows
        cases hb : (tnc.dec out).byte (tnc.buf tnc.offsetI) with
        | more d' =>
          rw [hb] at h hfollows
          cases r with
          | more tnc' out' =>
            have hleads : Leads len tnc.take tnc' out' d' := hfollows
            have hunread : tnc'.unread = tnc.take.unread := hleads.unread
            obtain ⟨t, o, hloop, htaken, hdropped⟩ := ih (hleads.fits hfits₁)
              (by rw [hunread, take]; omega) (by rw [hleads.dec, hunread]; exact h)
            refine ⟨t, o, hloop, ?_, hdropped.trans hadv.dropped⟩
            have hoffset : tnc'.offsetI = tnc.offsetI + 1 := hleads.offsetI
            rw [htaken, hoffset]
            dsimp only
            omega
          | done | error => exact hfollows.elim
        | frame d' =>
          rw [hb] at h hfollows
          cases r with
          | done tnc' out' => exact ⟨tnc', out', rfl, hadv.offsetI, hadv.dropped⟩
          | more | error => exact hfollows.elim
        | fail =>
          rw [hb] at h
          cases h
    · exact ⟨tnc, out, drainLoop_end hi, by rw [drainTaken, if_neg hi, Nat.add_zero], rfl⟩

/-- `patty_kiss_tnc_drain` then takes what it says, and drops nothing. -/
theorem drain_kept (hfits : tnc.Fits len) (h : (tnc.dec out).drain len tnc.unread = some (d, rest)) :
    tnc.Counts len out ∧ ∀ r tnc' out', tnc.drain out len = .ok (r, tnc', out') → tnc'.dropped = tnc.dropped := by
  have hbuf := hfits.buf
  have hfuel : tnc.unread.length < PATTY_KISS_TNC_BUFSZ + 1 := by
    rw [unread_length]
    omega
  obtain ⟨t, o, hloop, htaken, hdropped⟩ := drainLoop_kept hfits hfuel h
  have hdrain : tnc.drain out len = .ok (drainTaken len (PATTY_KISS_TNC_BUFSZ + 1) tnc out, t, o) := by
    rw [drain, hloop]
    dsimp only
    rw [htaken, Int.natCast_add, Int.add_comm, Int.add_sub_cancel]
  constructor
  · intro tnc' out' hloop'
    rw [hloop] at hloop'
    cases hloop'
    exact hdrain
  · intro r tnc' out' hdrain'
    rw [hdrain] at hdrain'
    cases hdrain'
    exact hdropped

end Tnc

namespace Dec

/-- The run of a decoder that may have a payload pending. -/
def takes (len : Nat) (d : Dec) (ms : List (UInt8 × Bool)) : Option (List Bytes × Dec) :=
  if d.pending then (run len true false d.flush ms).map fun r => (d.got :: r.1, r.2) else run len true false d ms

theorem takes_idle {len : Nat} {d : Dec} {ms : List (UInt8 × Bool)} (hp : d.pending = false) :
    d.takes len ms = run len true false d ms := by
  rw [takes, if_neg (by simp [hp])]

theorem takes_drain {len : Nat} {d : Dec} {bs : Bytes} {ms : List (UInt8 × Bool)} (hne : bs ≠ []) :
    run len true false d (Chunks.marks bs ++ ms) =
      (d.drain len bs).bind fun (d, rest) => d.takes len (Chunks.marks rest ++ ms) := run_drain hne

end Dec

/-! ## What the reader delivers -/

namespace Reader

open Chunks

/-- Up to the reads `more`, the reader goes on to deliver what is missing of `all`, and leaves `d`; `n` frames
were dropped. -/
structure Tracks (len n : Nat) (more all : List Bytes) (d : Dec) (x : Reader) : Prop where
  fits : x.tnc.Fits len
  dropped : x.tnc.dropped = n
  run : ∃ reads rest, x.reads = reads ++ more ∧ Tnc.Readable reads ∧ x.got ++ rest = all ∧
    (x.tnc.dec x.out).takes len (marks x.tnc.unread ++ reads.flatMap marks) = some (rest, d)

/-- It has come there. -/
structure Arrives (len n : Nat) (more all : List Bytes) (d : Dec) (x : Reader) : Prop where
  fits : x.tnc.Fits len
  dropped : x.tnc.dropped = n
  reads : x.reads = more
  unread : x.tnc.unread = []
  pending : x.tnc.pending = false
  got : x.got = all
  dec : x.tnc.dec x.out = d

/-- The octets and reads that are left, twice, and what is pending. -/
def left (x : Reader) : Nat :=
  2 * (x.tnc.unread.length + x.reads.flatten.length + x.reads.length) + if x.tnc.pending then 1 else 0

variable {len n : Nat} {more all reads : List Bytes} {d : Dec} {x y : Reader}

theorem start_tracks (more : List Bytes) (junk out : Mem) (hreads : Tnc.Readable reads)
    (h : Dec.run len true false .fresh (reads.flatMap marks) = some (all, d)) :
    Tracks len 0 more all d (start (reads ++ more) junk out) :=
  ⟨⟨Nat.zero_le _, Nat.zero_le _, Nat.zero_le _⟩, rfl, reads, all, rfl, hreads, rfl, h⟩

theorem left_idle (hp : x.tnc.pending = false) :
    x.left = 2 * (x.tnc.unread.length + x.reads.flatten.length + x.reads.length) := by
  rw [left, hp, if_neg nofun, Nat.add_zero]

/-- A round takes it on, unless it has come there. -/
theorem Tracks.next (h : Tracks len n more all d x) :
    (∃ y, x.next len = some y ∧ Tracks len n more all d y ∧ y.left < x.left) ∨ Arrives len n more all d x := by
  obtain ⟨hfits, hdropped, reads, rest, hsplit, hreads, hall, hrun⟩ := h
  cases hp : x.tnc.pending with
  | true =>
    rw [Dec.takes, Tnc.pending_dec, if_pos hp] at hrun
    obtain ⟨⟨ps, d'⟩, hrest, heq⟩ := Option.map_eq_some_iff.mp hrun
    cases heq
    have hleft : x.left = 2 * (x.tnc.unread.length + x.reads.flatten.length + x.reads.length) + 1 := by
      rw [left, hp, if_pos rfl]
    refine .inl ⟨_, next_flush hp, ⟨Tnc.flush_fits hfits, hdropped, reads, ps, hsplit, hreads, ?_, hrest⟩, ?_⟩
    · rw [List.append_assoc]
      exact hall
    · rw [hleft]
      exact Nat.lt_succ_self _
  | false =>
    rw [Dec.takes_idle (by rw [Tnc.pending_dec, hp])] at hrun
    by_cases hne : x.tnc.unread = []
    · have hdrain : (x.tnc.dec x.out).drain len x.tnc.unread = some (x.tnc.dec x.out, []) := by
        rw [hne, Dec.drain]
      obtain ⟨r, tnc, out, hr, hcount, hd, -, hf⟩ := Tnc.drain_dec hfits hdrain
      have hdrop := (Tnc.drain_kept hfits hdrain).2 r tnc out hr
      rw [hne, List.length_nil] at hcount
      obtain rfl : r = 0 := by omega
      rw [hne, marks_nil, List.nil_append] at hrun
      cases reads with
      | nil =>
        cases hrun
        exact .inr ⟨hfits, hdropped, hsplit, hne, hp, by rwa [List.append_nil] at hall, rfl⟩
      | cons bs reads =>
        rw [Tnc.Readable, List.forall_mem_cons] at hreads
        obtain ⟨⟨hbs, hlen⟩, hreads⟩ := hreads
        have hpend : (tnc.fill bs).pending = false := by
          rw [← Tnc.pending_dec out, Tnc.fill_dec, hd, Tnc.pending_dec, hp]
        rw [List.cons_append] at hsplit
        refine .inl ⟨_, next_fill hp hr hsplit hbs,
          ⟨Tnc.fill_fits hf hlen, hdrop.trans hdropped, reads, rest, rfl, hreads, hall, ?_⟩, ?_⟩
        · dsimp only
          rw [Dec.takes_idle (by rw [Tnc.pending_dec, hpend]), Tnc.fill_unread, Tnc.fill_dec, hd]
          exact hrun
        · rw [left_idle hp, left_idle hpend, hsplit, hne]
          dsimp only
          rw [Tnc.fill_unread]
          simp only [List.flatten_cons, List.length_append, List.length_cons, List.length_nil]
          omega
    · rw [Dec.takes_drain hne, Option.bind_eq_some_iff] at hrun
      obtain ⟨⟨d', unread⟩, hdrain, hrun⟩ := hrun
      obtain ⟨r, tnc, out, hr, hcount, hd, hu, hf⟩ := Tnc.drain_dec hfits hdrain
      have hdrop := (Tnc.drain_kept hfits hdrain).2 r tnc out hr
      have hlt : unread.length < x.tnc.unread.length := Dec.drain_length hne hdrain
      refine .inl ⟨_, next_drain hp hr (by omega),
        ⟨hf, hdrop.trans hdropped, reads, rest, hsplit, hreads, hall, ?_⟩, ?_⟩
      · dsimp only
        rw [hd, hu]
        exact hrun
      · rw [left_idle hp, left]
        dsimp only
        rw [hu]
        split
        · omega
        · omega

/-- It comes there. -/
theorem Tracks.arrives (h : Tracks len n more all d x) : ∃ y, Reaches len x y ∧ Arrives len n more all d y := by
  induction hm : x.left using Nat.strong_induction_on generalizing x with
  | _ m ih =>
    rcases h.next with ⟨y, hnext, hy, hlt⟩ | harrived
    · obtain ⟨z, hreaches, hz⟩ := ih y.left (hm ▸ hlt) hy rfl
      exact ⟨z, .head hnext hreaches, hz⟩
    · exact ⟨x, .refl, harrived⟩

/-- On the way there, draining returns what it takes. -/
theorem Tracks.counts (h : Tracks len n more all d x) (hp : x.tnc.pending = false) : x.tnc.Counts len x.out := by
  obtain ⟨hfits, -, reads, rest, -, -, -, hrun⟩ := h
  rw [Dec.takes_idle (by rw [Tnc.pending_dec, hp])] at hrun
  by_cases hne : x.tnc.unread = []
  · have hdrain : (x.tnc.dec x.out).drain len x.tnc.unread = some (x.tnc.dec x.out, []) := by
      rw [hne, Dec.drain]
    exact (Tnc.drain_kept hfits hdrain).1
  · rw [Dec.takes_drain hne, Option.bind_eq_some_iff] at hrun
    obtain ⟨⟨d', unread⟩, hdrain, -⟩ := hrun
    exact (Tnc.drain_kept hfits hdrain).1

theorem Arrives.drain (h : Arrives len n more all d x) : x.tnc.drain x.out len = .ok (0, x.tnc, x.out) := by
  have hunread := x.tnc.unread_length
  rw [h.unread, List.length_nil] at hunread
  exact Tnc.drain_end (by omega)

/-- With no reads to come, `patty_kiss_tnc_recv` then returns 0. -/
theorem Arrives.closes (h : Arrives len n [] all d x) : x.Closes len x.tnc := ⟨h.reads, h.pending, x.out, h.drain⟩

/-- With a read to come, it fills its buffer. -/
theorem Arrives.fills {bs : Bytes} (h : Arrives len n (bs :: more) all d x) (hbs : bs ≠ []) :
    x.next len = some ⟨more, x.tnc.fill bs, x.out, x.got⟩ := next_fill h.pending h.drain h.reads hbs

/-- A reader without reads after these stays on the way. -/
theorem Tracks.reaches (h : Tracks len n [] all d x) (hreaches : Reaches len x y) : Tracks len n [] all d y := by
  induction hreaches with
  | refl => exact h
  | tail _ hnext ih =>
    rcases ih.next with ⟨z, hz, htracks, -⟩ | harrived
    · rw [hnext] at hz
      cases hz
      exact htracks
    · exact nomatch hnext.symm.trans harrived.closes.next

end Reader

end Patty
