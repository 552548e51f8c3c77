import Patty.Lib.Chunks
import Patty.Tnc

/-! # Reading KISS frames (`server.c`, `tnc.c`)

The two loops that take frames out of the decoder: that of `handle_iface`, which gives up what is left of
a read once no frame is pending, and that of `patty_kiss_tnc_recv`, which keeps it. What they take depends
only on the octets and on where the reads end: `Dec` is the decoder without its buffers, and `Dec.run`
its run over a stream, which both loops follow (`handleReads_run`, `recvAll_run`). -/

namespace Patty

namespace Tnc

/-! ## The loops -/

/-- The loop of `handle_iface` after a read: whether it ends without an error, and the payloads that it
hands to `handle_frame`, which is taken to succeed. A round that goes on has taken an octet of the read. -/
def ifaceLoop (len : Nat) : Nat → Tnc → Mem → Except Fault (Bool × List Bytes × Tnc × Mem)
  | 0, tnc, out => .ok (true, [], tnc, out)
  | fuel + 1, tnc, out =>
    match tnc.drain out len with
    | .error e => .error e
    | .ok (r, tnc, out) =>
      if r < 0 then .ok (false, [], tnc, out)
      else if !tnc.pending then .ok (true, [], tnc, out)
      else
        let (n, tnc) := tnc.flush
        match ifaceLoop len fuel tnc out with
        | .error e => .error e
        | .ok (ok, payloads, tnc, out') => .ok (ok, out.read 0 n :: payloads, tnc, out')

/-- `handle_iface` when the read returns `bs`; no octets mean that the other end is closed. -/
def handleIface (len : Nat) (tnc : Tnc) (out : Mem) (bs : Bytes) :
    Except Fault (Bool × List Bytes × Tnc × Mem) :=
  if bs.isEmpty then .ok (true, [], tnc.fill bs, out)
  else ifaceLoop len (PATTY_KISS_TNC_BUFSZ + 1) (tnc.fill bs) out

/-- `handle_iface` for each read, as long as it succeeds. -/
def handleReads (len : Nat) : List Bytes → Tnc → Mem → Except Fault (Bool × List Bytes × Tnc × Mem)
  | [], tnc, out => .ok (true, [], tnc, out)
  | bs :: reads, tnc, out =>
    match handleIface len tnc out bs with
    | .error e => .error e
    | .ok (false, payloads, tnc, out) => .ok (false, payloads, tnc, out)
    | .ok (true, payloads, tnc, out) =>
      match handleReads len reads tnc out with
      | .error e => .error e
      | .ok (ok, more, tnc, out) => .ok (ok, payloads ++ more, tnc, out)

/-- What `patty_kiss_tnc_recv` returns: a payload, or 0 or -1. -/
inductive Received
  | payload (bs : Bytes) (reads : List Bytes) (tnc : Tnc) (out : Mem)
  | closed
  | failed

/-- The loop of `patty_kiss_tnc_recv`, where the reads to come return `reads`, and then nothing. A round
that goes on has taken an octet or a read. -/
def recvLoop (len : Nat) : Nat → List Bytes → Tnc → Mem → Except Fault Received
  | 0, _, _, _ => .ok .failed
  | fuel + 1, reads, tnc, out =>
    if tnc.pending then
      let (n, tnc) := tnc.flush
      .ok (.payload (out.read 0 n) reads tnc out)
    else
      match tnc.drain out len with
      | .error e => .error e
      | .ok (r, tnc, out) =>
        if r < 0 then .ok .failed
        else if r = 0 then
          match reads with
          | [] => .ok .closed
          | bs :: reads => if bs.isEmpty then .ok .closed else recvLoop len fuel reads (tnc.fill bs) out
        else recvLoop len fuel reads tnc out

/-- `patty_kiss_tnc_recv` -/
def recv (len : Nat) (reads : List Bytes) (tnc : Tnc) (out : Mem) : Except Fault Received :=
  recvLoop len (PATTY_KISS_TNC_BUFSZ + reads.flatten.length + reads.length + 2) reads tnc out

/-- At most `n` calls of `patty_kiss_tnc_recv`, until it returns 0 or -1: the payloads, and whether it
returned 0. -/
def recvAll (len : Nat) : Nat → List Bytes → Tnc → Mem → Except Fault (List Bytes × Bool)
  | 0, _, _, _ => .ok ([], false)
  | n + 1, reads, tnc, out =>
    match recv len reads tnc out with
    | .error e => .error e
    | .ok .failed => .ok ([], false)
    | .ok .closed => .ok ([], true)
    | .ok (.payload bs reads tnc out) =>
      match recvAll len n reads tnc out with
      | .error e => .error e
      | .ok (payloads, ok) => .ok (bs :: payloads, ok)

end Tnc

/-! ## The decoder without its buffers -/

/-- The decoder, with the octets it has stored. -/
structure Dec where
  state : TncState
  command : UInt8
  port : UInt8
  got : Bytes
  deriving DecidableEq

namespace Dec

/-- The decoder as it is made. -/
def fresh : Dec := ⟨.none, PATTY_KISS_RETURN, 0, []⟩

/-- What an octet does to it: it goes on, a frame ends, or it fails. -/
inductive Step
  | more (d : Dec)
  | frame (d : Dec)
  | fail

def put (d : Dec) (c : UInt8) : Dec := { d with got := d.got ++ [c] }

def byte (d : Dec) (c : UInt8) : Step :=
  match d.state with
  | .none => .more (if c = PATTY_KISS_FEND then { d with state := .frameCommand } else d)
  | .frameCommand =>
    let command := c &&& 0x0f
    let port := (c &&& 0xf0) >>> 4
    if command = PATTY_KISS_FEND then .more d
    else if command ≤ PATTY_KISS_HW_SET || command = PATTY_KISS_RETURN then
      .more { d with state := .frameBody, command, port }
    else .fail
  | .frameBody =>
    if c = PATTY_KISS_FESC then .more { d with state := .frameEscape }
    else if c = PATTY_KISS_FEND then .frame { d with state := .frameCommand }
    else if d.command = PATTY_KISS_DATA then .more (d.put c)
    else .more d
  | .frameEscape =>
    if c = PATTY_KISS_TFEND then .more { d.put PATTY_KISS_FEND with state := .frameBody }
    else if c = PATTY_KISS_TFESC then .more { d.put PATTY_KISS_FESC with state := .frameBody }
    else .fail

def pending (d : Dec) : Bool :=
  d.state = .frameCommand && d.command = PATTY_KISS_DATA && d.port = 0 && 0 < d.got.length

def flush (d : Dec) : Dec := { d with state := .none, command := PATTY_KISS_RETURN, got := [] }

/-- Up to the end of a frame or of the octets: the decoder, and the octets that are left. There is no
result if it fails or its output buffer of `len` octets is full. -/
def drain (len : Nat) : Dec → Bytes → Option (Dec × Bytes)
  | d, [] => some (d, [])
  | d, c :: bs =>
    if d.got.length = len then none
    else
      match d.byte c with
      | .more d => drain len d bs
      | .frame d => some (d, bs)
      | .fail => none

/-- The run over a stream of octets, each with whether it ends a read: the payloads of the frames that
were pending. If `keep` is not set, what is left of a read after a frame that is not pending is `lost`. -/
def run (len : Nat) (keep : Bool) : Bool → Dec → List (UInt8 × Bool) → Option (List Bytes × Dec)
  | _, d, [] => some ([], d)
  | true, d, (_, last) :: ms => run len keep (!last) d ms
  | false, d, (c, last) :: ms =>
    if d.got.length = len then none
    else
      match d.byte c with
      | .more d =>
        if last && d.pending then (run len keep false d.flush ms).map fun r => (d.got :: r.1, r.2)
        else run len keep false d ms
      | .frame d =>
        if d.pending then (run len keep false d.flush ms).map fun r => (d.got :: r.1, r.2)
        else run len keep (!keep && !last) d ms
      | .fail => none

end Dec

/-! ## The decoder follows it -/

namespace Tnc

/-- The decoder without its buffers. -/
def dec (tnc : Tnc) (out : Mem) : Dec := ⟨tnc.state, tnc.command, tnc.port, out.read 0 tnc.offsetO⟩

/-- The octets of the last read that are not taken yet. -/
def unread (tnc : Tnc) : Bytes := tnc.buf.read tnc.offsetI (tnc.readlen - tnc.offsetI)

/-- The offsets are inside the buffers. -/
structure Fits (len : Nat) (tnc : Tnc) : Prop where
  out : tnc.offsetO ≤ len
  read : tnc.offsetI ≤ tnc.readlen
  buf : tnc.readlen ≤ PATTY_KISS_TNC_BUFSZ

variable {len : Nat} {tnc : Tnc} {out : Mem}

@[simp] theorem got_length : (tnc.dec out).got.length = tnc.offsetO := Mem.length_read

theorem unread_length : tnc.unread.length = tnc.readlen - tnc.offsetI := Mem.length_read

theorem pending_dec (out : Mem) : (tnc.dec out).pending = tnc.pending := by
  rw [Dec.pending, got_length]
  rfl

/-- `tnc'` is `tnc` after a step that has left its read buffer alone; with `out'` it is `d`. -/
structure Leads (len : Nat) (tnc tnc' : Tnc) (out' : Mem) (d : Dec) : Prop where
  dec : tnc'.dec out' = d
  buf : tnc'.buf = tnc.buf
  readlen : tnc'.readlen = tnc.readlen
  offsetI : tnc'.offsetI = tnc.offsetI
  room : tnc'.offsetO ≤ len

/-- What an octet does to the decoder is what it does without the buffers. -/
def Drained.Follows (len : Nat) (tnc : Tnc) : Drained → Dec.Step → Prop
  | .more tnc' out', .more d => tnc.Leads len tnc' out' d
  | .done tnc' out', .frame d => tnc.Leads len tnc' out' d
  | .error .., .fail => True
  | _, _ => False

theorem put_dec (out : Mem) (c : UInt8) (h : tnc.offsetO < len) : ∃ tnc' out', tnc.put out len c = .ok (tnc', out') ∧
    tnc.Leads len tnc' out' ((tnc.dec out).put c) := by
  refine ⟨_, _, if_pos h, ?_, rfl, rfl, rfl, h⟩
  have hfront : (out.store tnc.offsetO [c]).read 0 tnc.offsetO = out.read 0 tnc.offsetO :=
    Mem.read_store_disjoint (.inl (by omega))
  have hlast : (out.store tnc.offsetO [c]).read (0 + tnc.offsetO) 1 = [c] := by
    rw [Nat.zero_add]
    exact Mem.read_store_same' rfl
  simp only [dec, Dec.put, Mem.read_append, hfront, hlast]

theorem drainByte_dec (out : Mem) (c : UInt8) (h : tnc.offsetO < len) : ∃ r, tnc.drainByte out len c = .ok r ∧
    r.Follows len tnc ((tnc.dec out).byte c) := by
  have hstay {tnc' : Tnc} (hbuf : tnc'.buf = tnc.buf) (hlen : tnc'.readlen = tnc.readlen)
      (hi : tnc'.offsetI = tnc.offsetI) (ho : tnc'.offsetO = tnc.offsetO) :
      tnc.Leads len tnc' out (tnc'.dec out) := ⟨rfl, hbuf, hlen, hi, by omega⟩
  unfold drainByte Dec.byte
  cases hstate : tnc.state with
  | none =>
    simp only [dec, hstate]
    refine ⟨_, rfl, ?_⟩
    split
    · exact hstay rfl rfl rfl rfl
    · exact hstate ▸ hstay rfl rfl rfl rfl
  | frameCommand =>
    simp only [dec, hstate]
    split
    · exact ⟨_, rfl, hstate ▸ hstay rfl rfl rfl rfl⟩
    · split
      · exact ⟨_, rfl, hstay rfl rfl rfl rfl⟩
      · exact ⟨_, rfl, trivial⟩
  | frameBody =>
    obtain ⟨tnc', out', hput, hleads⟩ := put_dec out c h
    simp only [dec, hstate] at hleads ⊢
    split
    · exact ⟨_, rfl, hstay rfl rfl rfl rfl⟩
    · split
      · exact ⟨_, rfl, hstay rfl rfl rfl rfl⟩
      · split
        · rw [hput]
          exact ⟨_, rfl, hleads⟩
        · exact ⟨_, rfl, hstate ▸ hstay rfl rfl rfl rfl⟩
  | frameEscape =>
    have hback {b : UInt8} : ∃ r,
        (tnc.put out len b >>= fun r => return Drained.more { r.1 with state := .frameBody } r.2) = .ok r ∧
        r.Follows len tnc (.more { (tnc.dec out).put b with state := .frameBody }) := by
      obtain ⟨tnc', out', hput, hleads⟩ := put_dec out b h
      rw [hput]
      exact ⟨_, rfl, hleads.dec ▸ rfl, hleads.buf, hleads.readlen, hleads.offsetI, hleads.room⟩
    simp only [dec, hstate]
    split
    · simpa only [dec, hstate] using hback
    · split
      · simpa only [dec, hstate] using hback
      · exact ⟨_, rfl, trivial⟩

/-- With octets left, the first of them and the decoder once it is taken. -/
theorem unread_cons (h : tnc.offsetI < tnc.readlen) :
    tnc.unread = tnc.buf tnc.offsetI :: { tnc with offsetI := tnc.offsetI + 1 }.unread := by
  rw [unread, show tnc.readlen - tnc.offsetI = (tnc.readlen - (tnc.offsetI + 1)) + 1 by omega,
    Mem.read_succ]
  rfl

theorem unread_nil (h : ¬tnc.offsetI < tnc.readlen) : tnc.unread = [] := by
  rw [unread, show tnc.readlen - tnc.offsetI = 0 by omega, Mem.read_zero]

/-- What is left of the read after `tnc` has led to `tnc'`. -/
theorem Leads.unread {tnc' : Tnc} {out' : Mem} {d : Dec} (h : tnc.Leads len tnc' out' d) :
    tnc'.unread = tnc.unread := by
  rw [Tnc.unread, Tnc.unread, h.buf, h.readlen, h.offsetI]

theorem Leads.fits {tnc' : Tnc} {out' : Mem} {d : Dec} (h : tnc.Leads len tnc' out' d)
    (hfits : tnc.Fits len) : tnc'.Fits len :=
  ⟨h.room, by rw [h.offsetI, h.readlen]; exact hfits.read, by rw [h.readlen]; exact hfits.buf⟩

theorem drainLoop_dec {fuel : Nat} {d : Dec} {rest : Bytes} (hfits : tnc.Fits len)
    (hfuel : tnc.unread.length < fuel) (h : (tnc.dec out).drain len tnc.unread = some (d, rest)) :
    ∃ tnc' out', drainLoop len fuel tnc out = .ok (true, tnc', out') ∧ tnc'.dec out' = d ∧
      tnc'.unread = rest ∧ tnc'.Fits len ∧ tnc'.readlen = tnc.readlen := by
  induction fuel generalizing tnc out with
  | zero => omega
  | succ fuel ih =>
    rw [drainLoop]
    by_cases hi : tnc.offsetI < tnc.readlen
    · rw [unread_cons hi, Dec.drain, got_length] at h
      rw [unread_cons hi, List.length_cons] at hfuel
      have hout := hfits.out
      have hread := hfits.read
      have hbuf := hfits.buf
      split at h
      · cases h
      · rename_i hroom
        rw [if_pos hi, if_neg hroom]
        dsimp only
        rw [if_neg (by omega)]
        have hfits₁ : Fits len { tnc with offsetI := tnc.offsetI + 1 } := ⟨hout, hi, hbuf⟩
        have hlt : { tnc with offsetI := tnc.offsetI + 1 }.offsetO < len := by
          change tnc.offsetO < len
          omega
        obtain ⟨r, hr, hfollows⟩ := drainByte_dec out (tnc.buf tnc.offsetI) hlt
        have hdec : { tnc with offsetI := tnc.offsetI + 1 }.dec out = tnc.dec out := rfl
        rw [hdec] at hfollows
        rw [hr]
        cases hb : (tnc.dec out).byte (tnc.buf tnc.offsetI) with
        | more d' =>
          rw [hb] at h hfollows
          cases r with
          | more tnc' out' =>
            have hleads : Leads len _ tnc' out' d' := hfollows
            obtain ⟨t, o, hloop, hd, hu, hf, hl⟩ := ih (hleads.fits hfits₁)
              (by rw [hleads.unread]; omega) (by rw [hleads.dec, hleads.unread]; exact h)
            exact ⟨t, o, hloop, hd, hu, hf, hl.trans hleads.readlen⟩
          | done | error => exact hfollows.elim
        | frame d' =>
          rw [hb] at h hfollows
          cases h
          cases r with
          | done tnc' out' =>
            have hleads : Leads len _ tnc' out' d := hfollows
            exact ⟨tnc', out', rfl, hleads.dec, hleads.unread, hleads.fits hfits₁, hleads.readlen⟩
          | more | error => exact hfollows.elim
        | fail =>
          rw [hb] at h
          cases h
    · rw [unread_nil hi, Dec.drain] at h
      cases h
      rw [if_neg hi]
      exact ⟨tnc, out, rfl, rfl, unread_nil hi, hfits, rfl⟩

/-- `patty_kiss_tnc_drain` returns how many octets it has taken. -/
theorem drain_dec {d : Dec} {rest : Bytes} (hfits : tnc.Fits len)
    (h : (tnc.dec out).drain len tnc.unread = some (d, rest)) :
    ∃ r tnc' out', tnc.drain out len = .ok (r, tnc', out') ∧ r + rest.length = tnc.unread.length ∧
      tnc'.dec out' = d ∧ tnc'.unread = rest ∧ tnc'.Fits len := by
  have hread := hfits.read
  have hbuf := hfits.buf
  have hfuel : tnc.unread.length < PATTY_KISS_TNC_BUFSZ + 1 := by
    rw [unread_length]
    omega
  obtain ⟨tnc', out', hloop, hd, hu, hf, hl⟩ := drainLoop_dec hfits hfuel h
  refine ⟨tnc'.offsetI - tnc.offsetI, tnc', out', ?_, ?_, hd, hu, hf⟩
  · rw [drain, hloop]
  · have hread' := hf.read
    rw [← hu, unread_length, unread_length]
    omega

theorem fill_dec (bs : Bytes) : (tnc.fill bs).dec out = tnc.dec out := rfl

theorem fill_unread {bs : Bytes} : (tnc.fill bs).unread = bs := Mem.read_store_same

theorem fill_fits {bs : Bytes} (h : tnc.Fits len) (hbs : bs.length ≤ PATTY_KISS_TNC_BUFSZ) :
    (tnc.fill bs).Fits len := ⟨h.out, Nat.zero_le _, hbs⟩

theorem flush_fits (h : tnc.Fits len) : tnc.flush.2.Fits len := ⟨Nat.zero_le _, h.read, h.buf⟩

end Tnc

/-! ## The loops follow its run -/

namespace Dec

open Chunks

variable {len : Nat} {keep : Bool} {d : Dec} {ms : List (UInt8 × Bool)}

/-- What is lost of a read. -/
theorem run_lost {bs : Bytes} (hne : bs ≠ []) :
    run len keep true d (marks bs ++ ms) = run len keep false d ms := by
  induction bs with
  | nil => exact absurd rfl hne
  | cons c bs ih =>
    rw [marks_cons, List.cons_append, run]
    cases bs with
    | nil => rfl
    | cons c' bs => exact ih (List.cons_ne_nil _ _)

/-- The run up to where the decoder stops draining, and from there on. -/
theorem run_drain {bs : Bytes} (hne : bs ≠ []) : run len keep false d (marks bs ++ ms) =
    (d.drain len bs).bind fun (d, rest) =>
      if d.pending then (run len keep false d.flush (marks rest ++ ms)).map fun r => (d.got :: r.1, r.2)
      else run len keep (!keep && !rest.isEmpty) d (marks rest ++ ms) := by
  induction bs generalizing d with
  | nil => exact absurd rfl hne
  | cons c bs ih =>
    rw [marks_cons, List.cons_append, run, drain]
    split
    · rfl
    · cases hb : d.byte c with
      | fail => rfl
      | frame d' => rfl
      | more d' =>
        cases bs with
        | nil =>
          simp only [drain, Option.bind_some, List.isEmpty_nil, Bool.true_and, Bool.not_true,
            Bool.and_false]
        | cons c' bs =>
          simp only [List.isEmpty_cons, Bool.false_and, Bool.false_eq_true, if_false]
          exact ih (List.cons_ne_nil _ _)

theorem drain_length_le {bs rest : Bytes} {d' : Dec} (h : d.drain len bs = some (d', rest)) :
    rest.length ≤ bs.length := by
  induction bs generalizing d with
  | nil =>
    cases h
    exact le_rfl
  | cons c bs ih =>
    rw [drain] at h
    split at h
    · cases h
    · split at h
      · exact (ih h).trans (Nat.le_succ _)
      · cases h
        exact Nat.le_succ _
      · cases h

/-- Draining takes an octet. -/
theorem drain_length {bs rest : Bytes} {d' : Dec} (hne : bs ≠ []) (h : d.drain len bs = some (d', rest)) :
    rest.length < bs.length := by
  cases bs with
  | nil => exact absurd rfl hne
  | cons c bs =>
    rw [drain] at h
    split at h
    · cases h
    · split at h
      · exact Nat.lt_succ_of_le (drain_length_le h)
      · cases h
        exact Nat.lt_succ_self _
      · cases h

end Dec

namespace Tnc

open Chunks

variable {len : Nat} {tnc : Tnc} {out : Mem} {ms : List (UInt8 × Bool)} {payloads : List Bytes} {d : Dec}

/-- The loop of `handle_iface` takes what the run takes in the read. -/
theorem ifaceLoop_run {fuel : Nat} (hfits : tnc.Fits len) (hfuel : tnc.unread.length < fuel)
    (hpend : tnc.unread = [] → tnc.pending = false)
    (h : Dec.run len false false (tnc.dec out) (marks tnc.unread ++ ms) = some (payloads, d)) :
    ∃ ps tnc' out' more, ifaceLoop len fuel tnc out = .ok (true, ps, tnc', out') ∧ tnc'.Fits len ∧
      Dec.run len false false (tnc'.dec out') ms = some (more, d) ∧ payloads = ps ++ more := by
  induction fuel generalizing tnc out payloads with
  | zero => omega
  | succ fuel ih =>
    rw [ifaceLoop]
    by_cases hne : tnc.unread = []
    · have hdrain : (tnc.dec out).drain len tnc.unread = some (tnc.dec out, []) := by
        rw [hne, Dec.drain]
      obtain ⟨r, tnc', out', hrun, hr, hd, -, hf⟩ := drain_dec hfits hdrain
      have hpend' : tnc'.pending = false := by
        rw [← pending_dec out', hd, pending_dec, hpend hne]
      have hr0 : ¬r < 0 := by
        rw [hne, List.length_nil] at hr
        omega
      rw [hrun]
      simp only [if_neg hr0, hpend', Bool.not_false, if_true]
      rw [hne, marks_nil, List.nil_append] at h
      exact ⟨[], tnc', out', payloads, rfl, hf, hd ▸ h, rfl⟩
    · rw [Dec.run_drain hne, Option.bind_eq_some_iff] at h
      obtain ⟨⟨d', rest⟩, hdrain, h⟩ := h
      obtain ⟨r, tnc', out', hrun, hr, hd, hu, hf⟩ := drain_dec hfits hdrain
      have hlt : rest.length < tnc.unread.length := Dec.drain_length hne hdrain
      have hr0 : ¬r < 0 := by omega
      rw [hrun]
      simp only [if_neg hr0]
      rw [← hd] at h
      dsimp only at h
      rw [pending_dec] at h
      cases hp : tnc'.pending with
      | true =>
        rw [if_pos hp] at h
        obtain ⟨⟨ps, d₂⟩, hrest, heq⟩ := Option.map_eq_some_iff.mp h
        cases heq
        rw [← hu] at hrest hlt
        obtain ⟨ps₁, t, o, more, hloop, hf', hmore, hps⟩ := @ih tnc'.flush.2 out' ps (flush_fits hf)
          (by change tnc'.unread.length < fuel; omega) (fun _ => rfl) hrest
        simp only [Bool.not_true, Bool.false_eq_true, if_false, hloop]
        exact ⟨_, t, o, more, rfl, hf', hmore, by rw [hps]; rfl⟩
      | false =>
        rw [if_neg (by simp [hp])] at h
        simp only [Bool.not_false, if_true]
        refine ⟨[], tnc', out', payloads, rfl, hf, ?_, rfl⟩
        cases rest with
        | nil => exact h
        | cons c rest => exact Dec.run_lost (List.cons_ne_nil c rest) ▸ h

/-- The reads return something, and no more than there is room for. -/
def Readable (reads : List Bytes) : Prop :=
  ∀ bs ∈ reads, bs ≠ [] ∧ bs.length ≤ PATTY_KISS_TNC_BUFSZ

instance (reads : List Bytes) : Decidable (Readable reads) :=
  inferInstanceAs (Decidable (∀ bs ∈ reads, _))

/-- `handle_iface` takes what the run takes that gives up what is left of a read. -/
theorem handleReads_run {reads : List Bytes} (hfits : tnc.Fits len) (hreads : Readable reads)
    (h : Dec.run len false false (tnc.dec out) (reads.flatMap marks) = some (payloads, d)) :
    ∃ tnc' out', handleReads len reads tnc out = .ok (true, payloads, tnc', out') := by
  induction reads generalizing tnc out payloads with
  | nil =>
    cases h
    exact ⟨tnc, out, rfl⟩
  | cons bs reads ih =>
    rw [Readable, List.forall_mem_cons] at hreads
    obtain ⟨⟨hne, hlen⟩, hreads⟩ := hreads
    rw [List.flatMap_cons, ← fill_dec bs] at h
    obtain ⟨ps, tnc', out', more, hloop, hfits', hmore, rfl⟩ := @ifaceLoop_run len (tnc.fill bs) out
      (reads.flatMap marks) payloads d (PATTY_KISS_TNC_BUFSZ + 1) (fill_fits hfits hlen)
      (by rw [fill_unread]; omega) (fun hnil => absurd (fill_unread.symm.trans hnil) hne)
      (by rw [fill_unread]; exact h)
    obtain ⟨t, o, hrest⟩ := ih hfits' hreads hmore
    refine ⟨t, o, ?_⟩
    have hempty : bs.isEmpty = false := by simpa using hne
    rw [handleReads, handleIface, hempty]
    simp only [Bool.false_eq_true, if_false, hloop, hrest]

/-- What `patty_kiss_tnc_recv` returns when the run takes `payloads` from there on. -/
inductive Receives (len : Nat) (d : Dec) : List Bytes → Received → Prop
  | closed : Receives len d [] .closed
  | payload {p : Bytes} {payloads reads : List Bytes} {tnc : Tnc} {out : Mem} : tnc.Fits len →
    Readable reads → tnc.pending = false →
    Dec.run len true false (tnc.dec out) (marks tnc.unread ++ reads.flatMap marks) = some (payloads, d) →
    Receives len d (p :: payloads) (.payload p reads tnc out)

theorem recv_fuel (hfits : tnc.Fits len) (reads : List Bytes) :
    tnc.unread.length + reads.flatten.length + reads.length + 1 <
      PATTY_KISS_TNC_BUFSZ + reads.flatten.length + reads.length + 2 := by
  have hbuf := hfits.buf
  have hread := tnc.unread_length
  omega

theorem recvLoop_run {fuel : Nat} {reads : List Bytes} (hfits : tnc.Fits len) (hreads : Readable reads)
    (hfuel : tnc.unread.length + reads.flatten.length + reads.length + 1 < fuel)
    (hpend : tnc.pending = false)
    (h : Dec.run len true false (tnc.dec out) (marks tnc.unread ++ reads.flatMap marks) =
      some (payloads, d)) :
    ∃ r, recvLoop len fuel reads tnc out = .ok r ∧ Receives len d payloads r := by
  induction fuel generalizing tnc out reads with
  | zero => omega
  | succ fuel ih =>
    rw [recvLoop, if_neg (by simp [hpend])]
    by_cases hne : tnc.unread = []
    · -- the read is used up, and the next is due
      have hdrain : (tnc.dec out).drain len tnc.unread = some (tnc.dec out, []) := by
        rw [hne, Dec.drain]
      obtain ⟨r, tnc', out', hrun, hr, hd, hu, hf⟩ := drain_dec hfits hdrain
      rw [hne, marks_nil, List.nil_append, ← hd] at h
      rw [hne, List.length_nil] at hr hfuel
      have hr0 : r = 0 := by omega
      subst hr0
      rw [hrun]
      simp only [Int.lt_irrefl, if_false, if_true]
      cases reads with
      | nil =>
        cases h
        exact ⟨.closed, rfl, .closed⟩
      | cons bs reads =>
        rw [Readable, List.forall_mem_cons] at hreads
        obtain ⟨⟨hbs, hlen⟩, hreads⟩ := hreads
        rw [List.flatten_cons, List.length_append, List.length_cons] at hfuel
        have hempty : bs.isEmpty = false := by simpa using hbs
        have hpend' : tnc'.pending = false := by rw [← pending_dec out', hd, pending_dec, hpend]
        simp only [hempty, Bool.false_eq_true, if_false]
        refine @ih (tnc'.fill bs) out' reads (fill_fits hf hlen) hreads ?_ hpend' ?_
        · rw [fill_unread]
          omega
        · rw [fill_unread]
          exact h
    · rw [Dec.run_drain hne, Option.bind_eq_some_iff] at h
      obtain ⟨⟨d', rest⟩, hdrain, h⟩ := h
      obtain ⟨r, tnc', out', hrun, hr, hd, hu, hf⟩ := drain_dec hfits hdrain
      have hlt : rest.length < tnc.unread.length := Dec.drain_length hne hdrain
      have hr0 : ¬r < 0 := by omega
      have hr1 : ¬r = 0 := by omega
      rw [hrun]
      simp only [hr0, hr1, if_false]
      rw [← hd, ← hu] at h
      rw [← hu] at hlt
      dsimp only at h
      rw [pending_dec] at h
      cases hp : tnc'.pending with
      | true =>
        rw [if_pos hp] at h
        obtain ⟨⟨ps, d₂⟩, hrest, heq⟩ := Option.map_eq_some_iff.mp h
        cases heq
        obtain ⟨fuel, rfl⟩ : ∃ n, fuel = n + 1 := ⟨fuel - 1, by omega⟩
        rw [recvLoop, if_pos hp]
        exact ⟨_, rfl, .payload (flush_fits hf) hreads rfl hrest⟩
      | false =>
        rw [if_neg (by simp [hp])] at h
        exact ih hf hreads (by omega) hp h

/-- Calling `patty_kiss_tnc_recv` takes what the run takes that keeps what is left of a read. -/
theorem recvAll_run {reads : List Bytes} (hfits : tnc.Fits len) (hreads : Readable reads)
    (hpend : tnc.pending = false)
    (h : Dec.run len true false (tnc.dec out) (marks tnc.unread ++ reads.flatMap marks) =
      some (payloads, d)) :
    recvAll len (payloads.length + 1) reads tnc out = .ok (payloads, true) := by
  induction payloads generalizing tnc out reads with
  | nil =>
    obtain ⟨r, hr, hrec⟩ := recvLoop_run hfits hreads (recv_fuel hfits reads) hpend h
    rw [List.length_nil, recvAll, recv, hr]
    cases hrec with
    | closed => rfl
  | cons p payloads ih =>
    obtain ⟨r, hr, hrec⟩ := recvLoop_run hfits hreads (recv_fuel hfits reads) hpend h
    rw [List.length_cons, recvAll, recv, hr]
    cases hrec with
    | payload hfits' hreads' hpend' hrun' =>
      have hrest := ih hfits' hreads' hpend' hrun'
      simp only [hrest]

end Tnc

end Patty
