import Patty.AprsIs.Reads
import Patty.Lib.Checked
import Patty.Lib.Run

/-! # The read buffer of the APRS-IS decoder after a failed read (`aprs_is.c`, `server.c`)

`readlen` is signed and `offset_i` is not. After a read that fails `readlen` is -1, and if
`patty_ax25_aprs_is_reset` then succeeds, `handle_iface` goes on to drain: the octets of `rx_buf` from
`offset_i` on, up to one that ends a line or a packet, or is refused. What is there was received and not taken
before, or not. A buffer in which each octet is known for what it is decides it (`onlyReceived_iff`). -/

namespace Patty

/-- `struct _patty_ax25_aprs_is` with its read buffer as it is in memory, in the place of `aprs.rxBuf` and
`aprs.offsetI`. It keeps what the reads have returned so far, which octet of it is at each place of the buffer,
and the octets that `patty_ax25_aprs_is_drain` has taken, with which ones they are. -/
structure AprsIsRx where
  aprs : AprsIs
  buf : Mem
  readlen : Int
  offsetI : Nat
  encoded : Int
  received : Bytes
  origin : Nat → Option Nat
  taken : List (UInt8 × Option Nat)

/-- What a read returns, and `patty_ax25_aprs_is_reset` after one that fails. -/
inductive ReadOutcome
  | data (bs : Bytes)
  | eof
  | failed (reset : Bool)
  deriving DecidableEq

/-- A read returns at least one octet, and no more than there is room for. -/
def ReadOutcome.Valid : ReadOutcome → Prop
  | .data bs => bs ≠ [] ∧ bs.length ≤ PATTY_AX25_APRS_IS_PACKET_MAX
  | .eof | .failed _ => True

namespace AprsIsRx

/-- `patty_ax25_aprs_is_new`, once it is connected. -/
def new : AprsIsRx where
  aprs := .new
  buf := fun _ => 0
  readlen := 0
  offsetI := 0
  encoded := 0
  received := []
  origin := fun _ => none
  taken := []

/-- `readlen` as it is compared with `offset_i`. -/
def limit (x : AprsIsRx) : Nat := (x.readlen % (2 ^ 64 : Nat)).toNat

/-- `patty_ax25_aprs_is_fill` when the read returns `bs`. -/
def fill (x : AprsIsRx) (bs : Bytes) : AprsIsRx :=
  { x with
    buf := x.buf.store 0 bs, readlen := bs.length, offsetI := 0
    received := x.received ++ bs
    origin := fun a => if a < bs.length then some (x.received.length + a) else x.origin a }

def pending (x : AprsIsRx) : Bool := x.aprs.pending

/-- `patty_ax25_aprs_is_flush` -/
def flush (x : AprsIsRx) : Int × AprsIsRx :=
  (x.encoded, { x with aprs := x.aprs.flush.2, offsetI := x.limit, encoded := 0 })

/-- The octet at `offset_i` is taken, which makes `aprs` of the decoder. -/
def take (x : AprsIsRx) (aprs : AprsIs) : AprsIsRx :=
  { x with aprs, offsetI := x.offsetI + 1, taken := x.taken ++ [(x.buf x.offsetI, x.origin x.offsetI)] }

variable (encode : Frame → Option Nat)

/-- The loop of `patty_ax25_aprs_is_drain`, where `encode` is what `patty_ax25_frame_encode` returns. A round
takes an octet of `rx_buf`, so that as many rounds as it has octets are enough. -/
def drainLoop : Nat → AprsIsRx → Except Fault (Bool × AprsIsRx)
  | 0, x => .ok (true, x)
  | fuel + 1, x =>
    if x.offsetI < x.limit then
      if PATTY_AX25_APRS_IS_PACKET_MAX ≤ x.offsetI then .error .overrun
      else
        match x.aprs.drainByte (x.buf x.offsetI) with
        | .more aprs => drainLoop fuel (x.take aprs)
        | .done aprs => .ok (true, x.take aprs)
        | .drop aprs => .ok (true, (x.take aprs).flush.2)
        | .packet aprs =>
          match encode aprs.frame with
          | none => .ok (false, { x.take aprs with encoded := -1 })
          | some n => .ok (true, { x.take aprs with encoded := n })
    else .ok (true, x)

/-- A difference of two offsets as it is returned. -/
def ssize (n : Nat) : Int := if n < 2 ^ 63 then n else n - (2 ^ 64 : Nat)

/-- `patty_ax25_aprs_is_drain`: the number of octets consumed, or -1. -/
def drain (x : AprsIsRx) : Except Fault (Int × AprsIsRx) :=
  match drainLoop encode (PATTY_AX25_APRS_IS_PACKET_MAX + 1) x with
  | .error e => .error e
  | .ok (true, y) => .ok (ssize ((y.offsetI + 2 ^ 64 - x.offsetI) % 2 ^ 64), y)
  | .ok (false, y) => .ok (-1, y)

/-- The loop of `handle_iface`, where `handle_frame` is taken to succeed. -/
def ifaceLoop : Nat → AprsIsRx → Except Fault (Bool × AprsIsRx)
  | 0, x => .ok (true, x)
  | fuel + 1, x =>
    match x.drain encode with
    | .error e => .error e
    | .ok (r, x) =>
      if r < 0 then .ok (false, x)
      else if !x.pending then .ok (true, x)
      else
        let (n, x) := x.flush
        if n < 0 then .ok (false, x) else ifaceLoop fuel x

/-- `handle_iface` when the descriptor is ready. -/
def handleIface (x : AprsIsRx) : ReadOutcome → Except Fault (Bool × AprsIsRx)
  | .data bs => ifaceLoop encode (PATTY_AX25_APRS_IS_PACKET_MAX + 1) (x.fill bs)
  | .eof => .ok (true, x.fill [])
  | .failed false => .ok (false, { x with readlen := -1 })
  | .failed true => ifaceLoop encode (PATTY_AX25_APRS_IS_PACKET_MAX + 1) { x with readlen := -1 }

/-- The decoder of an interface from one read to the next, as long as it does not fault. -/
def Step (s : Except Fault AprsIsRx) (o : ReadOutcome) (t : Except Fault AprsIsRx) : Prop :=
  ∃ x, s = .ok x ∧ o.Valid ∧ t = (x.handleIface encode o).map (·.2)

/-- What was taken are octets that were received, each at most once. -/
structure Sound (x : AprsIsRx) : Prop where
  received : ∀ e ∈ x.taken, ∃ i, e.2 = some i ∧ x.received[i]? = some e.1
  once : (x.taken.map (·.2)).Nodup

/-- No access was outside `rx_buf`, and what was taken is sound. -/
def OnlyReceived : Except Fault AprsIsRx → Prop
  | .ok x => x.Sound
  | .error _ => False

/-- The octet at this place of the buffer was received and not taken yet. -/
def Fresh (x : AprsIsRx) (a : Nat) : Prop :=
  a < PATTY_AX25_APRS_IS_PACKET_MAX ∧ ∃ i, x.origin a = some i ∧ some i ∉ x.taken.map (·.2)

/-- Of the octets from `offset_i` on that were received and not taken yet one ends a line or a packet, or is
refused; or the buffer was given up after a read that failed. -/
def Stops (x : AprsIsRx) : Prop :=
  x.offsetI = 2 ^ 64 - 1 ∨
    ∃ n, (∀ i < n, x.Fresh (x.offsetI + i)) ∧ x.aprs.feed (x.buf.read x.offsetI n) = none

/-- A read fails, and the reset after it succeeds, only where the decoder stops. -/
def StopsAt (s : Except Fault AprsIsRx) (o : ReadOutcome) : Prop :=
  o = .failed true → ∀ x, s = .ok x → x.Stops

/-! ## An octet -/

/-- The octets in the buffer are those that it is said they are, and the offsets are inside it, or past every
place after a read that failed. -/
structure Tagged (x : AprsIsRx) : Prop where
  origin : ∀ a i, x.origin a = some i → x.received[i]? = some (x.buf a)
  unique : ∀ a b i, x.origin a = some i → x.origin b = some i → a = b
  limit : x.limit ≤ PATTY_AX25_APRS_IS_PACKET_MAX ∨ x.limit = 2 ^ 64 - 1
  offset : x.offsetI ≤ PATTY_AX25_APRS_IS_PACKET_MAX ∨ x.offsetI = 2 ^ 64 - 1

variable {encode} {fuel n a b : Nat} {x y : AprsIsRx} {ok : Bool} {bs : Bytes} {aprs : AprsIs}

theorem limit_failed : limit { x with readlen := -1 } = 2 ^ 64 - 1 := rfl

theorem limit_fill (h : bs.length ≤ PATTY_AX25_APRS_IS_PACKET_MAX) : (x.fill bs).limit = bs.length := by
  have hlen : bs.length ≤ 512 := h
  have hmod : ((bs.length : Int) % (2 ^ 64 : Nat)).toNat = bs.length := by omega
  exact hmod

/-- Taking an octet that is fresh. -/
theorem Sound.take (h : x.Sound) (htagged : x.Tagged) (hfresh : x.Fresh x.offsetI) :
    (x.take aprs).Sound := by
  obtain ⟨-, i, hi, hnot⟩ := hfresh
  constructor
  · intro e he
    rcases List.mem_append.mp he with he | he
    · exact h.received e he
    · obtain rfl := List.mem_singleton.mp he
      exact ⟨i, hi, htagged.origin _ i hi⟩
  · change (List.map (·.2) (x.taken ++ [(x.buf x.offsetI, x.origin x.offsetI)])).Nodup
    rw [List.map_append, List.nodup_append]
    refine ⟨h.once, List.nodup_singleton _, ?_⟩
    rintro o ho o' ho' rfl
    rw [List.map_singleton, List.mem_singleton, hi] at ho'
    obtain rfl : o = some i := ho'
    exact hnot ho

theorem Tagged.take (h : x.Tagged) (hlt : x.offsetI < PATTY_AX25_APRS_IS_PACKET_MAX) :
    (x.take aprs).Tagged := ⟨h.origin, h.unique, h.limit, .inl hlt⟩

theorem Tagged.flush (h : x.Tagged) : x.flush.2.Tagged := ⟨h.origin, h.unique, h.limit, h.limit⟩

/-- It leaves the others fresh. -/
theorem Fresh.take (htagged : x.Tagged) (ha : x.Fresh x.offsetI) (hb : x.Fresh b) (hne : b ≠ x.offsetI) :
    (x.take aprs).Fresh b := by
  obtain ⟨-, i, hi, -⟩ := ha
  obtain ⟨hlt, j, hj, hnot⟩ := hb
  refine ⟨hlt, j, hj, fun hmem => ?_⟩
  change some j ∈ List.map (·.2) (x.taken ++ [(x.buf x.offsetI, x.origin x.offsetI)]) at hmem
  rw [List.map_append, List.mem_append] at hmem
  rcases hmem with hmem | hmem
  · exact hnot hmem
  · rw [List.map_singleton, List.mem_singleton, hi] at hmem
    obtain rfl := Option.some.inj hmem
    exact hne (htagged.unique _ _ _ hj hi)

theorem Fresh.of_take (h : (x.take aprs).Fresh b) : x.Fresh b := by
  obtain ⟨hlt, j, hj, hnot⟩ := h
  refine ⟨hlt, j, hj, fun hmem => hnot ?_⟩
  change some j ∈ List.map (·.2) (x.taken ++ [(x.buf x.offsetI, x.origin x.offsetI)])
  rw [List.map_append]
  exact List.mem_append_left _ hmem

/-- An octet that is not fresh is not to be taken. -/
theorem not_sound_take (hlt : x.offsetI < PATTY_AX25_APRS_IS_PACKET_MAX) (hnot : ¬x.Fresh x.offsetI)
    {more : List (UInt8 × Option Nat)}
    (htaken : y.taken = x.taken ++ (x.buf x.offsetI, x.origin x.offsetI) :: more) : ¬y.Sound := by
  intro h
  have hmem : (x.buf x.offsetI, x.origin x.offsetI) ∈ y.taken := by
    rw [htaken]
    exact List.mem_append_right _ List.mem_cons_self
  obtain ⟨i, hi, -⟩ := h.received _ hmem
  refine hnot ⟨hlt, i, hi, fun hbefore => ?_⟩
  have honce := h.once
  rw [htaken, List.map_append, List.map_cons] at honce
  exact (List.nodup_append.mp honce).2.2 _ hbefore _ List.mem_cons_self hi.symm

/-! ## Draining -/

/-- Draining octets that are fresh, up to where the read ends or the decoder stops. -/
theorem drainLoop_sound (hsound : x.Sound) (htagged : x.Tagged) (hfresh : ∀ i < n, x.Fresh (x.offsetI + i))
    (hend : x.limit ≤ x.offsetI + n ∨ x.aprs.feed (x.buf.read x.offsetI n) = none) (hfuel : n < fuel) :
    ∃ ok y, drainLoop encode fuel x = .ok (ok, y) ∧ y.Sound := by
  induction n generalizing x fuel with
  | zero =>
    obtain ⟨fuel, rfl⟩ : ∃ k, fuel = k + 1 := ⟨fuel - 1, by omega⟩
    have hlimit : x.limit ≤ x.offsetI := hend.resolve_right (by simp)
    exact ⟨true, x, by rw [drainLoop, if_neg (by omega)], hsound⟩
  | succ n ih =>
    obtain ⟨fuel, rfl⟩ : ∃ k, fuel = k + 1 := ⟨fuel - 1, by omega⟩
    rw [drainLoop]
    by_cases hlt : x.offsetI < x.limit
    · have hhead : x.Fresh x.offsetI := hfresh 0 (Nat.zero_lt_succ n)
      have htake (aprs : AprsIs) : (x.take aprs).Sound := hsound.take htagged hhead
      rw [if_pos hlt, if_neg (Nat.not_le.mpr hhead.1)]
      cases hc : x.aprs.drainByte (x.buf x.offsetI) with
      | more aprs =>
        refine ih (htake aprs) (htagged.take hhead.1) (fun i hi => ?_) ?_ (by omega)
        · have hnext := hfresh (i + 1) (by omega)
          rw [show x.offsetI + (i + 1) = x.offsetI + 1 + i by omega] at hnext
          have hne : x.offsetI + 1 + i ≠ x.offsetI := by omega
          exact Fresh.take htagged hhead hnext hne
        · rcases hend with hend | hend
          · rw [← Nat.add_assoc, Nat.add_right_comm] at hend
            exact .inl hend
          · rw [Mem.read_succ, AprsIs.feed_cons hc] at hend
            exact .inr hend
      | done aprs => exact ⟨_, _, rfl, htake aprs⟩
      | drop aprs => exact ⟨_, _, rfl, (htake aprs).received, (htake aprs).once⟩
      | packet aprs =>
        dsimp only
        cases encode aprs.frame with
        | none | some n => exact ⟨_, _, rfl, (htake aprs).received, (htake aprs).once⟩
    · exact ⟨true, x, by rw [if_neg hlt], hsound⟩

/-- What a round of the loop does: nothing is left, or an octet is taken, after which the decoder goes on or not. -/
theorem drainLoop_cases (h : drainLoop encode (fuel + 1) x = .ok (ok, y)) : x.limit ≤ x.offsetI ∧ y = x ∨
    x.offsetI < x.limit ∧ x.offsetI < PATTY_AX25_APRS_IS_PACKET_MAX ∧ ∃ aprs,
      x.aprs.drainByte (x.buf x.offsetI) = .more aprs ∧ drainLoop encode fuel (x.take aprs) = .ok (ok, y) ∨
      (∀ aprs', x.aprs.drainByte (x.buf x.offsetI) ≠ .more aprs') ∧
        (y = (x.take aprs).flush.2 ∨ ∃ n, y = { x.take aprs with encoded := n }) := by
  rw [drainLoop] at h
  split at h
  · rename_i hlt
    split at h
    · cases h
    · rename_i hinside
      refine .inr ⟨hlt, Nat.not_le.mp hinside, ?_⟩
      cases hc : x.aprs.drainByte (x.buf x.offsetI) with
      | more aprs =>
        rw [hc] at h
        exact ⟨aprs, .inl ⟨rfl, h⟩⟩
      | done aprs =>
        rw [hc] at h
        cases h
        exact ⟨aprs, .inr ⟨(fun _ h => by cases h), .inr ⟨_, rfl⟩⟩⟩
      | drop aprs =>
        rw [hc] at h
        cases h
        exact ⟨aprs, .inr ⟨(fun _ h => by cases h), .inl rfl⟩⟩
      | packet aprs =>
        rw [hc] at h
        dsimp only at h
        cases hencode : encode aprs.frame with
        | none | some n =>
          rw [hencode] at h
          cases h
          exact ⟨aprs, .inr ⟨(fun _ h => by cases h), .inr ⟨_, rfl⟩⟩⟩
  · rename_i hlt
    cases h
    exact .inl ⟨Nat.not_lt.mp hlt, rfl⟩

theorem drainLoop_tagged (htagged : x.Tagged) (h : drainLoop encode fuel x = .ok (ok, y)) : y.Tagged := by
  induction fuel generalizing x with
  | zero =>
    cases h
    exact htagged
  | succ fuel ih =>
    obtain ⟨-, rfl⟩ | ⟨-, hinside, aprs, ⟨-, hnext⟩ | ⟨-, rfl | ⟨n, rfl⟩⟩⟩ := drainLoop_cases h
    · exact htagged
    · exact ih (htagged.take hinside) hnext
    · exact (htagged.take hinside).flush
    · have htake : (x.take aprs).Tagged := htagged.take hinside
      exact ⟨htake.origin, htake.unique, htake.limit, htake.offset⟩

/-- What is taken stays taken. -/
theorem drainLoop_taken (h : drainLoop encode fuel x = .ok (ok, y)) : ∃ more, y.taken = x.taken ++ more := by
  induction fuel generalizing x with
  | zero =>
    cases h
    exact ⟨[], (List.append_nil _).symm⟩
  | succ fuel ih =>
    obtain ⟨-, rfl⟩ | ⟨-, -, aprs, ⟨-, hnext⟩ | ⟨-, rfl | ⟨n, rfl⟩⟩⟩ := drainLoop_cases h
    · exact ⟨[], (List.append_nil _).symm⟩
    · obtain ⟨more, hmore⟩ := ih hnext
      exact ⟨_, hmore.trans (List.append_assoc ..)⟩
    · exact ⟨_, rfl⟩
    · exact ⟨_, rfl⟩

/-- The first octet that is taken. -/
theorem drainLoop_first (hlt : x.offsetI < x.limit) (h : drainLoop encode (fuel + 1) x = .ok (ok, y)) :
    ∃ more, y.taken = x.taken ++ (x.buf x.offsetI, x.origin x.offsetI) :: more := by
  obtain ⟨hend, -⟩ | ⟨-, -, aprs, ⟨-, hnext⟩ | ⟨-, rfl | ⟨n, rfl⟩⟩⟩ := drainLoop_cases h
  · omega
  · obtain ⟨more, hmore⟩ := drainLoop_taken hnext
    exact ⟨more, hmore.trans (List.append_assoc ..)⟩
  · exact ⟨[], rfl⟩
  · exact ⟨[], rfl⟩

/-- After a read that failed, draining goes on to an octet that is not fresh, or past the buffer. -/
theorem drainLoop_unsound (htagged : x.Tagged) (hlimit : x.limit = 2 ^ 64 - 1) (hstops : ¬x.Stops)
    (hfuel : PATTY_AX25_APRS_IS_PACKET_MAX < fuel + x.offsetI) (h : drainLoop encode fuel x = .ok (ok, y)) :
    ¬y.Sound := by
  have hoffset : x.offsetI ≤ PATTY_AX25_APRS_IS_PACKET_MAX :=
    htagged.offset.resolve_right fun h => hstops (.inl h)
  induction fuel generalizing x with
  | zero => omega
  | succ fuel ih =>
    have hlt : x.offsetI < x.limit := by
      rw [hlimit]
      exact Nat.lt_of_le_of_lt hoffset (by decide)
    obtain ⟨more, hmore⟩ := drainLoop_first hlt h
    obtain ⟨hend, -⟩ | ⟨-, hinside, aprs, hround⟩ := drainLoop_cases h
    · omega
    · by_cases hfresh : x.Fresh x.offsetI
      · -- the decoder goes on
        have hone : x.aprs.feed (x.buf.read x.offsetI 1) ≠ none := fun hnone =>
          hstops (.inr ⟨1, fun i hi => by rwa [Nat.lt_one_iff.mp hi], hnone⟩)
        rw [Mem.read_succ, Mem.read_zero] at hone
        obtain ⟨aprs', hfeed⟩ := Option.ne_none_iff_exists'.mp hone
        obtain ⟨aprs', hmore', -⟩ := AprsIs.feed_cons_iff.mp hfeed
        obtain ⟨hc, hgoes⟩ := hround.resolve_right fun hstop => hstop.1 aprs' hmore'
        refine ih (htagged.take hinside) hlimit ?_ ?_ hgoes hinside
        · rintro (hfar | ⟨n, hn, hnone⟩)
          · have hfar : x.offsetI + 1 = 2 ^ 64 - 1 := hfar
            have hsmall : x.offsetI < 512 := hinside
            omega
          · refine hstops (.inr ⟨n + 1, fun i hi => ?_, ?_⟩)
            · cases i with
              | zero => exact hfresh
              | succ i =>
                have hnext : x.Fresh (x.offsetI + 1 + i) := (hn i (by omega)).of_take
                rwa [Nat.add_assoc, Nat.add_comm 1] at hnext
            · rw [Mem.read_succ, AprsIs.feed_cons hc]
              exact hnone
        · change _ < fuel + (x.offsetI + 1)
          omega
      · exact not_sound_take hinside hfresh hmore

/-- What `patty_ax25_frame_encode` returns with a buffer of `len` octets. -/
def encodeIn (len : Nat) (frame : Frame) : Option Nat :=
  match frame.encode len with
  | .ok (some bs) => some bs.length
  | _ => none

/-- After a read that succeeds, this is the loop of the decoder over the octets of the read. -/
theorem drainLoop_aprs {len i : Nat} {rx rest : Bytes} {out out' : Mem} {aprs' : AprsIs}
    (hrest : x.buf.read x.offsetI rest.length = rest) (hlimit : x.limit = x.offsetI + rest.length)
    (hle : x.limit ≤ PATTY_AX25_APRS_IS_PACKET_MAX) (hfuel : rest.length < fuel)
    (h : AprsIs.drainLoop len rest (x.aprs.inRead rx i) out = .ok (ok, aprs', out')) :
    ∃ y, drainLoop (encodeIn len) fuel x = .ok (ok, y) ∧
      ∃ rx i, y.aprs.inRead rx i = { aprs' with encoded := y.aprs.encoded } := by
  induction rest generalizing x i fuel with
  | nil =>
    obtain ⟨fuel, rfl⟩ : ∃ k, fuel = k + 1 := ⟨fuel - 1, by omega⟩
    cases h
    exact ⟨x, by rw [drainLoop, if_neg (by rw [hlimit]; exact Nat.lt_irrefl _)], rx, i, rfl⟩
  | cons c rest ih =>
    obtain ⟨fuel, rfl⟩ : ∃ k, fuel = k + 1 := ⟨fuel - 1, by omega⟩
    rw [List.length_cons, Mem.read_succ] at hrest
    obtain ⟨hc, hrest⟩ := List.cons.inj hrest
    rw [List.length_cons] at hlimit hfuel
    rw [AprsIs.drainLoop] at h
    have hnext : { x.aprs.inRead rx i with offsetI := (x.aprs.inRead rx i).offsetI + 1 } =
        x.aprs.inRead rx (i + 1) := rfl
    rw [hnext, AprsIs.drainByte_inRead] at h
    rw [drainLoop, if_pos (by omega), if_neg (by omega), hc]
    cases hfed : x.aprs.drainByte c with
    | more aprs =>
      rw [hfed] at h
      exact ih (x := x.take aprs) hrest (by change x.limit = x.offsetI + 1 + rest.length; omega) hle (by omega) h
    | done aprs =>
      rw [hfed] at h
      cases h
      exact ⟨_, rfl, rx, i + 1, rfl⟩
    | drop aprs =>
      rw [hfed] at h
      cases h
      exact ⟨_, rfl, rx, rx.length, rfl⟩
    | packet aprs =>
      rw [hfed] at h
      dsimp only [AprsIs.Fed.inRead] at h ⊢
      rw [encodeIn]
      have hframe : (aprs.inRead rx (i + 1)).frame = aprs.frame := rfl
      rw [hframe] at h
      split at h
      · cases h
      · rename_i hnone
        cases h
        rw [hnone]
        exact ⟨_, rfl, rx, i + 1, rfl⟩
      · rename_i bs hbs
        cases h
        rw [hbs]
        exact ⟨_, rfl, rx, i + 1, rfl⟩

/-! ## The loop of `handle_iface` -/

/-- Nothing is left to drain. -/
theorem ifaceLoop_end (hend : x.offsetI = x.limit) (hp : x.pending = false) :
    ifaceLoop encode fuel x = .ok (true, x) := by
  cases fuel with
  | zero => rfl
  | succ fuel =>
    have hdrain : x.drain encode = .ok (ssize ((x.offsetI + 2 ^ 64 - x.offsetI) % 2 ^ 64), x) := by
      rw [drain, drainLoop, if_neg (by omega)]
    have hzero : ssize ((x.offsetI + 2 ^ 64 - x.offsetI) % 2 ^ 64) = 0 := by
      rw [Nat.add_sub_cancel_left]
      rfl
    rw [ifaceLoop, hdrain, hzero]
    dsimp only
    rw [if_neg (Int.lt_irrefl 0), hp]
    rfl

/-- It drains once: after a flush nothing is left. -/
theorem ifaceLoop_drain : match drainLoop encode (PATTY_AX25_APRS_IS_PACKET_MAX + 1) x with
    | .error e => ifaceLoop encode (fuel + 1) x = .error e
    | .ok (_, y) => ∃ ok z, ifaceLoop encode (fuel + 1) x = .ok (ok, z) ∧ (z = y ∨ z = y.flush.2) := by
  have hloop (r : Int) (y : AprsIsRx) (hdrain : x.drain encode = .ok (r, y)) :
      ∃ ok z, ifaceLoop encode (fuel + 1) x = .ok (ok, z) ∧ (z = y ∨ z = y.flush.2) := by
    rw [ifaceLoop, hdrain]
    dsimp only
    split
    · exact ⟨_, _, rfl, .inl rfl⟩
    · split
      · exact ⟨_, _, rfl, .inl rfl⟩
      · split
        · exact ⟨_, _, rfl, .inr rfl⟩
        · exact ⟨_, _, ifaceLoop_end rfl rfl, .inr rfl⟩
  split
  · rename_i e he
    have hdrain : x.drain encode = .error e := by rw [drain, he]
    rw [ifaceLoop, hdrain]
  · rename_i ok y hy
    cases ok with
    | true => exact hloop _ y (by rw [drain, hy])
    | false => exact hloop (-1) y (by rw [drain, hy])

/-! ## A read -/

theorem Sound.flush (h : x.Sound) : x.flush.2.Sound := ⟨h.received, h.once⟩

theorem getElem_received {l : Bytes} {i : Nat} {c : UInt8} (h : l[i]? = some c) : (l ++ bs)[i]? = some c := by
  rw [List.getElem?_append_left (List.getElem?_eq_some_iff.mp h).1, h]

theorem Sound.fill (h : x.Sound) : (x.fill bs).Sound where
  received e he := by
    obtain ⟨i, hi, hget⟩ := h.received e he
    exact ⟨i, hi, getElem_received hget⟩
  once := h.once

theorem Tagged.fill (h : x.Tagged) (hbs : bs.length ≤ PATTY_AX25_APRS_IS_PACKET_MAX) : (x.fill bs).Tagged := by
  have hold {a i : Nat} (ha : x.origin a = some i) : i < x.received.length :=
    (List.getElem?_eq_some_iff.mp (h.origin a i ha)).1
  have horigin (a : Nat) : (x.fill bs).origin a =
      if a < bs.length then some (x.received.length + a) else x.origin a := rfl
  have hbuf (a : Nat) : (x.fill bs).buf a = x.buf.store 0 bs a := rfl
  refine ⟨fun a i hi => ?_, fun a b i ha hb => ?_, .inl ?_, .inl (Nat.zero_le _)⟩
  · rw [horigin] at hi
    rw [hbuf, Mem.store, Nat.zero_add, Nat.sub_zero]
    split at hi
    · rename_i ha
      obtain rfl := Option.some.inj hi
      change (x.received ++ bs)[_]? = _
      rw [if_pos ⟨Nat.zero_le a, ha⟩, List.getElem?_append_right (Nat.le_add_right _ _), Nat.add_sub_cancel_left,
        List.getElem?_eq_getElem ha, List.getD_eq_getElem _ _ ha]
    · rename_i ha
      rw [if_neg fun h => ha h.2]
      exact getElem_received (h.origin a i hi)
  · rw [horigin] at ha hb
    split at ha
    · obtain rfl := Option.some.inj ha
      split at hb
      · have hb := Option.some.inj hb
        omega
      · have hb := hold hb
        omega
    · split at hb
      · obtain rfl := Option.some.inj hb
        have ha := hold ha
        omega
      · exact h.unique a b i ha hb
  · rw [limit_fill hbs]
    exact hbs

theorem fresh_fill (h : x.Sound) (hbs : bs.length ≤ PATTY_AX25_APRS_IS_PACKET_MAX) (ha : a < bs.length) :
    (x.fill bs).Fresh a := by
  refine ⟨Nat.lt_of_lt_of_le ha hbs, x.received.length + a, if_pos ha, fun hmem => ?_⟩
  obtain ⟨e, he, horigin⟩ := List.mem_map.mp hmem
  obtain ⟨i, hi, hget⟩ := h.received e he
  obtain rfl : i = x.received.length + a := Option.some.inj (hi.symm.trans horigin)
  rw [List.getElem?_eq_none (by omega)] at hget
  cases hget

/-- The read fails. -/
theorem Tagged.failed (h : x.Tagged) : Tagged { x with readlen := -1 } := ⟨h.origin, h.unique, .inr rfl, h.offset⟩

/-- What is kept when the decoder drains, and when what it takes is sound. -/
theorem ifaceLoop_sound {P : Prop} (htagged : x.Tagged)
    (h : match drainLoop encode (PATTY_AX25_APRS_IS_PACKET_MAX + 1) x with
      | .ok (_, y) => y.Sound ↔ P
      | .error _ => ¬P) :
    match ifaceLoop encode (fuel + 1) x with
    | .ok (_, z) => z.Tagged ∧ (z.Sound ↔ P)
    | .error _ => ¬P := by
  have hdrain := @ifaceLoop_drain encode fuel x
  cases hloop : drainLoop encode (PATTY_AX25_APRS_IS_PACKET_MAX + 1) x with
  | error e =>
    rw [hloop] at h hdrain
    dsimp only at hdrain
    rw [hdrain]
    exact h
  | ok r =>
    obtain ⟨ok, y⟩ := r
    rw [hloop] at h hdrain
    dsimp only at h hdrain
    obtain ⟨ok', z, hz, heq⟩ := hdrain
    have hy := drainLoop_tagged htagged hloop
    rw [hz]
    rcases heq with rfl | rfl
    · exact ⟨hy, h⟩
    · exact ⟨hy.flush, ⟨fun hs => h.mp ⟨hs.received, hs.once⟩, fun hp => (h.mpr hp).flush⟩⟩

variable (encode)

/-- The octets of a read. -/
theorem drain_data (hsound : x.Sound) (htagged : x.Tagged) (hbs : bs.length ≤ PATTY_AX25_APRS_IS_PACKET_MAX) :
    ∃ ok y, drainLoop encode (PATTY_AX25_APRS_IS_PACKET_MAX + 1) (x.fill bs) = .ok (ok, y) ∧ y.Sound := by
  refine drainLoop_sound hsound.fill (htagged.fill hbs) (n := bs.length) (fun i hi => ?_) (.inl ?_)
    (Nat.lt_succ_of_le hbs)
  · rw [show (x.fill bs).offsetI + i = i from Nat.zero_add i]
    exact fresh_fill hsound hbs hi
  · rw [limit_fill hbs]
    exact Nat.le_add_left _ _

/-- The octets that are left after a read that fails. -/
theorem drain_failed (hsound : x.Sound) (htagged : x.Tagged) :
    match drainLoop encode (PATTY_AX25_APRS_IS_PACKET_MAX + 1) { x with readlen := -1 } with
    | .ok (_, y) => y.Sound ↔ x.Stops
    | .error _ => ¬x.Stops := by
  have hsound' : Sound { x with readlen := -1 } := ⟨hsound.received, hsound.once⟩
  by_cases hstops : x.Stops
  · obtain ⟨ok, y, hy, hys⟩ : ∃ ok y, drainLoop encode (PATTY_AX25_APRS_IS_PACKET_MAX + 1)
        { x with readlen := -1 } = .ok (ok, y) ∧ y.Sound := by
      rcases hstops with hfar | ⟨n, hfresh, hnone⟩
      · refine drainLoop_sound hsound' htagged.failed (n := 0) nofun (.inl ?_) (Nat.zero_lt_succ _)
        exact hfar.ge
      · refine drainLoop_sound hsound' htagged.failed hfresh (.inr hnone) ?_
        cases n with
        | zero => exact Nat.zero_lt_succ _
        | succ n =>
          have hlast := (hfresh n (Nat.lt_succ_self n)).1
          omega
    rw [hy]
    exact ⟨fun _ => hstops, fun _ => hys⟩
  · split
    · rename_i ok y hy
      have hoff := drainLoop_unsound htagged.failed limit_failed hstops
        (Nat.lt_add_right _ (Nat.lt_succ_self _)) hy
      exact ⟨fun h => absurd h hoff, fun h => absurd h hstops⟩
    · exact hstops

/-- What a read keeps, and when what is taken stays sound. -/
theorem handleIface_sound {o : ReadOutcome} (hsound : x.Sound) (htagged : x.Tagged) (ho : o.Valid) :
    match x.handleIface encode o with
    | .ok (_, y) => y.Tagged ∧ (y.Sound ↔ (o = .failed true → x.Stops))
    | .error _ => ¬(o = .failed true → x.Stops) := by
  cases o with
  | data bs =>
    refine ifaceLoop_sound (htagged.fill ho.2) ?_
    obtain ⟨ok, y, hy, hys⟩ := drain_data encode hsound htagged ho.2
    rw [hy]
    exact ⟨fun _ => nofun, fun _ => hys⟩
  | eof => exact ⟨htagged.fill (Nat.zero_le _), fun _ => nofun, fun _ => hsound.fill⟩
  | failed reset =>
    cases reset with
    | false => exact ⟨htagged.failed, fun _ => nofun, fun _ => ⟨hsound.received, hsound.once⟩⟩
    | true =>
      have hiff : (ReadOutcome.failed true = .failed true → x.Stops) ↔ x.Stops :=
        ⟨fun h => h rfl, fun h _ => h⟩
      rw [hiff]
      exact ifaceLoop_sound htagged.failed (drain_failed encode hsound htagged)

/-! ## Runs -/

/-- In every run, whatever the frames are encoded to, the octets that are taken are octets that were received,
each at most once, and no access is outside the buffer, exactly when a read fails and the reset after it
succeeds only where one of the octets that are left makes the decoder stop. -/
theorem onlyReceived_iff {l : List (ReadOutcome × Except Fault AprsIsRx)}
    (h : Trace (Step encode) (.ok .new) l) : (∀ s ∈ l, OnlyReceived s.2) ↔ Meets StopsAt (.ok .new) l := by
  have hnew : Tagged new := ⟨nofun, nofun, .inl (Nat.zero_le _), .inl (Nat.zero_le _)⟩
  refine h.invariant_iff_of (J := fun s => ∀ x, s = .ok x → x.Tagged) ?_ ?_ (fun x hx => ?_) ⟨nofun, List.nodup_nil⟩
  · rintro s o t htagged hsound ⟨x, rfl, ho, rfl⟩ y hy
    have hstep := handleIface_sound encode hsound (htagged x rfl) ho
    cases hx : x.handleIface encode o with
    | error e =>
      rw [hx] at hy
      cases hy
    | ok r =>
      rw [hx] at hstep hy
      cases hy
      exact hstep.1
  · rintro s o t htagged hsound ⟨x, rfl, ho, rfl⟩
    have hstep := handleIface_sound encode hsound (htagged x rfl) ho
    have hiff : StopsAt (.ok x) o ↔ (o = .failed true → x.Stops) :=
      ⟨fun hs ho => hs ho x rfl, fun hs ho y hy => by cases hy; exact hs ho⟩
    rw [hiff]
    cases hx : x.handleIface encode o with
    | error e =>
      rw [hx] at hstep
      exact ⟨False.elim, hstep⟩
    | ok r =>
      rw [hx] at hstep
      exact hstep.2
  · cases hx
    exact hnew

/-- Two comments in a read: the second is taken after a read that fails. -/
theorem onlyReceived_comments : ∃ s t, Trace (Step fun _ => none) (.ok new)
    [(.data [0x23, 0x61, 0x0a, 0x23, 0x62, 0x0a], s), (.failed true, t)] ∧ OnlyReceived s ∧ OnlyReceived t := by
  have hread : (new.handleIface (fun _ => none) (.data [0x23, 0x61, 0x0a, 0x23, 0x62, 0x0a])).map (fun r =>
      (r.2.offsetI, r.2.buf.read 3 3, (List.range 6).map r.2.origin, r.2.taken.map (·.2),
        r.2.aprs.feed [0x23, 0x62, 0x0a] |>.isNone)) =
      .ok (3, [0x23, 0x62, 0x0a], (List.range 6).map some, [some 0, some 1, some 2], true) := by decide
  obtain ⟨⟨ok, x⟩, hx, heq⟩ := Except.map_eq_ok hread
  simp only [Prod.mk.injEq] at heq
  obtain ⟨hoffset, hbuf, horigin, htaken, hfeed⟩ := heq
  have hstops : x.Stops := by
    refine .inr ⟨3, fun i hi => ?_, ?_⟩
    · have hlt : x.offsetI + i < 6 := by omega
      refine ⟨Nat.lt_of_lt_of_le hlt (by decide), x.offsetI + i,
        List.map_inj_left.mp horigin _ (List.mem_range.mpr hlt), ?_⟩
      rw [htaken, hoffset]
      simp
      omega
    · rw [hoffset, hbuf]
      exact Option.isNone_iff_eq_none.mp hfeed
  obtain ⟨t, ht⟩ : ∃ t, t = (x.handleIface (fun _ => none) (.failed true)).map (·.2) := ⟨_, rfl⟩
  have htrace : Trace (Step fun _ => none) (.ok new)
      [(.data [0x23, 0x61, 0x0a, 0x23, 0x62, 0x0a], .ok x), (.failed true, t)] :=
    .cons ⟨new, rfl, ⟨nofun, by decide⟩, by rw [hx]; rfl⟩ (.cons ⟨x, rfl, trivial, ht⟩ .nil)
  have hmeets : Meets StopsAt (.ok new) [(.data [0x23, 0x61, 0x0a, 0x23, 0x62, 0x0a], .ok x), (.failed true, t)] :=
    ⟨nofun, fun _ y hy => by cases hy; exact hstops, trivial⟩
  have h := (onlyReceived_iff _ htrace).mpr hmeets
  exact ⟨_, _, htrace, h _ List.mem_cons_self, h _ (List.mem_cons_of_mem _ List.mem_cons_self)⟩

/-- A read ends within a line, and the next fails: the octet after it in the buffer was never received. -/
theorem not_onlyReceived : ¬∀ (encode : Frame → Option Nat) (l : List (ReadOutcome × Except Fault AprsIsRx)),
    Trace (Step encode) (.ok .new) l → ∀ s ∈ l, OnlyReceived s.2 := by
  intro h
  have hruns : (new.handleIface (fun _ => none) (.data [0x4e, 0x30]) >>= fun r =>
      r.2.handleIface (fun _ => none) (.failed true)).map (·.2.taken.map (·.2)) =
      .ok [some 0, some 1, none] := by decide
  obtain ⟨⟨ok, y⟩, hy, htaken⟩ := Except.map_eq_ok hruns
  obtain ⟨⟨ok', x⟩, hx, hy⟩ := Except.bind_eq_ok hy
  have htrace : Trace (Step fun _ => none) (.ok new) [(.data [0x4e, 0x30], .ok x), (.failed true, .ok y)] :=
    .cons ⟨new, rfl, ⟨nofun, by decide⟩, by rw [hx]; rfl⟩ (.cons ⟨x, rfl, trivial, by rw [hy]; rfl⟩ .nil)
  have hsound : y.Sound := h _ _ htrace _ (List.mem_cons_of_mem _ List.mem_cons_self)
  have hmem : none ∈ y.taken.map (·.2) := by
    rw [htaken]
    simp
  obtain ⟨e, he, hnone⟩ := List.mem_map.mp hmem
  obtain ⟨i, hi, -⟩ := hsound.received e he
  exact nomatch hnone.symm.trans hi

end AprsIsRx

end Patty
