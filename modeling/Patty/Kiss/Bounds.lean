import Patty.Kiss.Reads
import Patty.Lib.Run

/-! # The buffers of the KISS decoder (`tnc.c`)

Whatever is read, and in whatever order the functions of the decoder are called, `patty_kiss_tnc_drain` stores
inside its output buffer and reads inside its own (`drain_inside`). The octets stored are limited once in a
round of its loop, before the octet is read: the octet stores at most one more, and where the limit is met
the decoder has been reset, and stores nothing until the next frame. -/

namespace Patty

namespace Tnc

/-! ## The calls -/

/-- A call of a function of the decoder: a read that succeeds, or draining into a buffer with any contents. -/
inductive Call
  | fill (bs : Bytes)
  | drain (out : Mem)
  | pending
  | flush

/-- What the call makes of a decoder whose output buffer has `len` octets. -/
def CallStep (len : Nat) (tnc : Tnc) : Call → Tnc → Prop
  | .fill bs, tnc' => bs.length ≤ PATTY_KISS_TNC_BUFSZ ∧ tnc' = tnc.fill bs
  | .drain out, tnc' => ∃ r out', tnc.drain out len = .ok (r, tnc', out')
  | .pending, tnc' => tnc' = tnc
  | .flush, tnc' => tnc' = tnc.flush.2

/-- What is stored and what was read fit in the buffers. -/
structure Bounded (len : Nat) (tnc : Tnc) : Prop where
  out : tnc.offsetO ≤ len
  buf : tnc.readlen ≤ PATTY_KISS_TNC_BUFSZ

/-- The decoder after an octet. -/
def Drained.next : Drained → Tnc
  | .more tnc _ | .done tnc _ | .error tnc _ => tnc

/-- The decoder where an octet is read: it is reset if its output buffer is full. -/
def checked (len : Nat) (tnc : Tnc) : Tnc := if tnc.offsetO = len then tnc.drop else tnc

/-- The decoder with an octet taken. -/
def take (tnc : Tnc) : Tnc := { tnc with offsetI := tnc.offsetI + 1 }

variable {len fuel n : Nat} {tnc tnc' : Tnc} {out out' : Mem} {c : UInt8} {call : Call}

/-! ## An octet -/

/-- An octet stores at most one, leaves what is read alone, and drops nothing. -/
structure Advances (len : Nat) (tnc tnc' : Tnc) : Prop where
  out : tnc'.offsetO ≤ len
  readlen : tnc'.readlen = tnc.readlen
  offsetI : tnc'.offsetI = tnc.offsetI
  dropped : tnc'.dropped = tnc.dropped

theorem put_advances (out : Mem) (c : UInt8) (h : tnc.offsetO < len) :
    ∃ tnc' out', tnc.put out len c = .ok (tnc', out') ∧ Advances len tnc tnc' :=
  ⟨_, _, if_pos h, h, rfl, rfl, rfl⟩

theorem drainByte_advances (out : Mem) (c : UInt8) (hout : tnc.offsetO ≤ len)
    (h : tnc.state = .none ∨ tnc.offsetO < len) :
    ∃ r, tnc.drainByte out len c = .ok r ∧ Advances len tnc r.next := by
  have hstay {tnc' : Tnc} (ho : tnc'.offsetO = tnc.offsetO) (hlen : tnc'.readlen = tnc.readlen)
      (hi : tnc'.offsetI = tnc.offsetI) (hd : tnc'.dropped = tnc.dropped) : Advances len tnc tnc' :=
    ⟨by omega, hlen, hi, hd⟩
  unfold drainByte
  cases hstate : tnc.state with
  | none =>
    refine ⟨_, rfl, ?_⟩
    rw [Drained.next]
    split
    · exact hstay rfl rfl rfl rfl
    · exact hstay rfl rfl rfl rfl
  | frameCommand =>
    dsimp only
    split
    · exact ⟨_, rfl, hstay rfl rfl rfl rfl⟩
    · split
      · exact ⟨_, rfl, hstay rfl rfl rfl rfl⟩
      · exact ⟨_, rfl, hstay rfl rfl rfl rfl⟩
  | frameBody =>
    have hlt : tnc.offsetO < len := h.resolve_left (by rw [hstate]; decide)
    dsimp only
    split
    · exact ⟨_, rfl, hstay rfl rfl rfl rfl⟩
    · split
      · exact ⟨_, rfl, hstay rfl rfl rfl rfl⟩
      · split
        · obtain ⟨tnc', out', hput, hadv⟩ := put_advances out c hlt
          rw [hput]
          exact ⟨_, rfl, hadv⟩
        · exact ⟨_, rfl, hstay rfl rfl rfl rfl⟩
  | frameEscape =>
    have hlt : tnc.offsetO < len := h.resolve_left (by rw [hstate]; decide)
    have hback {b : UInt8} : ∃ r,
        (tnc.put out len b >>= fun r => return Drained.more { r.1 with state := .frameBody } r.2) = .ok r ∧
          Advances len tnc r.next := by
      obtain ⟨tnc', out', hput, hadv⟩ := put_advances out b hlt
      rw [hput]
      exact ⟨_, rfl, hadv.out, hadv.readlen, hadv.offsetI, hadv.dropped⟩
    dsimp only
    split
    · exact hback
    · split
      · exact hback
      · exact ⟨_, rfl, hstay rfl rfl rfl rfl⟩

/-! ## The loop -/

theorem drainLoop_succ (hi : tnc.offsetI < tnc.readlen) : drainLoop len (fuel + 1) tnc out =
    if PATTY_KISS_TNC_BUFSZ ≤ (tnc.checked len).offsetI then .error .overrun
    else match (tnc.checked len).take.drainByte out len ((tnc.checked len).buf (tnc.checked len).offsetI) with
      | .error e => .error e
      | .ok (.more tnc out) => drainLoop len fuel tnc out
      | .ok (.done tnc out) => .ok (true, tnc, out)
      | .ok (.error tnc out) => .ok (false, tnc, out) := by
  rw [drainLoop, if_pos hi]
  rfl

theorem drainLoop_end (hi : ¬tnc.offsetI < tnc.readlen) : drainLoop len fuel tnc out = .ok (true, tnc, out) := by
  cases fuel with
  | zero => rfl
  | succ fuel => rw [drainLoop, if_neg hi]

theorem drain_end (hi : ¬tnc.offsetI < tnc.readlen) : tnc.drain out len = .ok (0, tnc, out) := by
  rw [drain, drainLoop_end hi]
  dsimp only
  rw [Int.sub_self]

/-- A round finds an octet, which leaves fewer of them. -/
theorem round (h : tnc.Bounded len) (hi : tnc.offsetI < tnc.readlen) (out : Mem) :
    (tnc.checked len).offsetI < PATTY_KISS_TNC_BUFSZ ∧ ∃ r,
      (tnc.checked len).take.drainByte out len ((tnc.checked len).buf (tnc.checked len).offsetI) = .ok r ∧
      r.next.Bounded len ∧ r.next.readlen - r.next.offsetI < tnc.readlen - tnc.offsetI := by
  obtain ⟨hout, hbuf⟩ := h
  have hchecked : (tnc.checked len).offsetO ≤ len ∧ (tnc.checked len).readlen ≤ PATTY_KISS_TNC_BUFSZ ∧
      ((tnc.checked len).state = .none ∨ (tnc.checked len).offsetO < len) ∧
      (tnc.checked len).offsetI ≤ tnc.offsetI ∧
      (tnc.checked len).readlen - ((tnc.checked len).offsetI + 1) < tnc.readlen - tnc.offsetI := by
    rw [checked]
    split
    · refine ⟨Nat.zero_le _, Nat.zero_le _, .inl rfl, Nat.zero_le _, ?_⟩
      change 0 - 1 < _
      omega
    · exact ⟨hout, hbuf, .inr (by omega), le_rfl, by omega⟩
  obtain ⟨hout', hbuf', hroom, hle, hless⟩ := hchecked
  obtain ⟨r, hr, hadv⟩ := @drainByte_advances len (tnc.checked len).take out
    ((tnc.checked len).buf (tnc.checked len).offsetI) hout' hroom
  refine ⟨by omega, r, hr, ⟨hadv.out, hadv.readlen ▸ hbuf'⟩, ?_⟩
  rw [hadv.readlen, hadv.offsetI]
  exact hless

theorem drainLoop_bounded (fuel : Nat) (out : Mem) (h : tnc.Bounded len) :
    ∃ ok tnc' out', drainLoop len fuel tnc out = .ok (ok, tnc', out') ∧ tnc'.Bounded len := by
  induction fuel generalizing tnc out with
  | zero => exact ⟨true, tnc, out, rfl, h⟩
  | succ fuel ih =>
    by_cases hi : tnc.offsetI < tnc.readlen
    · obtain ⟨hidx, r, hr, hnext, -⟩ := round h hi out
      rw [drainLoop_succ hi, if_neg (by omega), hr]
      cases r with
      | more tnc' out' => exact ih out' hnext
      | done tnc' out' => exact ⟨_, _, _, rfl, hnext⟩
      | error tnc' out' => exact ⟨_, _, _, rfl, hnext⟩
    · exact ⟨true, tnc, out, drainLoop_end hi, h⟩

/-- As many rounds as there are octets left are enough. -/
theorem drainLoop_fuel (h : tnc.Bounded len) (hfuel : tnc.readlen - tnc.offsetI ≤ fuel) :
    drainLoop len (fuel + n) tnc out = drainLoop len fuel tnc out := by
  induction fuel generalizing tnc out with
  | zero => rw [drainLoop_end (by omega), drainLoop_end (by omega)]
  | succ fuel ih =>
    by_cases hi : tnc.offsetI < tnc.readlen
    · obtain ⟨hidx, r, hr, hnext, hless⟩ := round h hi out
      rw [Nat.add_right_comm, drainLoop_succ hi, drainLoop_succ hi, if_neg (by omega), if_neg (by omega), hr]
      cases r with
      | more tnc' out' => exact ih hnext (show tnc'.readlen - tnc'.offsetI ≤ fuel from by
          have hless : tnc'.readlen - tnc'.offsetI < tnc.readlen - tnc.offsetI := hless
          omega)
      | done tnc' out' => rfl
      | error tnc' out' => rfl
    · rw [drainLoop_end hi, drainLoop_end hi]

theorem drain_bounded (h : tnc.Bounded len) (out : Mem) :
    ∃ r tnc' out', tnc.drain out len = .ok (r, tnc', out') ∧ tnc'.Bounded len := by
  obtain ⟨ok, tnc', out', hloop, hbounded⟩ := drainLoop_bounded (PATTY_KISS_TNC_BUFSZ + 1) out h
  rw [drain, hloop]
  cases ok with
  | true => exact ⟨_, _, _, rfl, hbounded⟩
  | false => exact ⟨_, _, _, rfl, hbounded⟩

/-! ## Any calls -/

theorem bounded_step (h : tnc.Bounded len) (hst : CallStep len tnc call tnc') : tnc'.Bounded len := by
  cases call with
  | fill bs =>
    obtain ⟨hbs, rfl⟩ := hst
    exact ⟨h.out, hbs⟩
  | drain out =>
    obtain ⟨r, out', hdrain⟩ := hst
    obtain ⟨r', t, o, ht, hbounded⟩ := drain_bounded h out
    rw [hdrain] at ht
    cases ht
    exact hbounded
  | pending =>
    obtain rfl := hst
    exact h
  | flush =>
    obtain rfl := hst
    exact ⟨Nat.zero_le _, h.buf⟩

/-- Whatever the reads return, and in whatever order the functions are called, also after draining has
failed: draining faults neither where it stores an octet nor where it reads one, however long its loop goes
on, and it ends. -/
theorem drain_inside {junk : Mem} (h : Run (CallStep len) (fun _ _ => True) (.new junk) tnc) (out : Mem) :
    (∀ fuel, ∃ r, drainLoop len fuel tnc out = .ok r) ∧
    (∀ fuel, PATTY_KISS_TNC_BUFSZ ≤ fuel → drainLoop len fuel tnc out = drainLoop len PATTY_KISS_TNC_BUFSZ tnc out) ∧
    ∃ r tnc' out', tnc.drain out len = .ok (r, tnc', out') := by
  have hnew : (Tnc.new junk).Bounded len := ⟨Nat.zero_le _, Nat.zero_le _⟩
  have hbounded : tnc.Bounded len := h.invariant (fun _ _ _ ht _ hst => bounded_step ht hst) hnew
  refine ⟨fun fuel => ?_, fun fuel hfuel => ?_, ?_⟩
  · obtain ⟨ok, tnc', out', hloop, -⟩ := drainLoop_bounded fuel out hbounded
    exact ⟨_, hloop⟩
  · obtain ⟨n, rfl⟩ := Nat.exists_eq_add_of_le hfuel
    have hbuf := hbounded.buf
    exact drainLoop_fuel hbounded (by omega)
  · obtain ⟨r, tnc', out', hdrain, -⟩ := drain_bounded hbounded out
    exact ⟨r, tnc', out', hdrain⟩

/-- Within an escape that is none, after a frame that was too long. -/
theorem drain_inside_noise : ∃ tnc : Tnc, (tnc.dropped = 1 ∧ tnc.state = .frameEscape) ∧
    ∃ r tnc' out', tnc.drain (fun _ => 0) 2 = .ok (r, tnc', out') := by
  have hlong : Run (CallStep 2) (fun _ _ => True) (.new fun _ => 0)
      ((Tnc.new fun _ => 0).fill [0xc0, 0x00, 0x41, 0x42, 0x43, 0xc0]) :=
    .single (i := .fill [0xc0, 0x00, 0x41, 0x42, 0x43, 0xc0]) trivial ⟨by decide, rfl⟩
  obtain ⟨tnc, hrun, hstate⟩ : ∃ tnc, Run (CallStep 2) (fun _ _ => True) (.new fun _ => 0) tnc ∧
      tnc.dropped = 1 ∧ tnc.state = .frameEscape :=
    ⟨_, .tail (i := .drain fun _ => 0) (.tail (i := .fill [0xc0, 0x00, 0xdb, 0x01])
      (.tail (i := .drain fun _ => 0) hlong trivial ⟨_, _, rfl⟩) trivial ⟨by decide, rfl⟩) trivial ⟨_, _, rfl⟩,
      rfl, rfl⟩
  exact ⟨tnc, hstate, (drain_inside hrun fun _ => 0).2.2⟩

end Tnc

end Patty
