import Patty.Basic
import Patty.Lib.Bytes

/-! # The KISS decoder and encoder (`tnc.c`, `kiss.c`)

`patty_kiss_tnc_drain` turns what `patty_kiss_tnc_fill` has read into the payload of a frame, one
frame at a time; its state survives from one read to the next. A RAW socket has a decoder of its
own for what its client writes. -/

namespace Patty

abbrev PATTY_KISS_FEND : UInt8 := 0xc0
abbrev PATTY_KISS_FESC : UInt8 := 0xdb
abbrev PATTY_KISS_TFEND : UInt8 := 0xdc
abbrev PATTY_KISS_TFESC : UInt8 := 0xdd
abbrev PATTY_KISS_DATA : UInt8 := 0x00
abbrev PATTY_KISS_HW_SET : UInt8 := 0x06
abbrev PATTY_KISS_RETURN : UInt8 := 0xff
abbrev PATTY_KISS_TNC_BUFSZ : Nat := 4096

inductive TncState
  | none
  | frameCommand
  | frameBody
  | frameEscape
  deriving DecidableEq

/-- `struct _patty_kiss_tnc`: the decoder, with the bytes of the last read in `buf`. -/
structure Tnc where
  dropped : Nat
  buf : Mem
  state : TncState
  command : UInt8
  port : UInt8
  readlen : Nat
  offsetI : Nat
  offsetO : Nat

namespace Tnc

/-- `patty_kiss_tnc_new`; the buffer holds what `malloc` left in it. -/
def new (junk : Mem) : Tnc where
  dropped := 0
  buf := junk
  state := .none
  command := PATTY_KISS_RETURN
  port := 0
  readlen := 0
  offsetI := 0
  offsetO := 0

/-- `tnc_drop`. -/
def drop (tnc : Tnc) : Tnc :=
  { tnc with
    state := .none, command := PATTY_KISS_RETURN, port := 0
    offsetI := 0, offsetO := 0, readlen := 0, dropped := tnc.dropped + 1 }

/-- `patty_kiss_tnc_fill` when the read returns `bs`. -/
def fill (tnc : Tnc) (bs : Bytes) : Tnc :=
  { tnc with buf := tnc.buf.store 0 bs, readlen := bs.length, offsetI := 0 }

/-- What one byte does to the decoder and to the output buffer `out`. -/
inductive Drained
  | more (tnc : Tnc) (out : Mem)
  /-- The end of a frame. -/
  | done (tnc : Tnc) (out : Mem)
  | error (tnc : Tnc) (out : Mem)

/-- Store a byte of the payload in an output buffer of `len` bytes. -/
def put (tnc : Tnc) (out : Mem) (len : Nat) (c : UInt8) : Except Fault (Tnc × Mem) :=
  if tnc.offsetO < len then
    .ok ({ tnc with offsetO := tnc.offsetO + 1 }, out.store tnc.offsetO [c])
  else .error .overrun

/-- The body of the loop of `patty_kiss_tnc_drain` for the byte `c`. -/
def drainByte (tnc : Tnc) (out : Mem) (len : Nat) (c : UInt8) : Except Fault Drained :=
  match tnc.state with
  | .none =>
    .ok (.more (if c = PATTY_KISS_FEND then { tnc with state := .frameCommand } else tnc) out)
  | .frameCommand =>
    let command := c &&& 0x0f
    let port := (c &&& 0xf0) >>> 4
    if command = PATTY_KISS_FEND then .ok (.more tnc out)
    else if command ≤ PATTY_KISS_HW_SET || command = PATTY_KISS_RETURN then
      .ok (.more { tnc with state := .frameBody, command, port } out)
    else .ok (.error tnc out)
  | .frameBody =>
    if c = PATTY_KISS_FESC then .ok (.more { tnc with state := .frameEscape } out)
    else if c = PATTY_KISS_FEND then .ok (.done { tnc with state := .frameCommand } out)
    else if tnc.command = PATTY_KISS_DATA then do
      let (tnc, out) ← tnc.put out len c
      return .more tnc out
    else .ok (.more tnc out)
  | .frameEscape =>
    if c = PATTY_KISS_TFEND then do
      let (tnc, out) ← tnc.put out len PATTY_KISS_FEND
      return .more { tnc with state := .frameBody } out
    else if c = PATTY_KISS_TFESC then do
      let (tnc, out) ← tnc.put out len PATTY_KISS_FESC
      return .more { tnc with state := .frameBody } out
    else .ok (.error tnc out)

/-- The loop of `patty_kiss_tnc_drain`; a round takes a byte of the buffer, so that as many rounds
as it has bytes are enough. -/
def drainLoop (len : Nat) : Nat → Tnc → Mem → Except Fault (Bool × Tnc × Mem)
  | 0, tnc, out => .ok (true, tnc, out)
  | fuel + 1, tnc, out =>
    if tnc.offsetI < tnc.readlen then
      let tnc := if tnc.offsetO = len then tnc.drop else tnc
      if PATTY_KISS_TNC_BUFSZ ≤ tnc.offsetI then .error .overrun
      else
        let c := tnc.buf tnc.offsetI
        match drainByte { tnc with offsetI := tnc.offsetI + 1 } out len c with
        | .error e => .error e
        | .ok (.more tnc out) => drainLoop len fuel tnc out
        | .ok (.done tnc out) => .ok (true, tnc, out)
        | .ok (.error tnc out) => .ok (false, tnc, out)
    else .ok (true, tnc, out)

/-- `patty_kiss_tnc_drain` into an output buffer of `len` bytes: the number of bytes consumed, or
-1. -/
def drain (tnc : Tnc) (out : Mem) (len : Nat) : Except Fault (Int × Tnc × Mem) :=
  match drainLoop len (PATTY_KISS_TNC_BUFSZ + 1) tnc out with
  | .error e => .error e
  | .ok (true, tnc', out) => .ok (tnc'.offsetI - tnc.offsetI, tnc', out)
  | .ok (false, tnc', out) => .ok (-1, tnc', out)

def pending (tnc : Tnc) : Bool :=
  tnc.state = .frameCommand && tnc.command = PATTY_KISS_DATA && tnc.port = 0 && 0 < tnc.offsetO

def flush (tnc : Tnc) : Nat × Tnc :=
  (tnc.offsetO, { tnc with state := .none, command := PATTY_KISS_RETURN, offsetO := 0 })

end Tnc

/-- An octet of a payload as `patty_kiss_frame_send` writes it. -/
def kissEscape (c : UInt8) : Bytes :=
  if c = PATTY_KISS_FEND then [PATTY_KISS_FESC, PATTY_KISS_TFEND]
  else if c = PATTY_KISS_FESC then [PATTY_KISS_FESC, PATTY_KISS_TFESC]
  else [c]

/-- What `patty_kiss_frame_send` writes for a data frame on port 0. -/
def kissFrame (buf : Bytes) : Bytes :=
  PATTY_KISS_FEND :: PATTY_KISS_DATA :: buf.flatMap kissEscape ++ [PATTY_KISS_FEND]

end Patty
