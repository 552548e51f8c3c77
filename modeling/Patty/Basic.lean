import Mathlib.Algebra.Group.Nat.Defs
import Mathlib.Data.Int.Notation

/-! # Enumerations, error numbers, faults and timers

The enumerations of `sock.h` and `frame.h`, the values of `errno` the server sets or tests, the
ways a run can leave what C defines (`Fault`), and `timer.c`. -/

namespace Patty

/-- The type of a socket. A client chooses it by number; `other` is any number that names none. -/
inductive SockType
  | stream
  | dgram
  | raw
  | other (n : Nat)
  deriving DecidableEq

inductive SockState
  | closed
  | listening
  | pendingAccept
  | pendingConnect
  | pendingDisconnect
  | established
  | promisc
  deriving DecidableEq

inductive SockMode
  | dm
  | sabm
  | sabme
  deriving DecidableEq

inductive SockFlow
  | wait
  | ready
  deriving DecidableEq

inductive Version
  | old
  | v2_0
  | v2_2
  deriving DecidableEq

inductive FrameFormat
  | normal
  | extended
  deriving DecidableEq

inductive FrameCr
  | old
  | command
  | response
  deriving DecidableEq

/-- The type of a frame; `unknown` is the `0xff` that `patty_ax25_frame_decode_control` starts
from. -/
inductive FrameType
  | i | rr | rnr | rej | srej
  | sabm | sabme | disc | dm | ua | frmr | ui | xid | test
  | unknown
  deriving DecidableEq

/-- The control field values of `enum patty_ax25_frame_type`. -/
def FrameType.code : FrameType → Nat
  | i => 0x00
  | rr => 0x01
  | rnr => 0x05
  | rej => 0x09
  | srej => 0x0d
  | sabm => 0x2f
  | sabme => 0x6f
  | disc => 0x43
  | dm => 0x0f
  | ua => 0x63
  | frmr => 0x87
  | ui => 0x03
  | xid => 0xaf
  | test => 0xe3
  | unknown => 0xff

abbrev PATTY_AX25_FRAME_POLL : Nat := 1
abbrev PATTY_AX25_FRAME_FINAL : Nat := 1

abbrev PATTY_AX25_PROTO_UNKNOWN : UInt8 := 0x00
abbrev PATTY_AX25_PROTO_FRAGMENT : UInt8 := 0x08
abbrev PATTY_AX25_PROTO_NONE : UInt8 := 0xf0

/-- The values of `errno` that the code sets, tests or reports. -/
inductive Errno
  | zero
  | eio | enomem | ebadf | efault | einval | enodev | enotsup | eopnotsupp | eoverflow | eexist
  | eaddrinuse | eisconn | enetdown | econnrefused | etimedout | epipe
  deriving DecidableEq

/-- Behaviour that C leaves undefined. A run that faults has no continuation. -/
inductive Fault
  /-- A pointer to a socket that was destroyed is used. -/
  | useAfterFree
  /-- A null pointer is used. -/
  | nullPointer
  /-- A transmit slot is touched outside the array allocated for the slots: the type of the
  socket, the index of the slot, the size of a slot now, and the bytes allocated. -/
  | slot (type : SockType) (index size alloc : Nat)
  /-- Another buffer is overrun. -/
  | overrun
  deriving DecidableEq

/-! ## `size_t` arithmetic, which wraps at `2 ^ 64` -/

def sizeAdd (a b : Nat) : Nat := (a + b) % 2 ^ 64

def sizeMul (a b : Nat) : Nat := a * b % 2 ^ 64

def sizeSub (a b : Nat) : Nat := (a + (2 ^ 64 - b % 2 ^ 64)) % 2 ^ 64

/-! ## Timers -/

/-- `patty_timer`: the period, the time left, and whether it runs. -/
structure Timer where
  ms : Int
  sec : Int
  nsec : Int
  running : Bool
  deriving DecidableEq, Inhabited

/-- `struct timespec`. -/
structure Timespec where
  sec : Int
  nsec : Int
  deriving DecidableEq, Inhabited

namespace Timer

/-- The timer `memset` to zero. -/
def zero : Timer := ⟨0, 0, 0, false⟩

def init (t : Timer) (ms : Int) : Timer := { t with ms }

def expired (t : Timer) : Bool :=
  t.running && (t.sec < 0 || (t.sec == 0 && t.nsec ≤ 0))

def clear (t : Timer) : Timer := { t with sec := 0, nsec := 0, running := false }

def start (t : Timer) : Timer :=
  { t with sec := t.ms.tdiv 1000, nsec := t.ms.tmod 1000 * 1000000, running := true }

def stop (t : Timer) : Timer := { t with running := false }

/-- `patty_timer_sub`: `a - b`. -/
def sub (a b : Timespec) : Timespec :=
  let nsec := a.nsec - b.nsec
  { sec := a.sec - b.sec - nsec.tdiv 1000000000, nsec := nsec.tmod 1000000000 }

def tick (t : Timer) (elapsed : Timespec) : Timer :=
  if t.running then
    let res := sub ⟨t.sec, t.nsec⟩ elapsed
    { t with sec := res.sec, nsec := res.nsec }
  else t

end Timer

end Patty
