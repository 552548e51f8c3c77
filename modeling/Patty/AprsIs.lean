import Patty.Frame

/-! # The APRS-IS decoder (`aprs_is.c`)

An APRS-IS server sends lines of text: comments, which start with a `#`, and packets, each a header with
the stations, a colon and a body. `patty_ax25_aprs_is_drain` makes an UI frame of each packet; its state
survives from one read to the next. `AprsIs.handleReads` is the loop of `handle_iface` over the reads. -/

namespace Patty

abbrev PATTY_AX25_APRS_IS_PAYLOAD_MAX : Nat := 256
abbrev PATTY_AX25_APRS_IS_PACKET_MAX : Nat := 512
abbrev PATTY_AX25_IF_DEFAULT_MRU : Nat := 4096

inductive AprsIsState
  | header
  | comment
  | body
  | complete
  deriving DecidableEq

/-- `struct _patty_ax25_aprs_is`, with the octets of the last read in `rxBuf`, and in `call` and `body`
those stored so far. -/
structure AprsIs where
  rxBuf : Bytes
  call : Bytes
  body : Bytes
  frame : Frame
  state : AprsIsState
  offsetI : Nat
  encoded : Nat

/-- A frame of which every field is zero. -/
def Frame.zero : Frame := { Frame.blank with type := .i }

namespace AprsIs

/-- `patty_ax25_aprs_is_new`, once it is connected. -/
def new : AprsIs where
  rxBuf := []
  call := []
  body := []
  frame := .zero
  state := .header
  offsetI := 0
  encoded := 0

/-- `patty_ax25_aprs_is_fill` when the read returns `bs`. -/
def fill (aprs : AprsIs) (bs : Bytes) : AprsIs := { aprs with rxBuf := bs, offsetI := 0 }

def pending (aprs : AprsIs) : Bool := aprs.state = .complete

/-- `patty_ax25_aprs_is_flush`: what is left of the read is given up. -/
def flush (aprs : AprsIs) : Nat × AprsIs :=
  (aprs.encoded, { aprs with
    state := .header, offsetI := aprs.rxBuf.length, call := [], body := [], encoded := 0
    frame := .zero })

/-- What an octet does to the decoder. -/
inductive Fed
  | more (aprs : AprsIs)
  | done (aprs : AprsIs)
  /-- The end of a packet, whose frame is yet to be encoded. -/
  | packet (aprs : AprsIs)
  | drop (aprs : AprsIs)

/-- A field of the header has ended: the address of `call` goes where `save` puts it. -/
def saveCall (aprs : AprsIs) (addr : Addr) (save : Addr → Frame) : Fed :=
  match pton aprs.call addr with
  | none => .drop aprs
  | some addr => .more { aprs with frame := save addr, call := [] }

/-- The destination has ended, or a hop; the state is then `state`. -/
def endField (aprs : AprsIs) (state : AprsIsState) : Fed :=
  if aprs.frame.dest.isSet then
    if aprs.frame.hops = PATTY_AX25_MAX_HOPS then .drop aprs
    else
      { aprs with state }.saveCall (aprs.frame.repeaters (Fin.ofNat _ aprs.frame.hops)) fun addr =>
        { aprs.frame with
          repeaters := fun i => if i.val = aprs.frame.hops then addr else aprs.frame.repeaters i
          hops := aprs.frame.hops + 1 }
  else { aprs with state }.saveCall aprs.frame.dest fun addr => { aprs.frame with dest := addr }

/-- The body of the loop of `patty_ax25_aprs_is_drain` for the octet `c`. -/
def drainByte (aprs : AprsIs) (c : UInt8) : Fed :=
  match aprs.state with
  | .header =>
    if c = 0x23 then .more { aprs with state := .comment }
    else if c = 0x3e then aprs.saveCall aprs.frame.src fun addr => { aprs.frame with src := addr }
    else if c = 0x2c || c = 0x3a then aprs.endField (if c = 0x3a then .body else .header)
    else if addrCharValid c then
      if aprs.call.length = PATTY_AX25_ADDRSTRLEN then .drop aprs
      else .more { aprs with call := aprs.call ++ [c] }
    else .drop aprs
  | .comment => if c = 0x0a then .done { aprs with state := .header } else .more aprs
  | .body =>
    if c = 0x0d then .more aprs
    else if c = 0x0a then
      .packet { aprs with
        state := .complete
        frame := { aprs.frame with
          control := FrameType.ui.code
          cr := .command
          proto := PATTY_AX25_PROTO_NONE
          info := some (.ofBytes aprs.body fun _ => 0)
          infolen := aprs.body.length } }
    else if aprs.body.length = PATTY_AX25_APRS_IS_PAYLOAD_MAX then .drop aprs
    else .more { aprs with body := aprs.body ++ [c] }
  | .complete => .done aprs

/-- The loop of `patty_ax25_aprs_is_drain` over the octets of the read that are left. -/
def drainLoop (len : Nat) : Bytes → AprsIs → Mem → Except Fault (Bool × AprsIs × Mem)
  | [], aprs, out => .ok (true, aprs, out)
  | c :: rest, aprs, out =>
    match drainByte { aprs with offsetI := aprs.offsetI + 1 } c with
    | .more aprs => drainLoop len rest aprs out
    | .done aprs => .ok (true, aprs, out)
    | .drop aprs => .ok (true, aprs.flush.2, out)
    | .packet aprs =>
      match aprs.frame.encode len with
      | .error e => .error e
      | .ok none => .ok (false, aprs, out)
      | .ok (some bs) => .ok (true, { aprs with encoded := bs.length }, out.store 0 bs)

/-- `patty_ax25_aprs_is_drain` into an output buffer of `len` octets: the number of octets consumed, or
-1. -/
def drain (aprs : AprsIs) (out : Mem) (len : Nat) : Except Fault (Int × AprsIs × Mem) :=
  match drainLoop len (aprs.rxBuf.drop aprs.offsetI) aprs out with
  | .error e => .error e
  | .ok (true, aprs', out) => .ok (aprs'.offsetI - aprs.offsetI, aprs', out)
  | .ok (false, aprs', out) => .ok (-1, aprs', out)

/-! ## The loop of `handle_iface` -/

/-- The loop of `handle_iface` after a read: whether it ends without an error, and the frames that it
hands to `handle_frame`, which is taken to succeed. A round that goes on has taken an octet of the read. -/
def ifaceLoop (len : Nat) : Nat → AprsIs → Mem → Except Fault (Bool × List Bytes × AprsIs × Mem)
  | 0, aprs, out => .ok (true, [], aprs, out)
  | fuel + 1, aprs, out =>
    match aprs.drain out len with
    | .error e => .error e
    | .ok (r, aprs, out) =>
      if r < 0 then .ok (false, [], aprs, out)
      else if !aprs.pending then .ok (true, [], aprs, out)
      else
        let (n, aprs) := aprs.flush
        match ifaceLoop len fuel aprs out with
        | .error e => .error e
        | .ok (ok, frames, aprs, out') => .ok (ok, out.read 0 n :: frames, aprs, out')

/-- `handle_iface` when the read returns `bs`; no octets mean that the other end is closed. -/
def handleIface (len : Nat) (aprs : AprsIs) (out : Mem) (bs : Bytes) :
    Except Fault (Bool × List Bytes × AprsIs × Mem) :=
  if bs.isEmpty then .ok (true, [], aprs.fill bs, out)
  else ifaceLoop len (PATTY_AX25_APRS_IS_PACKET_MAX + 1) (aprs.fill bs) out

/-- `handle_iface` for each read, as long as it succeeds. -/
def handleReads (len : Nat) : List Bytes → AprsIs → Mem → Except Fault (Bool × List Bytes × AprsIs × Mem)
  | [], aprs, out => .ok (true, [], aprs, out)
  | bs :: reads, aprs, out =>
    match handleIface len aprs out bs with
    | .error e => .error e
    | .ok (false, frames, aprs, out) => .ok (false, frames, aprs, out)
    | .ok (true, frames, aprs, out) =>
      match handleReads len reads aprs out with
      | .error e => .error e
      | .ok (ok, more, aprs, out) => .ok (ok, frames ++ more, aprs, out)

end AprsIs

end Patty
