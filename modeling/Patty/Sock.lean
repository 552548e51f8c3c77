import Patty.Frame
import Patty.Tnc

/-! # Sockets (`sock.h`, `sock.c`)

The state of a socket and the functions of `sock.c` that need nothing but the socket: sequence
variables, transmit slots, parameters, control fields and the encoding of frames. The transmit
slots are an array in memory, laid out by the mode and `n_maxlen_tx` the socket has when they are
used, while its size is the one last requested by `init_bufs`; a slot outside it is a fault. -/

namespace Patty

/-- Allocated memory: its size in bytes and its contents. -/
structure Buf where
  size : Nat
  mem : Mem

/-- `patty_ax25_sock_assembler`, with the data that follows it. -/
structure Assembler where
  total : Nat
  remaining : Nat
  offset : Nat
  data : Buf

/-- `patty_ax25_sock`. The pointer `iface` is the number of the interface. Of `tx_buf` and `io_buf`
only the size matters. -/
structure Sock where
  proto : Nat
  type : SockType
  version : Version
  state : SockState
  mode : SockMode
  flow : SockFlow
  iface : Option Nat
  localAddr : Addr
  remote : Addr
  repeaters : Fin PATTY_AX25_MAX_HOPS → Addr
  hops : Nat
  raw : Option Tnc
  fd : Nat
  pty : Bytes
  txBuf : Option Nat
  ioBuf : Option Nat
  txSlots : Option Buf
  assembler : Option Assembler
  flagsClasses : Nat
  flagsHdlc : Nat
  nMaxlenTx : Nat
  nMaxlenRx : Nat
  nWindowTx : Nat
  nWindowRx : Nat
  nAck : Nat
  nRetry : Nat
  timerT1 : Timer
  timerT2 : Timer
  timerT3 : Timer
  vs : Nat
  vr : Nat
  va : Nat
  retries : Nat
  rxPending : Nat

abbrev PATTY_AX25_SOCK_DEFAULT_DELAY : Int := 3000
abbrev PATTY_AX25_SOCK_DEFAULT_KEEPALIVE : Int := 1000 * 30
abbrev PATTY_AX25_PARAM_CLASSES_ABM : Nat := 1 <<< 0 <<< 8
abbrev PATTY_AX25_PARAM_CLASSES_HALF_DUPLEX : Nat := 1 <<< 5 <<< 8
abbrev PATTY_AX25_PARAM_CLASSES_FULL_DUPLEX : Nat := 1 <<< 6 <<< 8
abbrev PATTY_AX25_PARAM_HDLC_REJ : Nat := 1 <<< 1 <<< 16
abbrev PATTY_AX25_PARAM_HDLC_SREJ : Nat := 1 <<< 2 <<< 16
abbrev PATTY_AX25_PARAM_HDLC_XADDR : Nat := 1 <<< 7 <<< 16
abbrev PATTY_AX25_PARAM_HDLC_MODULO_8 : Nat := 1 <<< 10
abbrev PATTY_AX25_PARAM_HDLC_MODULO_128 : Nat := 1 <<< 11
abbrev PATTY_AX25_PARAM_HDLC_TEST : Nat := 1 <<< 13
abbrev PATTY_AX25_PARAM_HDLC_FCS_16 : Nat := 1 <<< 15
abbrev PATTY_AX25_PARAM_HDLC_SYNC_TX : Nat := 1 <<< 17 >>> 16
abbrev PATTY_AX25_PARAM_HDLC_SREJ_MULTI : Nat := 1 <<< 21 >>> 16

abbrev PATTY_AX25_SOCK_DEFAULT_CLASSES : Nat := PATTY_AX25_PARAM_CLASSES_ABM

abbrev PATTY_AX25_SOCK_DEFAULT_HDLC : Nat :=
  PATTY_AX25_PARAM_HDLC_REJ ||| PATTY_AX25_PARAM_HDLC_XADDR ||| PATTY_AX25_PARAM_HDLC_MODULO_8 |||
  PATTY_AX25_PARAM_HDLC_TEST ||| PATTY_AX25_PARAM_HDLC_SYNC_TX

abbrev PATTY_AX25_SOCK_DEFAULT_I_LEN : Nat := 127
abbrev PATTY_AX25_SOCK_DEFAULT_WINDOW : Nat := 4
abbrev PATTY_AX25_SOCK_DEFAULT_RETRY : Nat := 10
abbrev PATTY_AX25_SOCK_DEFAULT_ACK : Nat := 3000

abbrev PATTY_AX25_SOCK_2_2_DEFAULT_HDLC : Nat :=
  PATTY_AX25_PARAM_HDLC_REJ ||| PATTY_AX25_PARAM_HDLC_SREJ ||| PATTY_AX25_PARAM_HDLC_XADDR |||
  PATTY_AX25_PARAM_HDLC_MODULO_128 ||| PATTY_AX25_PARAM_HDLC_TEST |||
  PATTY_AX25_PARAM_HDLC_FCS_16 ||| PATTY_AX25_PARAM_HDLC_SYNC_TX

abbrev PATTY_AX25_SOCK_2_2_DEFAULT_I_LEN : Nat := 255
abbrev PATTY_AX25_SOCK_2_2_DEFAULT_WINDOW : Nat := 32

abbrev PATTY_AX25_SOCK_2_2_MAX_HDLC : Nat :=
  PATTY_AX25_SOCK_2_2_DEFAULT_HDLC ||| PATTY_AX25_PARAM_HDLC_SREJ_MULTI

abbrev PATTY_AX25_SOCK_2_2_MAX_I_LEN : Nat := 1536
abbrev PATTY_AX25_SOCK_2_2_MAX_WINDOW : Nat := 127
abbrev PATTY_AX25_SOCK_SEGMENTS_MAX : Nat := 128

namespace Sock

/-- The socket `memset` to zero by `patty_ax25_sock_new`. -/
def zero : Sock where
  proto := 0
  type := .stream
  version := .old
  state := .closed
  mode := .dm
  flow := .wait
  iface := none
  localAddr := .zero
  remote := .zero
  repeaters := fun _ => .zero
  hops := 0
  raw := none
  fd := 0
  pty := []
  txBuf := none
  ioBuf := none
  txSlots := none
  assembler := none
  flagsClasses := 0
  flagsHdlc := 0
  nMaxlenTx := 0
  nMaxlenRx := 0
  nWindowTx := 0
  nWindowRx := 0
  nAck := 0
  nRetry := 0
  timerT1 := .zero
  timerT2 := .zero
  timerT3 := .zero
  vs := 0
  vr := 0
  va := 0
  retries := 0
  rxPending := 0

/-! ## Transmit slots -/

def txBufsz (s : Sock) : Nat := sizeAdd PATTY_AX25_FRAME_OVERHEAD s.nMaxlenTx

def ioBufsz (s : Sock) : Nat := sizeAdd PATTY_AX25_FRAME_OVERHEAD s.nMaxlenTx

/-- `tx_slots`: how many slots the mode asks for. -/
def slots (s : Sock) : Nat := if s.mode = .sabme then 128 else 8

/-- `tx_slot_size`: `struct slot` is a `size_t` and an `int`, which padding makes 16 bytes. -/
def txSlotSize (s : Sock) : Nat := sizeAdd 16 s.nMaxlenTx

def txSlotsSize (s : Sock) : Nat := sizeMul s.slots s.txSlotSize

def txSeq (s : Sock) (seq : Nat) : Nat := seq % s.slots

/-- `tx_slot`: the array, and the offset in it of the slot for `seq`. -/
def txSlot (s : Sock) (seq : Nat) : Except Fault (Buf × Nat) :=
  match s.txSlots with
  | none => .error .nullPointer
  | some buf =>
    let i := s.txSeq seq
    if (i + 1) * s.txSlotSize ≤ buf.size ∧ i * s.txSlotSize + 16 ≤ buf.size then
      .ok (buf, i * s.txSlotSize)
    else .error (.slot s.type i s.txSlotSize buf.size)

/-- `slot->len` -/
def slotLen (m : Mem) (off : Nat) : Nat := leValue (m.read off 8)

/-- `slot->ack` -/
def slotAck (m : Mem) (off : Nat) : Bool := leValue (m.read (off + 8) 4) != 0

/-- The payload after the slot. -/
def slotData (m : Mem) (off : Nat) : Bytes := m.read (off + 16) (slotLen m off)

/-- `slot->len = len; slot->ack = 0` -/
def slotClear (m : Mem) (off len : Nat) : Mem :=
  (m.store off (leBytes 8 len)).store (off + 8) (leBytes 4 0)

/-- `slot->ack = 1` -/
def slotMark (m : Mem) (off : Nat) : Mem := m.store (off + 8) (leBytes 4 1)

/-- Replace the contents of the slot array. -/
def setSlots (s : Sock) (buf : Buf) (m : Mem) : Sock :=
  { s with txSlots := some { buf with mem := m } }

/-- `tx_slot_save` -/
def txSlotSave (s : Sock) (bs : Bytes) : Except Fault Sock := do
  let (buf, off) ← s.txSlot s.vs
  if buf.size < off + 16 + bs.length then .error .overrun
  else .ok (s.setSlots buf ((slotClear buf.mem off bs.length).store (off + 16) bs))

/-- The loop of `init_bufs` and of `patty_ax25_sock_reset` over the slots from `i` on. -/
def clearSlots : Nat → Nat → Sock → Except Fault Sock
  | 0, _, s => .ok s
  | n + 1, i, s => do
    let (buf, off) ← s.txSlot i
    clearSlots n (i + 1) (s.setSlots buf (slotClear buf.mem off 0))

/-! ## Initialisation and parameters -/

/-- `patty_ax25_sock_init` -/
def init (s : Sock) : Sock :=
  { s with
    state := .closed
    mode := .dm
    flow := .wait
    nMaxlenTx := PATTY_AX25_SOCK_DEFAULT_I_LEN
    nMaxlenRx := PATTY_AX25_SOCK_DEFAULT_I_LEN
    nWindowTx := PATTY_AX25_SOCK_DEFAULT_WINDOW
    nWindowRx := PATTY_AX25_SOCK_DEFAULT_WINDOW
    nAck := PATTY_AX25_SOCK_DEFAULT_ACK
    nRetry := PATTY_AX25_SOCK_DEFAULT_RETRY
    retries := PATTY_AX25_SOCK_DEFAULT_RETRY
    rxPending := 0
    timerT1 := s.timerT1.init PATTY_AX25_SOCK_DEFAULT_ACK
    timerT2 := s.timerT2.init PATTY_AX25_SOCK_DEFAULT_DELAY
    timerT3 := s.timerT3.init PATTY_AX25_SOCK_DEFAULT_KEEPALIVE }

/-- `patty_ax25_sock_reset` -/
def reset (s : Sock) : Except Fault Sock := do
  let s := { s with
    flow := .ready, vs := 0, vr := 0, va := 0, retries := s.nRetry, rxPending := 0 }
  let s ← clearSlots s.slots 0 s
  return { s with
    timerT1 := s.timerT1.start, timerT2 := s.timerT2.clear, timerT3 := s.timerT3.clear }

/-- `patty_ax25_sock_params_upgrade` -/
def paramsUpgrade (s : Sock) : Sock :=
  if s.version = .v2_2 then s
  else { s with
    version := .v2_2
    flagsHdlc := PATTY_AX25_SOCK_2_2_DEFAULT_HDLC
    nMaxlenTx := PATTY_AX25_SOCK_2_2_DEFAULT_I_LEN
    nMaxlenRx := PATTY_AX25_SOCK_2_2_DEFAULT_I_LEN
    nWindowTx := PATTY_AX25_SOCK_2_2_DEFAULT_WINDOW
    nWindowRx := PATTY_AX25_SOCK_2_2_DEFAULT_WINDOW }

/-- `patty_ax25_sock_params_max` -/
def paramsMax (s : Sock) : Sock :=
  { s with
    version := .v2_2
    flagsHdlc := PATTY_AX25_SOCK_2_2_MAX_HDLC
    nMaxlenTx := PATTY_AX25_SOCK_2_2_MAX_I_LEN
    nMaxlenRx := PATTY_AX25_SOCK_2_2_MAX_I_LEN
    nWindowTx := PATTY_AX25_SOCK_2_2_MAX_WINDOW
    nWindowRx := PATTY_AX25_SOCK_2_2_MAX_WINDOW }

/-- `x & ~bit` in 32 bits. -/
def clearBit32 (x bit : Nat) : Nat := x &&& (0xffffffff ^^^ bit)

/-- The part of `patty_ax25_sock_params_negotiate` that looks at the classes of procedures. -/
def negotiateClasses (params : Params) : Option Errno :=
  if params.flags &&& PATTY_AX25_PARAM_CLASSES ≠ 0 then
    if params.classes &&& PATTY_AX25_PARAM_CLASSES_ABM = 0 then some .enotsup
    else if params.classes &&& PATTY_AX25_PARAM_CLASSES_HALF_DUPLEX = 0 then some .enotsup
    else if params.classes &&& PATTY_AX25_PARAM_CLASSES_FULL_DUPLEX ≠ 0 then some .enotsup
    else none
  else none

/-- The part of `patty_ax25_sock_params_negotiate` that looks at the HDLC functions. -/
def negotiateHdlc (s : Sock) (params : Params) : Option Errno × Sock × Params :=
  if params.flags &&& PATTY_AX25_PARAM_HDLC ≠ 0 then
    let s := if params.hdlc &&& PATTY_AX25_PARAM_HDLC_REJ = 0 then
      { s with flagsHdlc := clearBit32 s.flagsHdlc PATTY_AX25_PARAM_HDLC_REJ } else s
    let s := if params.hdlc &&& PATTY_AX25_PARAM_HDLC_SREJ = 0 then
      { s with flagsHdlc := clearBit32 s.flagsHdlc PATTY_AX25_PARAM_HDLC_SREJ } else s
    if params.hdlc &&& PATTY_AX25_PARAM_HDLC_XADDR = 0 then (some .einval, s, params)
    else if params.hdlc &&& PATTY_AX25_PARAM_HDLC_MODULO_128 = 0 then (some .einval, s, params)
    else
      -- with modulo 128 offered beside modulo 8, the latter is struck out
      let params := if params.hdlc &&& PATTY_AX25_PARAM_HDLC_MODULO_8 = 0 then params
        else { params with hdlc := clearBit32 params.hdlc PATTY_AX25_PARAM_HDLC_MODULO_8 |||
          PATTY_AX25_PARAM_HDLC_MODULO_128 }
      let params := if params.hdlc &&& PATTY_AX25_PARAM_HDLC_TEST = 0 then
        { params with hdlc := clearBit32 params.hdlc PATTY_AX25_PARAM_HDLC_TEST } else params
      if params.hdlc &&& PATTY_AX25_PARAM_HDLC_SYNC_TX = 0 then (some .einval, s, params)
      else (none, s, params)
  else (none, s, params)

/-- The part of `patty_ax25_sock_params_negotiate` that takes over the numbers. -/
def negotiateValues (s : Sock) (params : Params) : Sock :=
  let s := if params.flags &&& PATTY_AX25_PARAM_INFO_RX ≠ 0 ∧ params.infoRx >>> 3 < s.nMaxlenTx then
    { s with nMaxlenTx := params.infoRx >>> 3 } else s
  let s := if params.flags &&& PATTY_AX25_PARAM_WINDOW_RX ≠ 0 ∧ params.windowRx < s.nWindowTx then
    { s with nWindowTx := params.windowRx } else s
  let s := if params.flags &&& PATTY_AX25_PARAM_ACK ≠ 0 ∧ s.nAck < params.ack then
    { s with nAck := params.ack, timerT1 := s.timerT1.init params.ack } else s
  if params.flags &&& PATTY_AX25_PARAM_RETRY ≠ 0 ∧ s.nRetry < params.retry then
    { s with nRetry := params.retry } else s

/-- `patty_ax25_sock_params_negotiate`: the error if it returns -1, and what becomes of the socket
and of the parameters. The tests of `params.flags` use the parameter types as the source does, not
the bits `1 << type` that `save_xid_param` sets. -/
def paramsNegotiate (s : Sock) (params : Params) : Option Errno × Sock × Params :=
  match negotiateClasses params with
  | some e => (some e, s, params)
  | none =>
    match s.negotiateHdlc params with
    | (some e, s, params) => (some e, s, params)
    | (none, s, params) => (none, s.negotiateValues params, params)

/-! ## Sequence variables -/

def vsIncr (s : Sock) : Sock :=
  { s with vs := if s.mode = .sabm then (s.vs + 1) &&& 0x07 else (s.vs + 1) &&& 0x7f }

def vrIncr (s : Sock) : Sock :=
  { s with vr := if s.mode = .sabm then (s.vr + 1) &&& 0x07 else (s.vr + 1) &&& 0x7f }

/-! ## Reassembly -/

/-- `patty_ax25_sock_assembler_pending` -/
def assemblerPending (s : Sock) (remaining : Nat) : Bool :=
  match s.assembler with
  | none => false
  | some a => a.total != 0 && remaining + 1 == a.remaining

/-- `patty_ax25_sock_assembler_stop` -/
def assemblerStop (s : Sock) : Sock :=
  { s with assembler := s.assembler.map fun a => { a with remaining := 0, total := 0 } }

/-- `patty_ax25_sock_assembler_save`: the socket, or the error it returns -1 with. -/
def assemblerSave (s : Sock) (bs : Bytes) : Except Fault (Except Errno Sock) :=
  if sizeSub s.nMaxlenRx 1 < bs.length then .ok (.error .eoverflow)
  else
    match s.assembler with
    | none => .error .nullPointer
    | some a =>
      if a.remaining = 0 then .ok (.error .eio)
      else if a.data.size < a.offset + bs.length then .error .overrun
      else .ok (.ok { s with assembler := some { a with
        data := { a.data with mem := a.data.mem.store a.offset bs }
        offset := a.offset + bs.length
        remaining := a.remaining - 1 } })

/-- `patty_ax25_sock_assembler_read`: what follows the first octet. -/
def assemblerRead (s : Sock) : Option Bytes :=
  s.assembler.map fun a => a.data.mem.read 1 (a.offset - 1)

/-! ## Flow control and acknowledgement -/

/-- `patty_ax25_sock_flow_left` -/
def flowLeft (s : Sock) : Int :=
  if s.nWindowTx = 1 then 1 else (s.vs : Int) - s.txSeq (s.va + s.nWindowTx)

/-- The loop of `patty_ax25_sock_ack` over the `n` sequence numbers from `i` on. -/
def ackLoop : Nat → Nat → Nat → Sock → Except Fault (Nat × Sock)
  | 0, _, ret, s => .ok (ret, s)
  | n + 1, i, ret, s => do
    let (buf, off) ← s.txSlot i
    if 0 < slotLen buf.mem off && !slotAck buf.mem off then
      ackLoop n (i + 1) (ret + 1)
        { s.setSlots buf (slotMark buf.mem off) with va := s.txSeq (i + 1) }
    else ackLoop n (i + 1) ret s

/-- `patty_ax25_sock_ack` -/
def ack (s : Sock) (nr : Nat) : Except Fault (Nat × Sock) :=
  if s.va = nr then .ok (1, s)
  else
    let max := if nr < s.va then nr + (if s.mode = .sabme then 128 else 8) else nr
    ackLoop (max - s.va) s.va 0 s

/-- The loop of `patty_ax25_sock_ack_pending` over the slots from `i` on. -/
def ackPendingLoop (s : Sock) : Nat → Nat → Nat → Except Fault Nat
  | 0, _, ret => .ok ret
  | n + 1, i, ret => do
    let (buf, off) ← s.txSlot i
    ackPendingLoop s n (i + 1)
      (if 0 < slotLen buf.mem off && !slotAck buf.mem off then ret + 1 else ret)

/-- `patty_ax25_sock_ack_pending` -/
def ackPending (s : Sock) : Except Fault Nat := s.ackPendingLoop s.slots 0 0

/-- `sock->retries--` -/
def retriesDecr (s : Sock) : Sock := { s with retries := sizeSub s.retries 1 }

/-! ## Control fields and frames -/

def controlI (s : Sock) (ns : Nat) : Nat :=
  let flag := if s.flowLeft = 1 then 1 else 0
  match s.mode with
  | .sabm => (s.vr &&& 0x07) <<< 5 ||| (ns &&& 0x07) <<< 1 ||| flag <<< 4
  | .sabme => (s.vr &&& 0x7f) <<< 9 ||| (ns &&& 0x7f) <<< 1 ||| flag <<< 8
  | .dm => 0

def controlS (s : Sock) (type : FrameType) (flag : Nat) : Nat :=
  match s.mode with
  | .sabm => (s.vr &&& 0x07) <<< 5 ||| (type.code &&& 0x0f) ||| flag <<< 4
  | .sabme => (s.vr &&& 0x7f) <<< 9 ||| (type.code &&& 0x0f) ||| flag <<< 8
  | .dm => 0

end Sock

/-- `control_ui` -/
def controlOfUI (flag : Nat) : Nat := FrameType.ui.code ||| flag <<< 4

/-- `control_u` -/
def controlOfU (type : FrameType) (pf : Nat) : Nat :=
  (type.code &&& PATTY_AX25_FRAME_U_MASK) ||| pf <<< 4

namespace Sock

def toobig (s : Sock) (infolen : Nat) : Bool :=
  sizeAdd PATTY_AX25_FRAME_OVERHEAD s.nMaxlenTx < infolen

/-- The octets that `encode_address` stores: the remote station, the local one, and the repeaters,
with the extension bit on the last octet. -/
def addressField (s : Sock) (cr : FrameCr) : Bytes :=
  let flagsRemote : UInt8 := match cr with | .command => 0x80 | _ => 0x00
  let flagsLocal : UInt8 := match cr with | .response => 0x80 | _ => 0x00
  let field := addrCopy s.remote flagsRemote ++ addrCopy s.localAddr flagsLocal ++
    (List.finRange PATTY_AX25_MAX_HOPS).flatMap fun i =>
      if i.val < s.hops then addrCopy (s.repeaters i) 0 else []
  field.modify (field.length - 1) (· ||| 1)

/-- The octets that `frame_send` stores before the information field. -/
def frameHeader (s : Sock) (cr : FrameCr) (control : Nat) (proto : UInt8) (info : Bool) : Bytes :=
  s.addressField cr ++ UInt8.ofNat (control &&& 0x00ff) ::
    ((if s.mode = .sabme && !controlU control then [UInt8.ofNat ((control &&& 0xff00) >>> 8)]
      else []) ++
     if info && Patty.controlI control then [proto] else [])

/-- What `frame_send` does before the interface sends: the octets of the frame, or the error it
returns -1 with, where `none` means that it leaves `errno` alone. -/
def encodeFrame (s : Sock) (cr : FrameCr) (control : Nat) (proto : UInt8) (info : Bytes) :
    Except Fault (Except (Option Errno) Bytes) :=
  if s.iface.isNone then .ok (.error (some .enetdown))
  else if !s.remote.isSet then .ok (.error (some .ebadf))
  else if s.toobig info.length then .ok (.error none)
  else if s.txBufsz < (2 + s.hops) * 7 then .ok (.error (some .eoverflow))
  else
    match s.txBuf with
    | none => .error .nullPointer
    | some size =>
      let frame := s.frameHeader cr control proto (!info.isEmpty) ++ info
      if size < frame.length then .error .overrun else .ok (.ok frame)

end Sock

/-- The octets of a frame that is passed to the interface. -/
theorem encodeFrame_ok {s : Sock} {cr : FrameCr} {control : Nat} {proto : UInt8} {info frame : Bytes}
    (h : s.encodeFrame cr control proto info = .ok (.ok frame)) :
    frame = s.frameHeader cr control proto (!info.isEmpty) ++ info := by
  unfold Sock.encodeFrame at h
  split at h
  · cases h
  split at h
  · cases h
  split at h
  · cases h
  split at h
  · cases h
  split at h
  · cases h
  dsimp only at h
  split at h
  · cases h
  · cases h
    rfl

end Patty
