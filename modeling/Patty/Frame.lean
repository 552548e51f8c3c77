import Patty.Ax25
import Patty.Basic

/-! # Frames (`frame.h`, `frame.c`)

Decoding of the address field, of the control field and of the XID information field, and the
encoders: `Frame.encode` for a frame, and those the server uses, `encodeReplyTo` for replies that need
no socket and `encodeXid`. A buffer is a memory and a length. The decoders look at the memory, so that
what they read beyond the length is whatever the receive buffer holds there. -/

namespace Patty

/-- `patty_ax25_frame`. The pointer `info` is the memory seen from where it points. -/
structure Frame where
  dest : Addr
  src : Addr
  repeaters : Fin PATTY_AX25_MAX_HOPS → Addr
  hops : Nat
  control : Nat
  nr : Nat
  ns : Nat
  pf : Nat
  cr : FrameCr
  type : FrameType
  format : FrameFormat
  version : Version
  proto : UInt8
  info : Option Mem
  infolen : Nat

/-- The frame on the stack before it is decoded; no field is read before it is set. -/
def Frame.blank : Frame where
  dest := .zero
  src := .zero
  repeaters := fun _ => .zero
  hops := 0
  control := 0
  nr := 0
  ns := 0
  pf := 0
  cr := .old
  type := .unknown
  format := .normal
  version := .old
  proto := 0
  info := none
  infolen := 0

/-- The information field: `infolen` bytes from `info`. -/
def Frame.infoBytes (f : Frame) : Bytes :=
  match f.info with
  | none => []
  | some m => m.read 0 f.infolen

/-- `PATTY_AX25_FRAME_CONTROL_I`. -/
def controlI (c : Nat) : Bool := c &&& 0x01 == 0x00

/-- `PATTY_AX25_FRAME_CONTROL_S`. -/
def controlS (c : Nat) : Bool := c &&& 0x03 == 0x01

/-- `PATTY_AX25_FRAME_CONTROL_U`. -/
def controlU (c : Nat) : Bool := c &&& 0x03 == 0x03

/-- `PATTY_AX25_FRAME_CONTROL_UI`. -/
def controlUI (c : Nat) : Bool := c &&& 0xef == 0x03

abbrev PATTY_AX25_FRAME_OVERHEAD : Nat := 73
abbrev PATTY_AX25_FRAME_S_MASK : Nat := 0x0f
abbrev PATTY_AX25_FRAME_U_MASK : Nat := 0xef

/-! ## The address field -/

/-- The loop of `decode_station` over the callsign; `space` is set once a space was seen. -/
def decodeCallsign : Bytes → Bool → Bool
  | [], _ => true
  | b :: bs, space =>
    let c := b >>> 1
    if !addrCharValid c || addrOctetLast b then false
    else if c == 0x20 && !space then decodeCallsign bs true
    else if c != 0x20 && space then false
    else decodeCallsign bs space

def decodeStation (data : Mem) (offset len : Nat) : Option Addr :=
  if len < offset + 7 then none
  else if decodeCallsign (data.read offset PATTY_AX25_CALLSTRLEN) false then
    some (Addr.ofMem data offset)
  else none

/-- The loop of `decode_hops` with `n` rounds left. Running out of rounds means that the last
address had no extension bit. -/
def decodeHops (data : Mem) (len : Nat) : Nat → Frame → Nat → Option (Frame × Nat)
  | 0, _, _ => none
  | n + 1, frame, offset =>
    match decodeStation data offset len with
    | none => none
    | some addr =>
      let frame := { frame with
        repeaters := fun i => if i.val = frame.hops then addr else frame.repeaters i
        hops := frame.hops + 1 }
      if addrOctetLast addr.ssid then some (frame, offset + 7)
      else decodeHops data len n frame (offset + 7)

/-- `patty_ax25_frame_decode_address`: the frame and the offset after the address field. -/
def decodeAddress (frame : Frame) (buf : Mem) (len : Nat) : Option (Frame × Nat) :=
  match decodeStation buf 0 len with
  | none => none
  | some dest =>
    match decodeStation buf 7 len with
    | none => none
    | some src =>
      let frame := { frame with dest, src, hops := 0 }
      let frame :=
        if addrSsidC dest.ssid != addrSsidC src.ssid then
          { frame with
            cr := if addrSsidC dest.ssid then .command else .response
            version := .v2_0 }
        else { frame with cr := .old, version := .old }
      if addrOctetLast src.ssid then some (frame, 14)
      else decodeHops buf len PATTY_AX25_MAX_HOPS frame 14

/-! ## The control field -/

def decodeNr (control : Nat) : FrameFormat → Nat
  | .normal => (control &&& 0x00e0) >>> 5
  | .extended => (control &&& 0x7e00) >>> 9

def decodeNs (control : Nat) : FrameFormat → Nat
  | .normal => (control &&& 0x000e) >>> 1
  | .extended => (control &&& 0x007e) >>> 1

def decodePf (control : Nat) : FrameFormat → Nat
  | .normal => (control &&& 0x0010) >>> 4
  | .extended => (control &&& 0x0100) >>> 8

/-- The type an S frame's masked control field names. -/
def frameTypeS (c : Nat) : FrameType :=
  if c = FrameType.rr.code then .rr
  else if c = FrameType.rnr.code then .rnr
  else if c = FrameType.rej.code then .rej
  else if c = FrameType.srej.code then .srej
  else .unknown

/-- The type a U frame's masked control field names. -/
def frameTypeU (c : Nat) : FrameType :=
  if c = FrameType.sabme.code then .sabme
  else if c = FrameType.sabm.code then .sabm
  else if c = FrameType.disc.code then .disc
  else if c = FrameType.dm.code then .dm
  else if c = FrameType.ua.code then .ua
  else if c = FrameType.frmr.code then .frmr
  else if c = FrameType.ui.code then .ui
  else if c = FrameType.xid.code then .xid
  else if c = FrameType.test.code then .test
  else .unknown

/-- The control field at `offset`, and the offset after it. -/
def readControl (format : FrameFormat) (buf : Mem) (offset : Nat) : Nat × Nat :=
  let control := (buf offset).toNat
  match format with
  | .normal => (control, offset + 1)
  | .extended =>
    if controlU control then (control, offset + 1)
    else (control ||| (buf (offset + 1)).toNat <<< 8, offset + 2)

/-- `patty_ax25_frame_decode_control`: the frame and the offset after what it decoded, which for a
frame with information is `len`. -/
def decodeControl (frame : Frame) (format : FrameFormat) (buf : Mem) (offset len : Nat) :
    Option (Frame × Nat) :=
  let (control, offset) := readControl format buf offset
  let frame := { frame with
    control, format
    nr := 0, ns := 0, pf := 0, type := .unknown
    proto := PATTY_AX25_PROTO_UNKNOWN, info := none, infolen := 0 }
  let classed : Option Frame :=
    if controlI control then
      some { frame with
        type := .i
        nr := decodeNr control format
        ns := decodeNs control format
        pf := decodePf control format }
    else if controlS control then
      match frameTypeS (control &&& PATTY_AX25_FRAME_S_MASK) with
      | .unknown => some frame
      | type => some { frame with
          type, nr := decodeNr control format, pf := decodePf control format }
    else if controlU control then
      match frameTypeU (control &&& PATTY_AX25_FRAME_U_MASK) with
      | .unknown => some frame
      | type => some { frame with type, pf := decodePf control .normal }
    else none
  match classed with
  | none => none
  | some frame =>
    match frame.type with
    | .i | .ui =>
      some ({ frame with
        proto := buf offset
        info := some fun i => buf (offset + 1 + i)
        infolen := sizeSub len (offset + 1) }, len)
    | .test =>
      some ({ frame with
        info := some fun i => buf (offset + i)
        infolen := sizeSub len offset }, len)
    | _ => some (frame, offset)

/-! ## The XID information field -/

/-- `patty_ax25_params`. -/
structure Params where
  flags : Nat
  classes : Nat
  hdlc : Nat
  infoTx : Nat
  infoRx : Nat
  windowTx : Nat
  windowRx : Nat
  ack : Nat
  retry : Nat
  deriving DecidableEq, Inhabited

namespace Params

def zero : Params := ⟨0, 0, 0, 0, 0, 0, 0, 0, 0⟩

end Params

abbrev PATTY_AX25_PARAM_CLASSES : Nat := 2
abbrev PATTY_AX25_PARAM_HDLC : Nat := 3
abbrev PATTY_AX25_PARAM_INFO_TX : Nat := 5
abbrev PATTY_AX25_PARAM_INFO_RX : Nat := 6
abbrev PATTY_AX25_PARAM_WINDOW_TX : Nat := 7
abbrev PATTY_AX25_PARAM_WINDOW_RX : Nat := 8
abbrev PATTY_AX25_PARAM_ACK : Nat := 9
abbrev PATTY_AX25_PARAM_RETRY : Nat := 10

/-- `save_xid_param`. -/
def saveXidParam (params : Params) (type value : Nat) : Params :=
  let save (p : Params) : Params := { p with flags := p.flags ||| 1 <<< type }
  if type = PATTY_AX25_PARAM_CLASSES then save { params with classes := value }
  else if type = PATTY_AX25_PARAM_HDLC then save { params with hdlc := value }
  else if type = PATTY_AX25_PARAM_INFO_TX then save { params with infoTx := value }
  else if type = PATTY_AX25_PARAM_INFO_RX then save { params with infoRx := value }
  else if type = PATTY_AX25_PARAM_WINDOW_TX then save { params with windowTx := value }
  else if type = PATTY_AX25_PARAM_WINDOW_RX then save { params with windowRx := value }
  else if type = PATTY_AX25_PARAM_ACK then save { params with ack := value }
  else if type = PATTY_AX25_PARAM_RETRY then save { params with retry := value }
  else params

/-- `b << shift` of a byte in 32 bits. A count from 32 on, which C leaves undefined, is taken
modulo 32 as the processors pattyd runs on take it. -/
def shl32 (b : UInt8) (shift : Nat) : Nat := b.toNat <<< (shift % 32) % 2 ^ 32

/-- The value of a parameter: its `n` bytes at `off`, most significant first. -/
def xidValue (data : Mem) (off n : Nat) : Nat :=
  (List.range n).foldl (fun value i => value ||| shl32 (data (off + (n - 1 - i))) (i <<< 3)) 0

/-- The loop of `decode_xid_group` over the parameters up to `stop`; a round consumes at least two
bytes, so that `stop` rounds are enough. -/
def decodeXidParams (data : Mem) (stop : Nat) : Nat → Params → Nat → Params × Nat
  | 0, params, offset => (params, offset)
  | fuel + 1, params, offset =>
    if offset < stop then
      let id := (data offset).toNat
      let n := (data (offset + 1)).toNat
      let value := xidValue data (offset + 2) n
      decodeXidParams data stop fuel (saveXidParam params id value) (offset + 2 + n)
    else (params, offset)

abbrev PATTY_AX25_FRAME_XID_GROUP_ISO8885 : UInt8 := 0x82
abbrev PATTY_AX25_FRAME_XID_GROUP_PARAMS : UInt8 := 0x80

def decodeXidGroup (params : Params) (data : Mem) (offset len : Nat) : Option (Params × Nat) :=
  if len - offset < 4 then none
  else
    let grouplen := (data (offset + 2)).toNat * 256 + (data (offset + 3)).toNat
    let stop := offset + 4 + grouplen
    if data offset != PATTY_AX25_FRAME_XID_GROUP_ISO8885
      || data (offset + 1) != PATTY_AX25_FRAME_XID_GROUP_PARAMS then some (params, stop)
    else
      let (params, offset) := decodeXidParams data stop stop .zero (offset + 4)
      if offset ≠ stop then none else some (params, offset)

/-- The loop of `patty_ax25_frame_decode_xid`; a group is at least four bytes, so that `len` rounds
are enough. -/
def decodeXidGroups (data : Mem) (len : Nat) : Nat → Params → Nat → Option (Params × Nat)
  | 0, params, offset => some (params, offset)
  | fuel + 1, params, offset =>
    if offset < len then
      match decodeXidGroup params data offset len with
      | none => none
      | some (params, offset) => decodeXidGroups data len fuel params offset
    else some (params, offset)

/-- `patty_ax25_frame_decode_xid`. It starts from the `params` that the caller passes, which
`handle_xid` does not initialise. -/
def decodeXid (params : Params) (data : Mem) (offset len : Nat) : Option Params :=
  match decodeXidGroups data len len params offset with
  | none => none
  | some (params, offset) => if offset ≠ len then none else some params

def needbytes (value : Nat) : Nat :=
  if value &&& 0xffffff00 = 0 then 1
  else if value &&& 0xffff0000 = 0 then 2
  else if value &&& 0xff000000 = 0 then 3
  else 4

/-- The bytes `encode_xid_param` stores for one parameter. -/
def encodeXidParam (type bytes value : Nat) : Bytes :=
  UInt8.ofNat type :: UInt8.ofNat bytes ::
    (List.range bytes).map fun i => UInt8.ofNat (value >>> ((bytes - 1 - i) <<< 3))

/-- The table of `patty_ax25_frame_encode_xid`: the type of each parameter, its number of bytes,
and its value, which is kept in 32 bits. -/
def xidValues (params : Params) : List (Nat × Nat × Nat) :=
  let infoRx := params.infoRx % 2 ^ 32
  let ack := params.ack % 2 ^ 32
  let retry := params.retry % 2 ^ 32
  [(PATTY_AX25_PARAM_CLASSES, 2, params.classes),
   (PATTY_AX25_PARAM_HDLC, 3, params.hdlc),
   (PATTY_AX25_PARAM_INFO_RX, needbytes infoRx, infoRx),
   (PATTY_AX25_PARAM_WINDOW_RX, 1, params.windowRx % 2 ^ 32),
   (PATTY_AX25_PARAM_ACK, needbytes ack, ack),
   (PATTY_AX25_PARAM_RETRY, needbytes retry, retry)]

/-- `patty_ax25_frame_encode_xid` into a buffer of `len` bytes, which has room for the header of
the group. -/
def encodeXid (params : Params) (len : Nat) : Option Bytes :=
  let flagged := (xidValues params).filter fun v => params.flags &&& 1 <<< v.1 != 0
  let body := flagged.flatMap fun v => encodeXidParam v.1 v.2.1 v.2.2
  if len < 4 + body.length then none
  else some (PATTY_AX25_FRAME_XID_GROUP_ISO8885 :: PATTY_AX25_FRAME_XID_GROUP_PARAMS ::
    UInt8.ofNat (body.length / 256) :: UInt8.ofNat body.length :: body)

/-! ## Encoding a frame -/

/-- The address field of a frame: `encode_address` without `reply`. -/
def encodeAddress (frame : Frame) : Bytes :=
  let flagsRemote : UInt8 := match frame.cr with | .command => 0x80 | _ => 0x00
  let flagsLocal : UInt8 := match frame.cr with | .response => 0x80 | _ => 0x00
  let field := addrCopy frame.dest flagsRemote ++ addrCopy frame.src flagsLocal ++
    (List.finRange PATTY_AX25_MAX_HOPS).flatMap fun i =>
      if i.val < frame.hops then addrCopy (frame.repeaters i) 0 else []
  field.modify (field.length - 1) (· ||| 1)

/-- The octets of a control field. -/
def encodeControl (format : FrameFormat) (control : Nat) : Bytes :=
  match format with
  | .normal => [UInt8.ofNat control]
  | .extended => UInt8.ofNat (control &&& 0x00ff) ::
      if controlU control then [] else [UInt8.ofNat ((control &&& 0xff00) >>> 8)]

/-- `patty_ax25_frame_encode` into a buffer of `len` bytes. The control field is not checked to fit
before it is stored after the address field. -/
def Frame.encode (frame : Frame) (len : Nat) : Except Fault (Option Bytes) :=
  if len < (2 + frame.hops) * 7 then .ok none
  else
    let buf := encodeAddress frame ++ encodeControl frame.format frame.control
    if len < buf.length then .error .overrun
    else if frame.info.isSome && frame.infolen != 0 then
      if len < sizeAdd (1 + buf.length) frame.infolen then .ok none
      else
        let buf := if controlI frame.control || controlUI frame.control then buf ++ [frame.proto]
          else buf
        if len < buf.length + frame.infolen then .error .overrun
        else .ok (some (buf ++ frame.infoBytes))
    else .ok (some buf)

/-! ## Replies -/

/-- The address field of a reply to `frame`: the stations swapped and the repeaters reversed. -/
def encodeAddressReply (frame : Frame) : Bytes :=
  let flagsRemote : UInt8 := match frame.cr with | .command => 0x80 | _ => 0x00
  let flagsLocal : UInt8 := match frame.cr with | .response => 0x80 | _ => 0x00
  let field := addrCopy frame.src flagsLocal ++ addrCopy frame.dest flagsRemote ++
    (List.finRange PATTY_AX25_MAX_HOPS).flatMap fun i =>
      if i.val < frame.hops then
        addrCopy (frame.repeaters (Fin.ofNat _ (frame.hops - 1 - i.val))) 0
      else []
  field.modify (field.length - 1) (· ||| 1)

/-- `patty_ax25_frame_encode_reply_to` for the replies of the server, which all have a U control
field: into a buffer of `len` bytes. Its address field is not checked to fit before the control
field is stored after it. -/
def encodeReplyTo (frame : Frame) (control : Nat) (proto : UInt8) (info : Bytes) (len : Nat) :
    Except Fault (Option Bytes) :=
  if len < (2 + frame.hops) * 7 + 1 then .error .overrun
  else
    let buf := encodeAddressReply frame ++ [UInt8.ofNat control]
    if controlI control || controlUI control then
      if len < 1 + buf.length + info.length then .ok none
      else .ok (some (buf ++ proto :: info))
    else .ok (some buf)

end Patty
