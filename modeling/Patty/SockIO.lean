import Patty.World

/-! # Sockets and their interface (`sock.c`)

The functions of `sock.c` that allocate, send or close. A function that changes the socket returns
what becomes of it; the server stores that under the pointer. -/

namespace Patty.M

open Prog

/-! ## Buffers -/

/-- `realloc` to `size` bytes: what both sizes share keeps its contents. -/
def reallocBuf (old : Option Buf) (size : Nat) (junk : Mem) : Buf where
  size := size
  mem a := match old with
    | some buf => if a < buf.size then buf.mem a else junk a
    | none => junk a

/-- `init_bufs`, and with it `patty_ax25_sock_realloc_bufs`: whether it succeeds, and the socket. -/
def initBufs (s : Sock) : M (Bool × Sock) := do
  if ← alloc then
    if ← alloc then
      if ← alloc then
        let m ← junk
        let s ← lift (Sock.clearSlots s.slots 0 { s with
          txBuf := some s.txBufsz, ioBuf := some s.ioBufsz
          txSlots := some (reallocBuf s.txSlots s.txSlotsSize m) })
        pure (true, s)
      else pure (false, { s with txBuf := none, ioBuf := none, txSlots := none })
    else pure (false, { s with txBuf := none, ioBuf := none })
  else pure (false, { s with txBuf := none })

/-- `patty_ax25_sock_assembler_init`: whether it succeeds, and the socket. -/
def assemblerInit (s : Sock) (total : Nat) : M (Bool × Sock) := do
  if total < 2 then
    setErrno .einval
    pure (false, s)
  else if s.assembler.all (·.total < total) then
    if ← alloc then
      let m ← junk
      pure (true, { s with assembler := some {
        total, remaining := total, offset := 0, data := ⟨total * s.nMaxlenRx, m⟩ } })
    else pure (false, { s with assembler := none })
  else pure (true, s)

/-- The number a client gives for the type of a socket. -/
def sockTypeOf : Nat → SockType
  | 0 => .stream
  | 1 => .dgram
  | 2 => .raw
  | n => .other n

/-- `patty_ax25_sock_new` -/
def sockNew (proto : Nat) (type : SockType) : M (Option Ptr) := do
  if ← alloc then
    match ← openpty with
    | none => pure none
    | some (fd, pty) =>
      let s := { Sock.zero with fd, pty }
      match type with
      | .dgram => some <$> newSock { s with proto, type := .dgram }
      | .raw =>
        -- `patty_kiss_tnc_new` allocates the decoder and its buffer
        if ← alloc then
          if ← alloc then
            let m ← junk
            some <$> newSock { s with
              raw := some (Tnc.new m), proto := PATTY_AX25_PROTO_NONE.toNat
              type := .raw, state := .established }
          else
            closeFd fd
            pure none
        else
          closeFd fd
          pure none
      | _ =>
        let s := if type = .stream then s.init else s
        let (ok, s) ← initBufs { s with
          proto, type
          version := .v2_0
          flagsClasses := PATTY_AX25_SOCK_DEFAULT_CLASSES
          flagsHdlc := PATTY_AX25_SOCK_DEFAULT_HDLC }
        if ok then some <$> newSock s else pure none
  else pure none

/-- The part of `patty_ax25_sock_destroy` that takes a promiscuous socket off its interface. -/
def leavePromisc (s : Sock) : M Unit :=
  if s.type = .raw ∧ s.state = .promisc then
    match s.iface with
    | none => fault .nullPointer
    | some i => setIface i (·.promiscDelete s.fd)
  else pure ()

/-- The part of `patty_ax25_sock_destroy` that closes the descriptor. -/
def closePty (s : Sock) : M Unit := if 0 < s.fd then closeFd s.fd else pure ()

/-- `patty_ax25_sock_destroy` -/
def sockDestroy (p : Ptr) : M Unit := do
  let s ← deref p
  leavePromisc s
  closePty s
  freeSock p

/-- `patty_ax25_sock_bind_if`. Its result is not used anywhere. -/
def sockBindIf (s : Sock) (i : Nat) : M Sock := do
  let iface ← getIface i
  let bound := { s with iface := some i, flagsClasses := s.flagsClasses ||| iface.flagsClasses }
  if s.state = .promisc then
    let _ ← ifPromiscAdd i s.fd
    pure bound
  else pure bound

/-! ## Sending -/

/-- `frame_send` -/
def frameSend (s : Sock) (cr : FrameCr) (control : Nat) (proto : UInt8) (info : Bytes) : M Int := do
  match ← lift (s.encodeFrame cr control proto info) with
  | .error none => pure (-1)
  | .error (some e) =>
    setErrno e
    pure (-1)
  | .ok frame =>
    match s.iface with
    | some i => ifSend i frame
    | none => pure (-1)

/-- The four `patty_ax25_sock_send_*` functions for supervisory frames. -/
def sendS (type : FrameType) (s : Sock) (cr : FrameCr) (pf : Nat) : M Int :=
  frameSend s cr (s.controlS type pf) 0 []

/-- `patty_ax25_sock_send_rr` -/
def sendRr (s : Sock) (cr : FrameCr) (pf : Nat) : M Int := sendS .rr s cr pf

/-- `patty_ax25_sock_send_rnr` -/
def sendRnr (s : Sock) (cr : FrameCr) (pf : Nat) : M Int := sendS .rnr s cr pf

/-- `patty_ax25_sock_send_rej` -/
def sendRej (s : Sock) (cr : FrameCr) (pf : Nat) : M Int := sendS .rej s cr pf

/-- `patty_ax25_sock_send_srej` -/
def sendSrej (s : Sock) (cr : FrameCr) : M Int := sendS .srej s cr 1

/-- `patty_ax25_sock_send_sabm` -/
def sendSabm (s : Sock) (pf : Nat) : M Int :=
  frameSend s .command (controlOfU (if s.mode = .sabme then .sabme else .sabm) pf) 0 []

/-- `patty_ax25_sock_send_disc` -/
def sendDisc (s : Sock) (pf : Nat) : M Int :=
  frameSend s .command (controlOfU .disc pf) 0 []

/-- The parameters that `patty_ax25_sock_send_xid` offers. -/
def xidParams (s : Sock) : Params where
  flags := 1 <<< PATTY_AX25_PARAM_CLASSES ||| 1 <<< PATTY_AX25_PARAM_HDLC |||
    1 <<< PATTY_AX25_PARAM_INFO_RX ||| 1 <<< PATTY_AX25_PARAM_WINDOW_RX |||
    1 <<< PATTY_AX25_PARAM_ACK ||| 1 <<< PATTY_AX25_PARAM_RETRY
  classes := s.flagsClasses
  hdlc := PATTY_AX25_SOCK_2_2_MAX_HDLC
  infoTx := 0
  infoRx := PATTY_AX25_SOCK_2_2_MAX_I_LEN <<< 3
  windowTx := 0
  windowRx := PATTY_AX25_SOCK_2_2_MAX_WINDOW
  ack := s.nAck
  retry := s.nRetry

/-- `patty_ax25_sock_send_xid` -/
def sendXid (s : Sock) (cr : FrameCr) : M Int := do
  if s.iface.isNone then
    setErrno .enetdown
    pure (-1)
  else
    match encodeXid (xidParams s) 256 with
    | none =>
      setErrno .eoverflow
      pure (-1)
    | some info => frameSend s cr (controlOfU .xid 0) 0 info

/-- `patty_ax25_sock_resend` -/
def sockResend (s : Sock) (seq : Nat) : M Int := do
  let (buf, off) ← lift (s.txSlot seq)
  if 0 < Sock.slotLen buf.mem off then
    frameSend s .command (s.controlI seq) (UInt8.ofNat s.proto) (Sock.slotData buf.mem off)
  else pure 0

/-- `patty_ax25_sock_resend_pending` -/
def sockResendPending (s : Sock) : M (Int × Sock) := do
  let (buf, off) ← lift (s.txSlot s.vs)
  if 0 < Sock.slotLen buf.mem off && !Sock.slotAck buf.mem off then
    let len ← sockResend s s.vs
    if len < 0 then pure (-1, s) else pure (len, { s with vs := s.txSeq (s.vs + 1) })
  else pure (0, s)

/-! ## Writing -/

/-- Whether `n` octets can be stored in `tx_buf`. -/
def txBufHolds (s : Sock) (n : Nat) : Except Fault Unit :=
  match s.txBuf with
  | none => .error .nullPointer
  | some size => if size < n then .error .overrun else .ok ()

/-- The loop of `write_segmented` for the segments from number `n - 1` down to 0: `i` octets of the
`len` in `buf` have been taken. A segment is put together in `tx_buf`, from which `frame_send` then
copies it behind the header it stores at the start of `tx_buf`. -/
def writeSegments (buf : Mem) (len seglen : Nat) : Nat → Nat → Bool → Sock → M (Int × Sock)
  | 0, _, _, s => pure (len, s)
  | segments + 1, i, first, s => do
    let control := match s.type with
      | .stream => s.controlI s.vs
      | _ => controlOfUI 0
    let copylen := if segments = 0 then len - len % seglen else seglen &&& 0xff
    let copylen := if first then sizeSub copylen 1 else copylen
    let header : Bytes :=
      if first then [UInt8.ofNat segments ||| 0x80, UInt8.ofNat s.proto]
      else [UInt8.ofNat segments]
    let s ← lift (s.txSlotSave (buf.read i copylen))
    let dest := header ++ buf.read i copylen
    lift (txBufHolds s dest.length)
    let front := s.frameHeader .command control PATTY_AX25_PROTO_FRAGMENT true
    let info := (front ++ dest.drop front.length).take dest.length
    let r ← frameSend s .command control PATTY_AX25_PROTO_FRAGMENT info
    if r < 0 then pure (-1, s)
    else
      writeSegments buf len seglen segments (i + copylen) false
        (if s.type = .stream then s.vsIncr else s)

/-- `write_segmented` -/
def writeSegmented (s : Sock) (buf : Mem) (len : Nat) : M (Int × Sock) := do
  if s.nMaxlenTx < 2 then
    setErrno .eoverflow
    pure (-1, s)
  else
    let seglen := s.nMaxlenTx - 1
    let segments := (len + 1) / seglen + if len % seglen ≠ 0 then 1 else 0
    if PATTY_AX25_SOCK_SEGMENTS_MAX < segments then
      setErrno .eoverflow
      pure (-1, s)
    else writeSegments buf len seglen segments 0 true s

/-- `patty_ax25_sock_write` of the first `len` octets of `buf`. -/
def sockWrite (s : Sock) (buf : Mem) (len : Nat) : M (Int × Sock) := do
  if s.mode = .dm then
    setErrno .ebadf
    pure (-1, s)
  else
    match s.type with
    | .stream =>
      if s.nMaxlenTx < len then writeSegmented s buf len
      else
        let s ← lift (s.txSlotSave (buf.read 0 len))
        let r ← frameSend s .command (s.controlI s.vs) (UInt8.ofNat s.proto) (buf.read 0 len)
        if r < 0 then pure (-1, s) else pure (len, s.vsIncr)
    | .dgram =>
      if s.nMaxlenTx < len then writeSegmented s buf len
      else
        let r ← frameSend s .command (controlOfUI 0) (UInt8.ofNat s.proto) (buf.read 0 len)
        pure (if r < 0 then -1 else len, s)
    | .raw =>
      match s.iface with
      | none => fault .nullPointer
      | some i => do
        let r ← ifSend i (buf.read 0 len)
        pure (r, s)
    | .other _ => pure (len, s)

end Patty.M
