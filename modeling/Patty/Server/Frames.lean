import Patty.Server.Clients

/-! # Received frames (`server.c`)

`handleFrame` decodes a frame, finds its socket, and runs the handler of its type. A handler returns
a negative number when it fails. -/

namespace Patty

/-- What `frame_ack` does with T1 once `acked` frames are acknowledged. -/
def Sock.ackTimer (s : Sock) (acked : Nat) : Except Fault Sock :=
  if 0 < acked then do
    let s := { s with timerT1 := s.timerT1.stop }
    let pending ← s.ackPending
    return if 0 < pending then { s with retries := s.nRetry, timerT1 := s.timerT1.start } else s
  else pure s

/-- What `frame_ack` does with V(S): an S frame with P/F set takes it back to N(R). -/
def Sock.ackFinal (s : Sock) (frame : Frame) : Sock :=
  if Patty.controlS frame.control ∧ frame.pf ≠ 0 then
    let max := if s.vs < s.va then s.vs + (if s.mode = .sabme then 128 else 8) else s.vs
    if s.va ≤ frame.nr ∧ frame.nr ≤ max then { s with vs := frame.nr, retries := s.nRetry } else s
  else s

/-- `frame_ack` -/
def Sock.frameAck (s : Sock) (frame : Frame) : Except Fault Sock := do
  let (acked, s) ← { s with rxPending := 0, timerT3 := s.timerT3.start }.ack frame.nr
  let s ← s.ackTimer acked
  return s.ackFinal frame

/-- `save_reply_addr`. Its count of repeaters is the socket's own unless the frame has too many. -/
def Sock.saveReplyAddr (s : Sock) (frame : Frame) : Sock :=
  let hops := if PATTY_AX25_MAX_HOPS < frame.hops then PATTY_AX25_MAX_HOPS else s.hops
  { s with
    remote := frame.src
    localAddr := frame.dest
    repeaters := fun i =>
      if i.val < hops then frame.repeaters (Fin.ofNat _ (hops - 1 - i.val)) else s.repeaters i
    hops }

/-- The octet of the information field at `i`. -/
def Frame.infoAt (frame : Frame) (i : Nat) : UInt8 :=
  match frame.info with
  | none => 0
  | some m => m i

/-- The parameters on the stack of `handle_xid` before they are decoded. -/
def Params.ofMem (m : Mem) : Params :=
  ⟨leValue (m.read 0 4), leValue (m.read 4 4), leValue (m.read 8 4), leValue (m.read 16 8),
    leValue (m.read 24 8), leValue (m.read 32 8), leValue (m.read 40 8), leValue (m.read 48 8),
    leValue (m.read 56 8)⟩

namespace M

open Prog

/-! ## Replies -/

/-- `reply_to` -/
def replyTo (i : Nat) (frame : Frame) (control : Nat) (info : Bytes) : M Int := do
  let iface ← getIface i
  match ← lift (encodeReplyTo frame control PATTY_AX25_PROTO_NONE info iface.mtu) with
  | none => pure (-1)
  | some bs =>
    setIface i fun iface => { iface with txBuf := iface.txBuf.store 0 bs }
    ifSend i bs

def replyDm (i : Nat) (frame : Frame) (flag : Nat) : M Int :=
  replyTo i frame (FrameType.dm.code ||| flag <<< 4) []

def replyUa (i : Nat) (frame : Frame) (flag : Nat) : M Int :=
  replyTo i frame (FrameType.ua.code ||| flag <<< 4) []

/-- `reply_test`, which replies with the control field of UA. -/
def replyTest (i : Nat) (frame : Frame) : M Int :=
  replyTo i frame (FrameType.ua.code ||| PATTY_AX25_FRAME_FINAL <<< 4) frame.infoBytes

/-! ## U frames -/

def handleFrmr (sock : Option Ptr) : M Int :=
  match sock with
  | none => pure 0
  | some p => do
    let s ← deref p
    match s.state with
    | .pendingConnect =>
      let s := { s with retries := s.nRetry, timerT1 := s.timerT1.start }
      store p s
      sendSabm s PATTY_AX25_FRAME_POLL
    | .established =>
      store p (← lift s.reset)
      pure 0
    | _ => pure 0

/-- `handle_sabm` once the socket `r` for the pair of addresses is known to be waiting for the
SABM or SABME; `created` says that it is not in the tables yet. -/
def sabmAccept (i : Nat) (frame : Frame) (listener : Sock) (client : Nat) (r : Ptr)
    (created : Bool) : M Int := do
  let remote := { (← deref r) with state := .established }
  let remote :=
    if frame.type = .sabme then { remote.paramsUpgrade with mode := .sabme }
    else { remote with mode := .sabm }
  let (ok, remote) ← initBufs remote
  store r remote
  if ok then
    let remote ← sockBindIf remote i
    store r remote
    if ← (if created then sockSave client r else pure true) then
      fdWatch remote.fd
      if ← notifyAccept listener.fd remote.fd remote.remote remote.pty then
        store r { remote with timerT3 := remote.timerT3.start }
        replyUa i frame PATTY_AX25_FRAME_FINAL
      else
        sockDestroy r
        pure (-1)
    else
      sockDestroy r
      pure (-1)
  else
    sockDestroy r
    pure (-1)

def handleSabm (i : Nat) (frame : Frame) : M Int := do
  match ← sockByAddr frame.dest with
  | none => replyDm i frame PATTY_AX25_FRAME_FINAL
  | some l =>
    let listener ← deref l
    if listener.type ≠ .stream ∨ listener.state ≠ .listening then
      replyDm i frame PATTY_AX25_FRAME_FINAL
    else
      match ← clientBySock listener with
      | none => pure (-1)
      | some client =>
        match ← sockByAddrpair frame.dest frame.src with
        | none =>
          match ← sockNew listener.proto listener.type with
          | none => pure (-1)
          | some r =>
            let remote ← deref r
            store r (Sock.saveReplyAddr { remote with state := .pendingAccept } frame)
            sabmAccept i frame listener client r true
        | some r =>
          let remote ← deref r
          match remote.state with
          | .pendingAccept => sabmAccept i frame listener client r false
          | .established =>
            store r (← lift remote.reset)
            if frame.pf = 1 then replyUa i frame 1 else pure 0
          | _ => replyDm i frame PATTY_AX25_FRAME_FINAL

def handleTest (i : Nat) (frame : Frame) : M Int := do
  if !(← getIface i).addrMatch frame.dest then pure 0 else replyTest i frame

/-- What `handle_ua` does for a socket that waits for its connection. -/
def uaConnect (p : Ptr) (s : Sock) : M Int := do
  let (ok, s) ← initBufs s
  store p s
  if ok then
    let s := { s with
      timerT1 := s.timerT1.stop, timerT3 := s.timerT3.start, state := .established }
    store p s
    match ← clientBySock s with
    | none => pure (-1)
    | some client =>
      if ← sockSave client p then
        fdWatch s.fd
        respondConnect client 0 .zero
      else pure (-1)
  else pure (-1)

def handleUa (i : Nat) (sock : Option Ptr) (frame : Frame) : M Int := do
  if !(← getIface i).addrMatch frame.dest then pure 0
  else
    match sock with
    | none => replyDm i frame PATTY_AX25_FRAME_FINAL
    | some p =>
      let s ← deref p
      match s.state with
      | .pendingConnect => uaConnect p s
      | .pendingDisconnect => sockClose p
      | .established => pure 0
      | _ => replyDm i frame PATTY_AX25_FRAME_FINAL

def handleDm (sock : Option Ptr) : M Int :=
  match sock with
  | none => pure 0
  | some p => do
    let s ← deref p
    match s.state with
    | .pendingConnect =>
      match ← clientBySock s with
      | none => pure (-1)
      | some client =>
        store p (← lift s.reset)
        respondConnect client (-1) .econnrefused
    | .pendingDisconnect =>
      store p { s with timerT1 := s.timerT1.stop }
      sockClose p
    | _ => pure 0

def handleDisc (i : Nat) (sock : Option Ptr) (frame : Frame) : M Int :=
  match sock with
  | none => replyDm i frame PATTY_AX25_FRAME_FINAL
  | some p => do
    let s ← deref p
    match s.state with
    | .established =>
      let _ ← sockClose p
      replyUa i frame PATTY_AX25_FRAME_FINAL
    | .pendingDisconnect => pure 0
    | _ => replyDm i frame PATTY_AX25_FRAME_FINAL

/-! ## Information -/

/-- `handle_segment` once the segment is known to fit: it is added to what was received before, and
the last one delivers the whole. -/
def segmentSave (p : Ptr) (s : Sock) (frame : Frame) (remaining : Nat) : M Int := do
  if !s.assemblerPending remaining then
    store p s.assemblerStop
    sendSrej s.assemblerStop .response
  else
    match ← lift (s.assemblerSave (frame.infoBytes.drop 1)) with
    | .error e =>
      setErrno e
      pure (-1)
    | .ok s =>
      store p s
      if remaining ≠ 0 then pure 0
      else
        match s.assemblerRead with
        | none => pure (-1)
        | some bs =>
          if ← writePty (.ptyWrite s.fd bs) then
            store p s.assemblerStop
            pure 0
          else pure (-1)

def handleSegment (p : Ptr) (frame : Frame) : M Int := do
  let s ← deref p
  let first := frame.infoAt 0 &&& 0x80 != 0
  let remaining := (frame.infoAt 0 &&& 0x7f).toNat
  if frame.infolen < 2 then sendSrej s .response
  else if first then
    if remaining = 0 then sendSrej s .response
    else
      let (ok, s) ← assemblerInit s (remaining + 1)
      store p s
      if ok then segmentSave p s frame remaining else pure (-1)
  else if 0 < remaining ∧ frame.infolen ≠ s.nMaxlenRx then sendSrej s .response
  else if remaining = 0 ∧ s.nMaxlenRx < frame.infolen then sendSrej s .response
  else segmentSave p s frame remaining

/-- The end of `handle_i`: the answer to an I frame that was delivered. -/
def iAnswer (p : Ptr) (frame : Frame) : M Int := do
  let s ← deref p
  if frame.pf ≠ 0 then
    let s := { s with rxPending := 0, timerT2 := s.timerT2.stop }
    store p s
    sendRr s .response 1
  else if s.rxPending + 1 = s.nWindowRx / 2 then
    store p { s with rxPending := 0, timerT2 := s.timerT2.stop }
    pure 0
  else
    store p { s with
      rxPending := s.rxPending + 1, timerT2 := s.timerT2.start, timerT3 := s.timerT3.start }
    pure 0

/-- `handle_i` once it has decided to deliver the information. -/
def iDeliver (p : Ptr) (frame : Frame) : M Int := do
  if frame.proto = PATTY_AX25_PROTO_FRAGMENT then
    if (← handleSegment p frame) < 0 then pure (-1) else iAnswer p frame
  else
    let s ← deref p
    if ← writePty (.ptyWrite s.fd frame.infoBytes) then iAnswer p frame else pure (-1)

/-- `handle_i` for the socket `p`, once the frame has been acknowledged. -/
def iReceive (p : Ptr) (frame : Frame) : M Int := do
  let s ← deref p
  if frame.ns = s.vr then
    store p s.vrIncr
    iDeliver p frame
  else if frame.ns = s.vr + 1 then sendSrej s .response
  else if s.vr + 1 < frame.ns then sendRej s .response 1
  -- a number below V(R) goes on to the delivery
  else iDeliver p frame

def handleI (i : Nat) (sock : Option Ptr) (frame : Frame) : M Int :=
  match sock with
  | none => if frame.pf ≠ 0 then replyDm i frame PATTY_AX25_FRAME_FINAL else pure 0
  | some p => do
    let s ← deref p
    if s.state ≠ .established then
      if frame.pf ≠ 0 then replyDm i frame PATTY_AX25_FRAME_FINAL else pure 0
    else
      store p (← lift (s.frameAck frame))
      iReceive p frame

def handleUi (sock : Option Ptr) (frame : Frame) : M Int :=
  match sock with
  | none => pure 0
  | some p => do
    let s ← deref p
    if s.type ≠ .dgram then pure 0
    else if frame.proto = PATTY_AX25_PROTO_FRAGMENT then handleSegment p frame
    else if ← writePty (.ptyWrite s.fd frame.infoBytes) then pure frame.infolen
    else pure (-1)

/-! ## S frames -/

/-- The common part of `handle_rr`, `handle_rnr` and `handle_rej`, which differ in what a response
does to the flow. -/
def handleS (flow : Ptr → M Unit) (sock : Option Ptr) (frame : Frame) : M Int :=
  match sock with
  | none => pure 0
  | some p => do
    let s ← lift ((← deref p).frameAck frame)
    store p s
    match frame.cr with
    | .command => if frame.pf ≠ 0 then sendRr s .response 1 else pure 0
    | .response =>
      flow p
      pure 0
    | .old => pure 0

def handleRr : Option Ptr → Frame → M Int := handleS sockFlowStart

def handleRnr : Option Ptr → Frame → M Int := handleS sockFlowStop

def handleRej : Option Ptr → Frame → M Int := handleS sockFlowStart

def handleSrej (sock : Option Ptr) (frame : Frame) : M Int :=
  match sock with
  | none => pure 0
  | some p => do
    let s ← lift ((← deref p).frameAck frame)
    store p s
    if (← sockResend s frame.nr) < 0 then pure (-1) else pure 0

/-! ## XID -/

/-- `handle_xid` for the response to the XID that opened a connection. -/
def xidResponse (p : Ptr) (remote : Sock) (params : Params) : M Int :=
  match remote.paramsNegotiate params with
  | (some e, remote, _) => do
    setErrno e
    store p remote
    match ← clientBySock remote with
    | none => pure (-1)
    | some client =>
      let remote := remote.init
      store p remote
      store p (← lift remote.reset)
      respondConnect client (-1) (← get).errno
  | (none, remote, params) => do
    let remote :=
      if params.hdlc &&& PATTY_AX25_PARAM_HDLC_MODULO_128 ≠ 0 then { remote with mode := .sabme }
      else remote
    let ret ← sendSabm remote PATTY_AX25_FRAME_POLL
    store p { remote with timerT1 := remote.timerT1.start, retries := remote.nRetry }
    pure ret

/-- `handle_xid` for an XID command to the listening socket. -/
def xidListen (i : Nat) (frame : Frame) (listener : Sock) (params : Params) : M Int := do
  match ← clientBySock listener with
  | none => pure (-1)
  | some client =>
    match ← sockNew listener.proto listener.type with
    | none => pure (-1)
    | some r =>
      let remote := { (← deref r) with state := .pendingAccept }
      let remote :=
        if params.hdlc &&& PATTY_AX25_PARAM_HDLC_MODULO_128 ≠ 0 then { remote with mode := .sabme }
        else remote
      let remote ← sockBindIf remote i
      match remote.paramsMax.paramsNegotiate params with
      | (some e, remote, _) =>
        setErrno e
        store r remote
        sockDestroy r
        pure (-1)
      | (none, remote, _) =>
        let remote := remote.saveReplyAddr frame
        store r remote
        if ← sockSave client r then
          let ret ← sendXid remote .response
          store r { remote with timerT1 := remote.timerT1.start, retries := remote.nRetry }
          pure ret
        else
          sockDestroy r
          pure (-1)

def handleXid (i : Nat) (frame : Frame) (buf : Mem) (offset len : Nat) : M Int := do
  if !(← getIface i).addrMatch frame.dest then pure 0
  else
    match decodeXid (.ofMem (← junk)) buf offset len with
    | none =>
      setErrno .eio
      pure (-1)
    | some params =>
      setErrno .zero
      match ← sockByAddrpair frame.dest frame.src with
      | some p =>
        let remote ← deref p
        if remote.state ≠ .pendingConnect then replyDm i frame PATTY_AX25_FRAME_FINAL
        else xidResponse p remote params
      | none =>
        match ← sockByAddr frame.dest with
        | none => replyDm i frame PATTY_AX25_FRAME_FINAL
        | some l =>
          let listener ← deref l
          if listener.state ≠ .listening then replyDm i frame PATTY_AX25_FRAME_FINAL
          else xidListen i frame listener params

/-! ## Any frame -/

/-- The handler of the type of a decoded frame; `buf`, `offset` and `len` are for XID, whose
information is decoded by its handler. -/
def handleType (i : Nat) (sock : Option Ptr) (frame : Frame) (buf : Mem) (offset len : Nat) :
    M Int :=
  match frame.type with
  | .i => handleI i sock frame
  | .ui => handleUi sock frame
  | .rr => handleRr sock frame
  | .rnr => handleRnr sock frame
  | .rej => handleRej sock frame
  | .srej => handleSrej sock frame
  | .xid => handleXid i frame buf offset len
  | .sabm | .sabme => handleSabm i frame
  | .test => handleTest i frame
  | .ua => handleUa i sock frame
  | .dm => handleDm sock
  | .disc => handleDisc i sock frame
  | .frmr => handleFrmr sock
  | .unknown => pure 0

/-- The format of the control field in the frames for a socket. -/
def formatOf (sock : Option Ptr) : M FrameFormat :=
  match sock with
  | none => pure .normal
  | some p => do pure (if (← deref p).mode = .sabme then .extended else .normal)

/-- `handle_frame` for the `len` octets at `buf` that were received on the interface `i`. -/
def handleFrame (i : Nat) (buf : Mem) (len : Nat) : M Int := do
  match decodeAddress .blank buf len with
  | none =>
    ifDrop i
    pure 0
  | some (frame, offset) =>
    let sock ← sockByAddrpair frame.dest frame.src
    match decodeControl frame (← formatOf sock) buf offset len with
    | none =>
      ifDrop i
      pure 0
    | some (frame, offset) =>
      setErrno .zero
      handleType i sock frame buf offset len

end M

end Patty
