import Patty.Server.Frames

/-! # The turn of a socket (`server.c`)

`handleSock` runs for every socket each time round the loop of the server: the timers of a STREAM
socket tick and their expiry is handled, and data that its client has written to the pty is read and
sent. -/

namespace Patty.M

open Prog

/-- `FD_ISSET` of a descriptor in the set that `select` returned: it was watched, and is ready. -/
def fdIsset (fd : Nat) (ready : Bool) : M Bool := gets fun w => ready && w.fdsWatch fd

/-- `read` of at most `n_maxlen_tx` bytes from the pty into `io_buf`, where `inp` is what the pty
has; no bytes mean that the other end is closed. -/
def readPty (s : Sock) (inp : Except Errno Bytes) : M (Except Errno Bytes) :=
  match inp with
  | .error e => do
    setErrno e
    pure (.error e)
  | .ok bs =>
    if (bs.take s.nMaxlenTx).isEmpty then pure (.ok [])
    else
      match s.ioBuf with
      | none => do
        setErrno .efault
        pure (.error .efault)
      | some size =>
        if size < (bs.take s.nMaxlenTx).length then fault .overrun
        else pure (.ok (bs.take s.nMaxlenTx))

/-- `patty_ax25_sock_write` of bytes in `io_buf`. -/
def sockWriteBytes (s : Sock) (bs : Bytes) : M (Int × Sock) :=
  sockWrite s (.ofBytes bs fun _ => 0) bs.length

def handleSockDgram (p : Ptr) (ready : Bool) (inp : Except Errno Bytes) : M Int := do
  let s ← deref p
  if !(← fdIsset s.fd ready) then pure 0
  else
    match ← readPty s inp with
    | .error .eio | .ok [] =>
      let _ ← sockClose p
      pure 0
    | .error _ => pure (-1)
    | .ok bs =>
      let (r, s) ← sockWriteBytes s bs
      store p s
      if r < 0 then
        let _ ← sockClose p
        pure 0
      else pure 0

/-- The loop of `handle_sock_raw`. A round that goes on has taken a byte of the decoder's buffer, so
that one round more than it has bytes is enough. -/
def sendRaw (p : Ptr) (i : Nat) : Nat → M Int
  | 0 => pure 0
  | fuel + 1 => do
    let s ← deref p
    match s.raw with
    | none => pure 0
    | some tnc =>
      let iface ← getIface i
      let (r, tnc, out) ← lift (tnc.drain iface.txBuf iface.mtu)
      setIface i fun iface => { iface with txBuf := out }
      store p { s with raw := some tnc }
      if r < 0 then pure (-1)
      else if !tnc.pending then pure 0
      else
        let (len, tnc) := tnc.flush
        store p { s with raw := some tnc }
        if (← ifSend i (out.read 0 len)) < 0 then pure (-1) else sendRaw p i fuel

def handleSockRaw (p : Ptr) (ready : Bool) (inp : Except Errno Bytes) : M Int := do
  let s ← deref p
  if !(← fdIsset s.fd ready) then pure 0
  else
    match s.raw, s.iface with
    | some tnc, some i =>
      match inp with
      | .error e =>
        setErrno e
        pure (-1)
      | .ok [] =>
        let _ ← sockClose p
        pure 0
      | .ok bs =>
        store p { s with raw := some (tnc.fill (bs.take PATTY_KISS_TNC_BUFSZ)) }
        sendRaw p i (PATTY_KISS_TNC_BUFSZ + 1)
    | _, _ => pure 0

/-- `handle_sock` reading new data from the pty and sending it. -/
def sockRead (p : Ptr) (inp : Except Errno Bytes) : M Int := do
  let s ← deref p
  match ← readPty s inp with
  | .error .eio | .ok [] =>
    let _ ← sockShutdown p
    pure 0
  | .error _ => pure (-1)
  | .ok bs =>
    let (r, s) ← sockWriteBytes s bs
    store p s
    if r < 0 then
      let _ ← sockClose p
      pure 0
    else
      store p { s with timerT1 := s.timerT1.start, timerT3 := s.timerT3.stop }
      pure 0

/-- The flow control of `handle_sock` before it sends. -/
def flowCheck (p : Ptr) (s : Sock) : M Unit := do
  store p { s with flow := .ready }
  if s.flowLeft = 1 then sockFlowStop p else pure ()

/-- `handle_sock` after its timers: a frame that waits to be sent again is sent, or new data. -/
def sockSend (p : Ptr) (ready : Bool) (inp : Except Errno Bytes) : M Int := do
  let s ← deref p
  if !(← fdIsset s.fd ready) then pure 0
  else
    flowCheck p s
    let (len, s) ← sockResendPending (← deref p)
    store p s
    if len < 0 then pure (-1)
    else if 0 < len then
      store p { s with timerT1 := s.timerT1.start }
      pure 0
    else sockRead p inp

/-- The ticks of the three timers of a socket. -/
def tickTimers (s : Sock) (elapsed : Timespec) : Sock :=
  { s with
    timerT1 := s.timerT1.tick elapsed, timerT2 := s.timerT2.tick elapsed
    timerT3 := s.timerT3.tick elapsed }

/-- A socket that tries again: one try less, and T1 runs. -/
def retry (s : Sock) : Sock := { s.retriesDecr with timerT1 := s.timerT1.start }

def handleSockPendingAccept (p : Ptr) (s : Sock) : M Int := do
  if s.timerT1.expired then
    if s.retries ≠ 0 then
      store p (retry s)
      sendXid (retry s) .response
    else
      store p s.retriesDecr
      let _ ← sockClose p
      pure 0
  else pure 0

def handleSockPendingConnect (p : Ptr) (s : Sock) : M Int := do
  if s.timerT1.expired then
    if s.retries ≠ 0 then
      store p (retry s)
      sendSabm (retry s) PATTY_AX25_FRAME_POLL
    else
      store p s.retriesDecr
      match ← clientBySock s with
      | none => pure (-1)
      | some client =>
        let _ ← sockShutdown p
        let _ ← sockClose p
        respondConnect client (-1) .etimedout
  else pure 0

/-- Expiry of T1 on an established connection. What it returns is the result of `||`. -/
def handleSockT1 (p : Ptr) (s : Sock) : M Int := do
  if s.retries ≠ 0 then
    let (len, s) ← sockResendPending (retry s)
    store p s
    if len ≠ 0 then pure 1
    else pure (if (← sendRr s .command 1) ≠ 0 then 1 else 0)
  else
    store p s.retriesDecr
    let _ ← sockShutdown p
    sockClose p

def handleSockEstablished (p : Ptr) (s : Sock) (ready : Bool) (inp : Except Errno Bytes) :
    M Int := do
  if s.timerT1.expired then handleSockT1 p s
  else
    let t2 := s.timerT2.expired
    let s := if t2 then { s with timerT2 := s.timerT2.stop } else s
    if t2 ∧ s.rxPending ≠ 0 then
      let s := { s with rxPending := 0 }
      store p s
      sendRr s .response 1
    else if s.timerT3.expired then
      let s := { s with
        retries := s.nRetry, timerT3 := s.timerT3.stop, timerT1 := s.timerT1.start }
      store p s
      sendRr s .command 1
    else
      store p s
      sockSend p ready inp

def handleSockPendingDisconnect (p : Ptr) (s : Sock) (ready : Bool) (inp : Except Errno Bytes) :
    M Int := do
  if s.timerT1.expired then
    if s.retries ≠ 0 then
      store p (retry s)
      sendDisc (retry s) PATTY_AX25_FRAME_POLL
    else
      store p s.retriesDecr
      sockClose p
  -- the case has no `break`: with T1 not expired the socket goes on sending
  else sockSend p ready inp

/-- `handle_sock` -/
def handleSock (p : Ptr) (elapsed : Timespec) (ready : Bool) (inp : Except Errno Bytes) :
    M Int := do
  let s ← deref p
  match s.type with
  | .dgram => handleSockDgram p ready inp
  | .raw => handleSockRaw p ready inp
  | _ =>
    let s := tickTimers s elapsed
    store p s
    match s.state with
    | .pendingAccept => handleSockPendingAccept p s
    | .pendingConnect => handleSockPendingConnect p s
    | .established => handleSockEstablished p s ready inp
    | .pendingDisconnect => handleSockPendingDisconnect p s ready inp
    | _ => sockSend p ready inp

end Patty.M
