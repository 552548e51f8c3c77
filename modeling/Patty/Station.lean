import Patty.Kiss.RoundTrip
import Patty.Server.Run

/-! # The server with its KISS interfaces (`server.c`, `if.c`)

`handle_iface` reads what the driver of an interface has, takes the frames out of it one by one and hands each to
`handle_frame`; before that, `patty_ax25_if_flush` counts it and copies it to the RAW sockets that listen. A run takes
such reads and the other events of the server in any order. It keeps a history of what was read on each interface and
of the frames that came out. -/

namespace Patty

/-- The receive side of an interface: its driver and its receive buffer. -/
structure Port where
  tnc : Tnc
  rxBuf : Mem

namespace M

open Prog

/-- `patty_ax25_if_flush` once the driver has given up the frame. -/
def ifFlush (i : Nat) (frame : Bytes) : M Int := do
  if frame.isEmpty then pure 0
  else
    let iface ← getIface i
    setIface i fun iface => { iface with
      stats := { iface.stats with
        rxFrames := iface.stats.rxFrames + 1, rxBytes := iface.stats.rxBytes + frame.length } }
    if (← forEach iface.promiscFds.keys (handlePromiscFrame frame)) < 0 then pure (-1)
    else pure frame.length

/-- The loop of `handle_iface`: what it returns, and the frames that it has handed to `handle_frame`. A round that
goes on has taken an octet of the read. -/
def ifaceLoop (i : Nat) : Nat → Port → M (Int × Port × List Bytes)
  | 0, port => pure (0, port, [])
  | fuel + 1, port => do
    let iface ← getIface i
    let (r, tnc, rxBuf) ← lift (port.tnc.drain port.rxBuf iface.mru)
    if r < 0 then
      setErrno .eio
      pure (-1, ⟨tnc, rxBuf⟩, [])
    else if !tnc.pending then pure (0, ⟨tnc, rxBuf⟩, [])
    else
      let (len, tnc) := tnc.flush
      if (← ifFlush i (rxBuf.read 0 len)) < 0 then pure (-1, ⟨tnc, rxBuf⟩, [])
      else if (← handleFrame i rxBuf len) < 0 then pure (-1, ⟨tnc, rxBuf⟩, [rxBuf.read 0 len])
      else
        let (r, port, frames) ← ifaceLoop i fuel ⟨tnc, rxBuf⟩
        pure (r, port, rxBuf.read 0 len :: frames)

/-- `handle_iface` where reading gives `inp`: what it returns, the octets that it has read, and the frames that it has
handed to `handle_frame`. -/
def handleIface (i : Nat) (port : Port) (inp : Except Errno Bytes) : M (Int × Port × Bytes × List Bytes) := do
  let iface ← getIface i
  if iface.status ≠ .up ∨ (← get).fdsWatch iface.fd = false then pure (0, port, [], [])
  else
    match inp with
    | .error _ =>
      -- `patty_kiss_tnc_reset` fails with `ENOSYS`; what matters of it is that it is not `EIO`
      fdClear iface.fd
      setErrno .zero
      setIface i fun iface => { iface with status := .error }
      pure (-1, port, [], [])
    | .ok [] =>
      closeFd iface.fd
      fdClear iface.fd
      pure (0, { port with tnc := port.tnc.fill [] }, [], [])
    | .ok bs =>
      let bs := bs.take PATTY_KISS_TNC_BUFSZ
      let (r, port, frames) ← ifaceLoop i (PATTY_KISS_TNC_BUFSZ + 1) { port with tnc := port.tnc.fill bs }
      pure (r, port, bs, frames)

/-- What `handle_ifaces` does for an interface. -/
def ifaceTurn (i : Nat) (port : Port) (inp : Except Errno Bytes) : M (Int × Port × Bytes × List Bytes) := do
  let (r, port, bs, frames) ← handleIface i port inp
  pure (← frameResult i r, port, bs, frames)

end M

/-- The server with its KISS interfaces, the reads of each interface, and the frames that were handed to
`handle_frame`. -/
structure Station where
  world : World
  ports : Nat → Port
  reads : Nat → List Bytes
  heard : Nat → List Bytes

/-- What can happen: an event of the server, or an interface that reads. A frame comes out of a read only. -/
inductive Signal
  | event (event : Event)
  | read (iface : Nat) (inp : Except Errno Bytes)

namespace Station

/-- The station once the server and its interfaces have been started. -/
def start (c : Config) (ports : Nat → Port) : Station := ⟨.start c, ports, fun _ => [], fun _ => []⟩

/-- The turn of an interface. -/
def read (st : Station) (i : Nat) (inp : Except Errno Bytes) (sys : Sys) : Option Station :=
  if st.world.running then
    match M.ifaceTurn i (st.ports i) inp { st.world with sys } with
    | .error _ => none
    | .ok ((r, port, bs, frames), w) => some {
      world := if r < 0 then { w with running := false } else w
      ports := Function.update st.ports i port
      reads := if bs.isEmpty then st.reads else Function.update st.reads i (st.reads i ++ [bs])
      heard := Function.update st.heard i (st.heard i ++ frames) }
  else none

def exec (st : Station) (signal : Signal) (sys : Sys) : Option Station :=
  match signal with
  | .event (.frame ..) => none
  | .event event => (st.world.exec ⟨event, sys⟩).map fun world => { st with world }
  | .read i inp => st.read i inp sys

/-- The signal takes the station from `st` to `st'`. -/
def Step (st : Station) (x : Signal × Sys) (st' : Station) : Prop := st.exec x.1 x.2 = some st'

def execAll : Station → List Signal → Option Station
  | st, [] => some st
  | st, x :: xs => (st.exec x .allOk).bind (·.execAll xs)

end Station

end Patty
