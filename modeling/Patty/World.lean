import Patty.Lib.Prog
import Patty.Sock

/-! # The server and the system around it

`World` is the server of `server.c` with the memory its sockets live in, its interfaces, the
descriptors that are open, the bytes its clients have written, and a log of everything it sent.
What the system answers to the calls of a run (`malloc`, `openpty`, `read`, `write`, the drivers) is
given with the run as `Sys`; an exhausted list means that the calls succeed. The functions here are
the calls themselves and the two small functions of `server.c` about the watched descriptors. -/

namespace Patty

/-- A pointer to a socket. Pointers are not used again after the socket is destroyed, so that a
stale one can be told. -/
abbrev Ptr := Nat

inductive IfStatus
  | down
  | up
  | error
  deriving DecidableEq

/-- `patty_ax25_if_stats` -/
structure IfStats where
  rxFrames : Nat
  txFrames : Nat
  rxBytes : Nat
  txBytes : Nat
  dropped : Nat
  deriving DecidableEq

/-- `patty_ax25_if` and its `if_entry`. The keys of `promiscFds` are the descriptors; the values the
source stores there are null pointers. -/
structure Iface where
  fd : Nat
  name : Bytes
  flagsClasses : Nat
  mru : Nat
  mtu : Nat
  txBuf : Mem
  status : IfStatus
  addr : Addr
  aliases : List Addr
  promiscFds : Dict Nat Unit
  stats : IfStats

/-- `patty_ax25_route` -/
structure Route where
  iface : Nat
  dest : Addr
  repeaters : Fin PATTY_AX25_MAX_HOPS → Addr
  hops : Nat

/-- What the driver of an interface answers to `send`: the KISS driver returns the number of octets,
the APRS-IS driver returns 0 for a frame that it does not pass on. -/
inductive SendOutcome
  | sent
  | ignored
  | failed (e : Errno)

/-- What the system answers to the calls still to come. -/
structure Sys where
  alloc : List Bool
  pty : List (Option (Nat × Bytes))
  send : List SendOutcome
  ptyWrite : List (Option Errno)
  clientWrite : List (Option Errno)
  clientRead : List (Option Errno)
  /-- The contents of uninitialised memory. -/
  junk : List Mem

/-- The answers under which every call succeeds. -/
def Sys.allOk : Sys := ⟨[], [], [], [], [], [], []⟩

/-- The next write to a pty fails. -/
def Sys.refuses (sys : Sys) : Bool :=
  match sys.ptyWrite with
  | some _ :: _ => true
  | _ => false

/-- The driver does not pass on the next frame that is sent. -/
def Sys.ignores (sys : Sys) : Bool :=
  match sys.send with
  | .ignored :: _ => true
  | _ => false

/-- What the server writes to a client. -/
inductive Response
  | ping (pong : Int)
  | socket (fd : Nat) (eno : Errno) (path : Bytes)
  | setsockopt (ret : Int) (eno : Errno)
  | bind (ret : Int) (eno : Errno)
  | listen (ret : Int) (eno : Errno)
  | accept (ret : Int) (eno : Errno)
  | connect (ret : Int) (eno : Errno)
  | close (ret : Int) (eno : Errno)
  deriving DecidableEq

/-- The size of the structure that is written. -/
def Response.size : Response → Int
  | ping _ => 4
  | socket .. => 264
  | _ => 8

/-- The effects of a run on the outside. -/
inductive Out
  /-- A frame handed to the driver of an interface. -/
  | ifSend (iface : Nat) (frame : Bytes)
  /-- What a socket received, written to the pty with this descriptor. -/
  | ptyWrite (fd : Nat) (bytes : Bytes)
  /-- A copy of a frame that was sent, written to the pty of a promiscuous RAW socket. -/
  | promisc (fd : Nat) (bytes : Bytes)
  /-- `patty_client_accept_message`, written to the pty of the listening socket `fd`. -/
  | acceptMessage (fd remote : Nat) (peer : Addr) (path : Bytes)
  | respond (client : Nat) (response : Response)
  deriving DecidableEq

/-- An accept message. -/
def Out.isAccept : Out → Bool
  | .acceptMessage .. => true
  | _ => false

structure World where
  fdsWatch : Nat → Bool
  fdMax : Nat
  ifaces : List Iface
  routes : Dict UInt32 Route
  socksByFd : Dict Nat Ptr
  socksByClient : Dict Nat (Dict Nat Ptr)
  socksLocal : Dict UInt32 Ptr
  socksRemote : Dict UInt32 Ptr
  clients : Dict Nat Nat
  clientsBySock : Dict Nat Nat
  heap : Ptr → Option Sock
  next : Ptr
  fds : List Nat
  inbox : Nat → Bytes
  sys : Sys
  errno : Errno
  log : List Out
  running : Bool

/-- The world with the socket `s` stored under the pointer `p`. -/
def World.setSock (w : World) (p : Ptr) (s : Sock) : World :=
  { w with heap := Function.update w.heap p (some s) }

/-- What the sockets received and was written to their ptys, in order. -/
def World.written (w : World) : List (Nat × Bytes) :=
  w.log.filterMap fun
    | .ptyWrite fd bs => some (fd, bs)
    | _ => none

/-- The frames that were handed to the drivers, each with its interface, in order. -/
def World.sent (w : World) : List (Nat × Bytes) :=
  w.log.filterMap fun
    | .ifSend i frame => some (i, frame)
    | _ => none

/-- The accept messages, each with the descriptor of the listening socket and that of the accepted one,
in order. -/
def World.accepts (w : World) : List (Nat × Nat) :=
  w.log.filterMap fun
    | .acceptMessage fd remote _ _ => some (fd, remote)
    | _ => none

abbrev M := Prog World Fault

namespace M

open Prog

/-! ## Memory -/

def deref (p : Ptr) : M Sock := do
  match (← get).heap p with
  | some s => pure s
  | none => fault .useAfterFree

def store (p : Ptr) (s : Sock) : M Unit := modify fun w => w.setSock p s

/-- A new socket in memory. -/
def newSock (s : Sock) : M Ptr := fun w =>
  .ok (w.next, { w.setSock w.next s with next := w.next + 1 })

/-- `free(sock)` -/
def freeSock (p : Ptr) : M Unit := do
  let _ ← deref p
  modify fun w => { w with heap := Function.update w.heap p none }

def setErrno (e : Errno) : M Unit := modify fun w => { w with errno := e }

/-- The next answer of the system in one of its lists, and `ok` once the list is exhausted. -/
def answer {α : Type} (list : Sys → List α) (set : Sys → List α → Sys) (ok : α) : M α := fun w =>
  match list w.sys with
  | [] => .ok (ok, w)
  | a :: as => .ok (a, { w with sys := set w.sys as })

/-- `malloc` and `realloc`: whether they succeed. -/
def alloc : M Bool := do
  if ← answer (·.alloc) (fun sys l => { sys with alloc := l }) true then pure true
  else
    setErrno .enomem
    pure false

/-- What uninitialised memory holds. -/
def junk : M Mem := answer (·.junk) (fun sys l => { sys with junk := l }) fun _ => 0

/-! ## Descriptors -/

/-- A descriptor that is not open: `fd` if it is free, and one above all others if not. -/
def freshFd (fds : List Nat) (fd : Nat) : Nat :=
  if fd ∈ fds then fds.foldl max 0 + 1 else fd

/-- `openpty`, with `grantpt` and `unlockpt`. -/
def openpty : M (Option (Nat × Bytes)) := do
  match ← answer (·.pty) (fun sys l => { sys with pty := l }) (some (3, [])) with
  | none => pure none
  | some (fd, path) =>
    let fd := freshFd (← get).fds fd
    modify fun w => { w with fds := fd :: w.fds }
    pure (some (fd, path))

def closeFd (fd : Nat) : M Unit := modify fun w => { w with fds := w.fds.erase fd }

/-- `fd_watch` -/
def fdWatch (fd : Nat) : M Unit := modify fun w =>
  { w with
    fdsWatch := Function.update w.fdsWatch fd true
    fdMax := if w.fdMax ≤ fd then fd + 1 else w.fdMax }

/-- `fd_clear`. The bound of its loop is the number of bits in a pointer. -/
def fdClear (fd : Nat) : M Unit := modify fun w =>
  let watch := Function.update w.fdsWatch fd false
  { w with
    fdsWatch := watch
    fdMax := if w.fdMax = fd + 1 then
        (List.range 64).foldl (fun max i => if watch i then i else max) w.fdMax + 1
      else w.fdMax }

/-! ## Input and output -/

def emit (o : Out) : M Unit := modify fun w => { w with log := w.log ++ [o] }

/-- `write` to a pty: whether it succeeds. -/
def writePty (o : Out) : M Bool := do
  match ← answer (·.ptyWrite) (fun sys l => { sys with ptyWrite := l }) none with
  | none =>
    emit o
    pure true
  | some e =>
    setErrno e
    pure false

/-- `write` of a response to a client. -/
def respond (client : Nat) (r : Response) : M Int := do
  match ← answer (·.clientWrite) (fun sys l => { sys with clientWrite := l }) none with
  | none =>
    emit (.respond client r)
    pure r.size
  | some e =>
    setErrno e
    pure (-1)

/-- `read` of at most `n` bytes from a client; nothing means that the read fails, and no bytes that
the client has closed its end. -/
def readClient (client n : Nat) : M (Option Bytes) := do
  match ← answer (·.clientRead) (fun sys l => { sys with clientRead := l }) none with
  | none =>
    let bs := (← get).inbox client
    modify fun w => { w with inbox := Function.update w.inbox client (bs.drop n) }
    pure (some (bs.take n))
  | some e =>
    setErrno e
    pure none

/-- A structure of `n` bytes on the stack, filled by a read that returned `bs`. -/
def structOf (bs : Bytes) : M Mem := do
  let m ← junk
  pure (m.store 0 bs)

/-! ## Dictionaries -/

/-- Whether `patty_dict_set` succeeds for a key: a key that is not there yet may need memory. -/
def dictRoom {κ α : Type} [DecidableEq κ] (d : Dict κ α) (key : κ) : M Bool :=
  if key ∈ d then pure true else alloc

/-! ## Interfaces -/

def getIface (i : Nat) : M Iface := do
  match (← get).ifaces[i]? with
  | some iface => pure iface
  | none => fault .nullPointer

def setIface (i : Nat) (f : Iface → Iface) : M Unit :=
  modify fun w => { w with ifaces := w.ifaces.modify i f }

/-- `handle_promisc_frame` for the descriptor `fd`. -/
def handlePromiscFrame (frame : Bytes) (fd : Nat) : M Int := do
  if ← writePty (.promisc fd (kissFrame frame)) then pure frame.length else pure (-1)

/-- `patty_ax25_if_send` once the driver has taken the octets `sent`. -/
def ifSent (i : Nat) (iface : Iface) (sent : Bytes) : M Int := do
  setIface i fun iface => { iface with
    stats := { iface.stats with
      txFrames := iface.stats.txFrames + 1, txBytes := iface.stats.txBytes + sent.length } }
  if (← forEach iface.promiscFds.keys (handlePromiscFrame sent)) < 0 then pure (-1)
  else pure sent.length

/-- `patty_ax25_if_send` -/
def ifSend (i : Nat) (frame : Bytes) : M Int := do
  let iface ← getIface i
  match ← answer (·.send) (fun sys l => { sys with send := l }) .sent with
  | .failed e =>
    setErrno e
    pure (-1)
  | .sent =>
    emit (.ifSend i frame)
    ifSent i iface frame
  | .ignored => ifSent i iface []

/-- `patty_ax25_if_drop` -/
def ifDrop (i : Nat) : M Unit :=
  setIface i fun iface => { iface with
    stats := { iface.stats with dropped := iface.stats.dropped + 1 } }

end M

/-- `patty_ax25_if_addr_match` -/
def Iface.addrMatch (iface : Iface) (addr : Addr) : Bool :=
  iface.addr.callsign = addr.callsign || iface.aliases.any (·.callsign = addr.callsign)

/-- The value that `promisc_fds` stores for every descriptor: the null pointer. -/
def promiscValue : Option Ptr := none

/-- `patty_dict_get` in `promisc_fds` -/
def Iface.promiscGet (iface : Iface) (fd : Nat) : Option Ptr :=
  (iface.promiscFds.lookup fd).bind fun () => promiscValue

/-- `patty_dict_set` in `promisc_fds`, where `room` says that the dictionary has room for the descriptor. -/
def Iface.promiscAdd (iface : Iface) (fd : Nat) (room : Bool) : Iface :=
  if room then { iface with promiscFds := iface.promiscFds.insert fd () } else iface

/-- `patty_ax25_if_promisc_delete` -/
def Iface.promiscDelete (iface : Iface) (fd : Nat) : Iface :=
  { iface with promiscFds := iface.promiscFds.erase fd }

namespace M

/-- `patty_ax25_if_promisc_add` -/
def ifPromiscAdd (i fd : Nat) : M Int := do
  let iface ← getIface i
  if (iface.promiscGet fd).isSome then
    setErrno .eexist
    pure (-1)
  else
    let room ← dictRoom iface.promiscFds fd
    setIface i (·.promiscAdd fd room)
    -- `patty_dict_set` returns the value that it has stored
    match if room then promiscValue else none with
    | none =>
      setErrno .enomem
      pure (-1)
    | some _ => pure 0

end M

end Patty
