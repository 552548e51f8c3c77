import Patty.SockIO

/-! # The tables of the server (`server.c`)

The dictionaries through which the server finds a socket: by descriptor, by client, by local address
and by pair of addresses; and the client of a socket. `sockSave` enters a socket in them and
`sockClose` takes it out and destroys it. -/

namespace Patty.M

open Prog

/-! ## Looking up -/

def sockByFd (fd : Nat) : M (Option Ptr) := gets (·.socksByFd.lookup fd)

def sockByAddr (addr : Addr) : M (Option Ptr) := gets (·.socksLocal.lookup (hashAddr addr))

def sockByAddrpair (localAddr remote : Addr) : M (Option Ptr) :=
  gets (·.socksRemote.lookup (hashAddrpair localAddr remote))

/-- The client that `clients_by_sock` records for a descriptor. The value for client 0 is the null
pointer, which reads as a missing entry. -/
def clientOf (clientsBySock : Dict Nat Nat) (fd : Nat) : Option Nat :=
  match clientsBySock.lookup fd with
  | none | some 0 => none
  | some client => some client

/-- `client_by_sock` -/
def clientBySock (s : Sock) : M (Option Nat) := gets fun w => clientOf w.clientsBySock s.fd

/-! ## Entering and deleting: whether it succeeds -/

/-- `sock_save_by_fd` in the dictionary of all sockets. -/
def sockSaveByFd (p : Ptr) (s : Sock) : M Bool := do
  if ← dictRoom (← get).socksByFd s.fd then
    modify fun w => { w with socksByFd := w.socksByFd.insert s.fd p }
    pure true
  else pure false

/-- `sock_save_by_fd` in the dictionary `socks` of a client. -/
def sockSaveByClient (client : Nat) (socks : Dict Nat Ptr) (p : Ptr) (s : Sock) : M Bool := do
  if ← dictRoom socks s.fd then
    modify fun w => { w with socksByClient := w.socksByClient.insert client (socks.insert s.fd p) }
    pure true
  else pure false

/-- `client_save_by_sock` -/
def clientSaveBySock (client : Nat) (s : Sock) : M Bool := do
  if ← dictRoom (← get).clientsBySock s.fd then
    modify fun w => { w with clientsBySock := w.clientsBySock.insert s.fd client }
    pure (client != 0)
  else pure false

def sockSaveLocal (p : Ptr) (s : Sock) : M Bool := do
  if ← dictRoom (← get).socksLocal (hashAddr s.localAddr) then
    modify fun w => { w with socksLocal := w.socksLocal.insert (hashAddr s.localAddr) p }
    pure true
  else pure false

def sockSaveRemote (p : Ptr) (s : Sock) : M Bool := do
  if ← dictRoom (← get).socksRemote (hashAddrpair s.localAddr s.remote) then
    modify fun w =>
      { w with socksRemote := w.socksRemote.insert (hashAddrpair s.localAddr s.remote) p }
    pure true
  else pure false

def sockDeleteLocal (s : Sock) : M Bool := do
  if hashAddr s.localAddr ∈ (← get).socksLocal then
    modify fun w => { w with socksLocal := w.socksLocal.erase (hashAddr s.localAddr) }
    pure true
  else pure false

def sockDeleteRemote (s : Sock) : M Bool := do
  if hashAddrpair s.localAddr s.remote ∈ (← get).socksRemote then
    modify fun w =>
      { w with socksRemote := w.socksRemote.erase (hashAddrpair s.localAddr s.remote) }
    pure true
  else pure false

/-- The table entry that `sock_save` makes for the state of the socket. -/
def saveByState (p : Ptr) (s : Sock) : M Bool :=
  match s.state with
  | .listening => sockSaveLocal p s
  | .pendingAccept | .pendingConnect | .established => sockSaveRemote p s
  | .pendingDisconnect | .closed | .promisc => pure true

/-- The table entry that `sock_close` deletes for the state of the socket. -/
def deleteByState (s : Sock) : M Bool :=
  match s.state with
  | .listening => sockDeleteLocal s
  | .pendingAccept | .pendingConnect | .pendingDisconnect | .established => sockDeleteRemote s
  | .closed | .promisc => pure true

/-- `sock_save` -/
def sockSave (client : Nat) (p : Ptr) : M Bool := do
  let s ← deref p
  if ← saveByState p s then
    if ← clientSaveBySock client s then
      match (← get).socksByClient.lookup client with
      | none => pure false
      | some socks =>
        if ← sockSaveByClient client socks p s then sockSaveByFd p s else pure false
    else pure false
  else pure false

/-- `sock_close` once the dictionary `socks` of the client is found. -/
def sockCloseFd (client : Nat) (socks : Dict Nat Ptr) (p : Ptr) (s : Sock) : M Int := do
  if s.fd ∈ socks then
    modify fun w => { w with socksByClient := w.socksByClient.insert client (socks.erase s.fd) }
    if s.fd ∈ (← get).socksByFd then
      modify fun w =>
        { w with
          socksByFd := w.socksByFd.erase s.fd
          clientsBySock := w.clientsBySock.erase s.fd }
      fdClear s.fd
      sockDestroy p
      pure 0
    else pure (-1)
  else pure (-1)

/-- `sock_close` -/
def sockClose (p : Ptr) : M Int := do
  let s ← deref p
  if ← deleteByState s then
    match ← clientBySock s with
    | none => pure (-1)
    | some client =>
      match (← get).socksByClient.lookup client with
      | none => pure (-1)
      | some socks => sockCloseFd client socks p s
  else pure (-1)

/-- `sock_shutdown` -/
def sockShutdown (p : Ptr) : M Int := do
  let s ← deref p
  fdClear s.fd
  if s.type ≠ .stream ∨ s.state ≠ .established then pure 0
  else
    let s := { s with
      state := .pendingDisconnect, retries := s.nRetry, timerT1 := s.timerT1.start }
    store p s
    sendDisc s PATTY_AX25_FRAME_POLL

/-- `sock_flow_stop` -/
def sockFlowStop (p : Ptr) : M Unit := do
  let s ← deref p
  fdClear s.fd
  store p { s with flow := .wait }

/-- `sock_flow_start` -/
def sockFlowStart (p : Ptr) : M Unit := do
  let s ← deref p
  fdWatch s.fd

end Patty.M
