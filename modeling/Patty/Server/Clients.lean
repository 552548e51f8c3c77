import Patty.Server.Tables

/-! # The calls of the clients (`server.c`)

A client writes the number of a call, the structure of its request and, for `setsockopt`, the value
of the option; `handleClient` reads the number and runs the call, which reads the rest and responds.
The structures are read at the byte offsets they have in memory. -/

namespace Patty

/-- An `int` from its four bytes. -/
def int32 (n : Nat) : Int := if n < 2 ^ 31 then n else (n : Int) - 2 ^ 32

/-! ## Requests -/

structure SocketRequest where
  proto : Nat
  type : Nat

structure SetsockoptRequest where
  fd : Nat
  opt : Nat
  len : Nat

structure BindRequest where
  fd : Nat
  addr : Addr

structure ConnectRequest where
  fd : Nat
  peer : Addr

/-- `patty_client_setsockopt_params` -/
structure SetsockoptParams where
  flags : Nat
  mtu : Nat
  window : Nat
  retry : Nat
  ack : Nat

/-- `patty_client_setsockopt_if`. The name is seen from where it starts, since the comparison of
names looks at more bytes than it has. -/
structure SetsockoptIf where
  name : Mem
  state : Nat

def SocketRequest.ofMem (m : Mem) : SocketRequest :=
  ⟨leValue (m.read 0 4), leValue (m.read 4 4)⟩

def SetsockoptRequest.ofMem (m : Mem) : SetsockoptRequest :=
  ⟨leValue (m.read 0 4), leValue (m.read 4 4), leValue (m.read 8 8)⟩

def BindRequest.ofMem (m : Mem) : BindRequest := ⟨leValue (m.read 0 4), Addr.ofMem m 4⟩

def ConnectRequest.ofMem (m : Mem) : ConnectRequest := ⟨leValue (m.read 0 4), Addr.ofMem m 4⟩

def SetsockoptParams.ofMem (m : Mem) : SetsockoptParams :=
  ⟨leValue (m.read 0 4), leValue (m.read 8 8), leValue (m.read 16 8), leValue (m.read 24 8),
    leValue (m.read 32 8)⟩

def SetsockoptIf.ofMem (m : Mem) : SetsockoptIf := ⟨m, leValue (m.read 8 4)⟩

abbrev SocketRequest.size : Nat := 8
abbrev SetsockoptRequest.size : Nat := 16
abbrev BindRequest.size : Nat := 12
abbrev ConnectRequest.size : Nat := 12
abbrev SetsockoptParams.size : Nat := 40
abbrev SetsockoptIf.size : Nat := 12

/-- The size of the requests of `listen`, `accept` and `close`, which are a descriptor. -/
abbrev fdRequestSize : Nat := 4

abbrev PATTY_AX25_SOCK_PARAMS : Nat := 0
abbrev PATTY_AX25_SOCK_IF : Nat := 1
abbrev PATTY_AX25_SOCK_PARAM_MTU : Nat := 1 <<< PATTY_AX25_PARAM_INFO_TX
abbrev PATTY_AX25_SOCK_PARAM_WINDOW : Nat := 1 <<< PATTY_AX25_PARAM_WINDOW_TX
abbrev PATTY_AX25_SOCK_PARAM_ACK : Nat := 1 <<< PATTY_AX25_PARAM_ACK
abbrev PATTY_AX25_SOCK_PARAM_RETRY : Nat := 1 <<< PATTY_AX25_PARAM_RETRY

/-- The number of `PATTY_AX25_SOCK_PROMISC`. -/
abbrev sockPromisc : Nat := 6

abbrev PATTY_CLIENT_PING : Nat := 1
abbrev PATTY_CLIENT_SOCKET : Nat := 2
abbrev PATTY_CLIENT_SETSOCKOPT : Nat := 3
abbrev PATTY_CLIENT_BIND : Nat := 4
abbrev PATTY_CLIENT_LISTEN : Nat := 5
abbrev PATTY_CLIENT_ACCEPT : Nat := 6
abbrev PATTY_CLIENT_CONNECT : Nat := 7
abbrev PATTY_CLIENT_CLOSE : Nat := 8

/-! ## Options, interfaces and routes -/

/-- `strncmp` of two strings finding no difference in the `n` bytes from `i` on. -/
def strncmpEq (a b : Mem) : Nat → Nat → Bool
  | 0, _ => true
  | n + 1, i => a i == b i && (a i == 0 || strncmpEq a b n (i + 1))

/-- `patty_ax25_server_if_get`; the name in an `if_entry` has ten bytes. -/
def ifGet (ifaces : List Iface) (name : Mem) : Option Nat :=
  ifaces.findIdx? fun iface => strncmpEq (fun i => iface.name.getD i 0) name 10 0

/-- The setters that `setsockopt` calls. -/
def SetsockoptParams.apply (data : SetsockoptParams) (s : Sock) : Sock :=
  let s := if data.flags &&& PATTY_AX25_SOCK_PARAM_MTU ≠ 0 then
    { s with nMaxlenTx := data.mtu } else s
  let s := if data.flags &&& PATTY_AX25_SOCK_PARAM_WINDOW ≠ 0 then
    { s with nWindowTx := data.window } else s
  let s := if data.flags &&& PATTY_AX25_SOCK_PARAM_ACK ≠ 0 then { s with nAck := data.ack } else s
  if data.flags &&& PATTY_AX25_SOCK_PARAM_RETRY ≠ 0 then { s with nRetry := data.retry } else s

/-- `setsockopt` makes new buffers. -/
def SetsockoptParams.reallocs (data : SetsockoptParams) : Bool :=
  data.flags &&& (PATTY_AX25_SOCK_PARAM_MTU ||| PATTY_AX25_SOCK_PARAM_WINDOW) != 0

/-- `patty_ax25_route_table_default` -/
def routeDefault (routes : Dict UInt32 Route) : Option Route := routes.lookup (hashAddr .zero)

/-- `patty_ax25_route_table_find` -/
def routeFind (routes : Dict UInt32 Route) (dest : Addr) : Option Route :=
  match routes.lookup (hashAddr dest) with
  | some route => some route
  | none => routeDefault routes

/-- The route that `server_connect` locates. -/
def connectRoute (routes : Dict UInt32 Route) (s : Sock) : Option Route :=
  if s.localAddr.isSet then routeFind routes s.localAddr else routeDefault routes

namespace M

open Prog

/-! ## Reading a request -/

/-- `read` of a structure of `n` bytes. -/
def readStruct (client n : Nat) : M (Option Mem) := do
  match ← readClient client n with
  | none => pure none
  | some bs => some <$> structOf bs

/-- A call that reads its request, a structure of `n` bytes. -/
def withRequest (client n : Nat) (call : Mem → M Int) : M Int := do
  match ← readStruct client n with
  | none => pure (-1)
  | some m => call m

/-! ## `ping` and `socket` -/

def respondAccept (client : Nat) (ret : Int) (eno : Errno) : M Int :=
  respond client (.accept ret eno)

def respondConnect (client : Nat) (ret : Int) (eno : Errno) : M Int :=
  respond client (.connect ret eno)

/-- `notify_accept` -/
def notifyAccept (localFd remoteFd : Nat) (peer : Addr) (path : Bytes) : M Bool :=
  writePty (.acceptMessage localFd remoteFd peer path)

def serverPing (client : Nat) : M Int := respond client (.ping 1)

/-- `server_socket` after it has read its request. -/
def socketRequest (client : Nat) (m : Mem) : M Int := do
  let request := SocketRequest.ofMem m
  match ← sockNew request.proto (sockTypeOf request.type) with
  | none => pure (-1)
  | some p =>
    if ← sockSave client p then
      let s ← deref p
      respond client (.socket s.fd .zero s.pty)
    else
      sockDestroy p
      pure (-1)

def serverSocket (client : Nat) : M Int := withRequest client SocketRequest.size (socketRequest client)

/-! ## `setsockopt` -/

/-- The value of an option, `len` bytes read into a structure of `size`. -/
def readOption (client len size : Nat) : M (Option Mem) := do
  match ← readClient client len with
  | none => pure none
  | some bs => if size < bs.length then fault .overrun else some <$> structOf bs

/-- A call that goes on with the value of an option. -/
def withOption (client len size : Nat) (call : Mem → M Int) : M Int := do
  match ← readOption client len size with
  | none => pure (-1)
  | some m => call m

/-- The case `PATTY_AX25_SOCK_PARAMS` of `server_setsockopt` once it has read the option. -/
def paramsOption (client : Nat) (p : Ptr) (m : Mem) : M Int := do
  let data := SetsockoptParams.ofMem m
  let s := data.apply (← deref p)
  store p s
  if data.reallocs then
    let (ok, s) ← initBufs s
    store p s
    if ok then respond client (.setsockopt 0 .zero) else pure (-1)
  else respond client (.setsockopt 0 .zero)

def setsockoptParams (client len : Nat) (p : Ptr) : M Int :=
  withOption client len SetsockoptParams.size (paramsOption client p)

/-- The case `PATTY_AX25_SOCK_IF` of `server_setsockopt` once it has read the option. -/
def ifOption (client : Nat) (p : Ptr) (s : Sock) (m : Mem) : M Int := do
  let data := SetsockoptIf.ofMem m
  match ifGet (← get).ifaces data.name with
  | none => respond client (.setsockopt (-1) .enodev)
  | some i =>
    let s := if data.state = sockPromisc then { s with state := .promisc } else s
    let s ← sockBindIf s i
    store p s
    fdWatch s.fd
    respond client (.setsockopt 0 .zero)

def setsockoptIf (client len : Nat) (p : Ptr) : M Int := do
  let s ← deref p
  if s.type ≠ .raw then respond client (.setsockopt (-1) .einval)
  else withOption client len SetsockoptIf.size (ifOption client p s)

/-- `server_setsockopt` after it has read its request. -/
def setsockoptRequest (client : Nat) (m : Mem) : M Int := do
  let request := SetsockoptRequest.ofMem m
  match ← sockByFd request.fd with
  | none => respond client (.setsockopt (-1) .ebadf)
  | some p =>
    if request.opt = PATTY_AX25_SOCK_PARAMS then setsockoptParams client request.len p
    else if request.opt = PATTY_AX25_SOCK_IF then setsockoptIf client request.len p
    else respond client (.setsockopt (-1) .einval)

def serverSetsockopt (client : Nat) : M Int :=
  withRequest client SetsockoptRequest.size (setsockoptRequest client)

/-! ## `bind`, `listen` and `accept` -/

/-- `server_bind` after it has read its request. -/
def bindRequest (client : Nat) (m : Mem) : M Int := do
  let request := BindRequest.ofMem m
  match ← sockByFd request.fd with
  | none => respond client (.bind (-1) .ebadf)
  | some p =>
    let s ← deref p
    if s.localAddr.isSet then respond client (.bind (-1) .einval)
    else
      match ← sockByAddr request.addr with
      | some _ => respond client (.bind (-1) .eaddrinuse)
      | none =>
        store p { s with localAddr := request.addr }
        respond client (.bind 0 .zero)

def serverBind (client : Nat) : M Int := withRequest client BindRequest.size (bindRequest client)

/-- `server_listen` after it has read its request. -/
def listenRequest (client : Nat) (m : Mem) : M Int := do
  match ← sockByFd (leValue (m.read 0 4)) with
  | none => respond client (.listen (-1) .ebadf)
  | some p =>
    let s ← deref p
    if !s.localAddr.isSet then
      -- `response.ret` is not set on this path
      let m ← junk
      respond client (.listen (int32 (leValue (m.read 0 4))) .einval)
    else
      let s := { s with state := .listening }
      store p s
      if ← sockSaveLocal p s then respond client (.listen 0 .zero) else pure (-1)

def serverListen (client : Nat) : M Int := withRequest client fdRequestSize (listenRequest client)

/-- `server_accept` after it has read its request. -/
def acceptRequest (client : Nat) (m : Mem) : M Int := do
  match ← sockByFd (leValue (m.read 0 4)) with
  | none => respondAccept client (-1) .ebadf
  | some p =>
    let s ← deref p
    if s.type ≠ .stream then respondAccept client (-1) .eopnotsupp
    else if s.state ≠ .listening then respondAccept client (-1) .einval
    else respondAccept client 0 .zero

def serverAccept (client : Nat) : M Int := withRequest client fdRequestSize (acceptRequest client)

/-! ## `connect` -/

/-- What `server_connect` does once the socket is entered in the tables. -/
def connectStart (client : Nat) (p : Ptr) (s : Sock) : M Int :=
  match s.type with
  | .dgram => do
    store p { s with state := .established }
    pure 0
  | .stream => do
    let s := { s with state := .pendingConnect }
    store p s
    if (← sendXid s .command) < 0 then respondConnect client (-1) (← get).errno
    else
      store p { s with retries := s.nRetry, timerT1 := s.timerT1.start }
      pure 0
  | _ => pure 0

/-- `server_connect` by way of the interface `i`. -/
def connectVia (client : Nat) (p : Ptr) (s : Sock) (i : Nat) (peer : Addr) : M Int := do
  let s ← sockBindIf s i
  let iface ← getIface i
  let s := { s with
    localAddr := if s.localAddr.isSet then s.localAddr else iface.addr, remote := peer }
  store p s
  if ← sockSaveRemote p s then
    if ← clientSaveBySock client s then connectStart client p s else pure (-1)
  else pure (-1)

/-- `server_connect` after it has read its request. -/
def connectRequest (client : Nat) (m : Mem) : M Int := do
  let request := ConnectRequest.ofMem m
  match ← sockByFd request.fd with
  | none => respondConnect client (-1) .ebadf
  | some p =>
    let s ← deref p
    if s.type = .raw then respondConnect client (-1) .enotsup
    else if s.state = .listening then respondConnect client (-1) .einval
    else if s.state = .established then respondConnect client (-1) .eisconn
    else
      match connectRoute (← get).routes s with
      | none => respondConnect client (-1) .enetdown
      | some route => connectVia client p s route.iface request.peer

def serverConnect (client : Nat) : M Int := withRequest client ConnectRequest.size (connectRequest client)

/-! ## `close` -/

/-- `server_close` after it has read its request. -/
def closeRequest (client : Nat) (m : Mem) : M Int := do
  match ← sockByFd (leValue (m.read 0 4)) with
  | none => respond client (.close (-1) .ebadf)
  | some p =>
    match (← get).socksByClient.lookup client with
    | none => respond client (.close (-1) .ebadf)
    | some _ =>
      if (← sockShutdown p) < 0 then respond client (.close (-1) (← get).errno)
      else if (← sockClose p) < 0 then respond client (.close (-1) .ebadf)
      else respond client (.close 0 .zero)

def serverClose (client : Nat) : M Int := withRequest client fdRequestSize (closeRequest client)

/-! ## The calls of a client -/

/-- `server_calls`: the handler of a call, for the numbers that have one. -/
def serverCalls (call : Nat) : Option (Nat → M Int) :=
  if call = PATTY_CLIENT_PING then some serverPing
  else if call = PATTY_CLIENT_SOCKET then some serverSocket
  else if call = PATTY_CLIENT_SETSOCKOPT then some serverSetsockopt
  else if call = PATTY_CLIENT_BIND then some serverBind
  else if call = PATTY_CLIENT_LISTEN then some serverListen
  else if call = PATTY_CLIENT_ACCEPT then some serverAccept
  else if call = PATTY_CLIENT_CONNECT then some serverConnect
  else if call = PATTY_CLIENT_CLOSE then some serverClose
  else none

/-- `client_sock_close` -/
def clientSockClose (p : Ptr) : M Int := do
  if (← sockShutdown p) < 0 then pure (-1) else sockClose p

/-- `client_sock_close` for the entry under `fd` of the dictionary of `client`, if it is still
there. -/
def clientSockCloseFd (client fd : Nat) : M Int := do
  match ((← get).socksByClient.lookup client).bind (·.lookup fd) with
  | none => pure 0
  | some p => clientSockClose p

/-- What `handle_client` does when the client has closed its end. -/
def clientEof (client : Nat) : M Int := do
  fdClear client
  match (← get).socksByClient.lookup client with
  | none => pure (-1)
  | some socks => do
    let _ ← forEach socks.keys (clientSockCloseFd client)
    modify fun w => { w with socksByClient := w.socksByClient.erase client }
    if client ∈ (← get).clients then
      modify fun w => { w with clients := w.clients.erase client }
      closeFd client
      pure 0
    else pure (-1)

/-- `handle_client` for a client that is ready. -/
def handleClient (client : Nat) : M Int := do
  match ← readClient client 4 with
  | none => pure (-1)
  | some [] => clientEof client
  | some bs =>
    let m ← structOf bs
    match serverCalls (leValue (m.read 0 4)) with
    | none => pure 0
    | some call => call client

/-- `accept_client` when a client has connected, for which `accept` returns `fd`. -/
def acceptClient (fd : Nat) : M Int := do
  let client := freshFd (← get).fds fd
  modify fun w => { w with fds := client :: w.fds }
  if ← alloc then
    if ← dictRoom (← get).clients client then
      modify fun w => { w with clients := w.clients.insert client client }
      if client = 0 then
        closeFd client
        pure (-1)
      else if ← dictRoom (← get).socksByClient client then
        modify fun w => { w with socksByClient := w.socksByClient.insert client ∅ }
        fdWatch client
        pure 0
      else
        closeFd client
        pure (-1)
    else
      closeFd client
      pure (-1)
  else
    closeFd client
    pure (-1)

end M

end Patty
