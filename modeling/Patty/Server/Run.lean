import Patty.Lib.Run
import Patty.Server.Socks

/-! # Runs of the server

One round of `patty_ax25_server_event_handle` is a sequence of events: the turn of every socket, the
requests of the clients that are ready, the frames the interfaces deliver, and a new client. A run
takes them in any order. A negative result ends it, except that one with `EIO` for a frame takes the
interface down instead. -/

namespace Patty

/-- What can happen to the server. -/
inductive Event
  /-- The turn of the socket with this descriptor, with the time that has passed, whether the pty is
  ready, and what reading from it returns. -/
  | sock (fd : Nat) (elapsed : Timespec) (ready : Bool) (inp : Except Errno Bytes)
  /-- The turn of a client. -/
  | client (client : Nat)
  /-- A client writes to the server. -/
  | write (client : Nat) (bs : Bytes)
  /-- A client connects, and `accept` returns this descriptor. -/
  | accept (fd : Nat)
  /-- An interface delivers the first `len` octets of its receive buffer as a frame. -/
  | frame (iface : Nat) (buf : Mem) (len : Nat)

/-- An event, and what the system answers while it is handled. -/
structure Input where
  event : Event
  sys : Sys

namespace M

open Prog

/-- The end of `handle_ifaces` for the result of a frame from the interface `i`. -/
def frameResult (i : Nat) (r : Int) : M Int := do
  if r < 0 ∧ (← get).errno = .eio then
    let iface ← getIface i
    setIface i fun iface => { iface with status := .down }
    fdClear iface.fd
    pure 0
  else pure r

def handleEvent : Event → M Int
  | .sock fd elapsed ready inp => do
    match ← sockByFd fd with
    | none => pure 0
    | some p => handleSock p elapsed ready inp
  | .client client => do
    let w ← get
    if client ∈ w.clients ∧ w.fdsWatch client then handleClient client else pure 0
  | .write client bs => do
    modify fun w =>
      { w with inbox := Function.update w.inbox client (w.inbox client ++ bs) }
    pure 0
  | .accept fd => acceptClient fd
  | .frame i buf len => do
    match (← get).ifaces[i]? with
    | none => pure 0
    | some iface =>
      -- `patty_ax25_if_ready` is false for an interface that is not up
      if iface.status ≠ .up then pure 0 else frameResult i (← handleFrame i buf len)

/-- The server handles an input. -/
def handleInput (inp : Input) : M Unit := do
  modify fun w => { w with sys := inp.sys }
  if (← handleEvent inp.event) < 0 then modify fun w => { w with running := false }

end M

/-- One step of the server, if it runs. It has none after an event failed, and none that faults. -/
def World.exec (w : World) (inp : Input) : Option World :=
  if w.running then
    match M.handleInput inp w with
    | .ok ((), w') => some w'
    | .error _ => none
  else none

/-- The step for each of the inputs. -/
def World.execAll : World → List Input → Option World
  | w, [] => some w
  | w, inp :: inps => (w.exec inp).bind (·.execAll inps)

/-- `inp` takes the server from `w` to `w'`. -/
def World.Step (w : World) (inp : Input) (w' : World) : Prop := w.exec inp = some w'

theorem World.step_iff {w w' : World} {inp : Input} :
    w.Step inp w' ↔ w.running ∧ M.handleInput inp w = .ok ((), w') := by
  unfold Step exec
  rcases M.handleInput inp w with e | ⟨⟨⟩, w''⟩ <;> simp

theorem World.run_execAll {w w' : World} {inps : List Input} (h : w.execAll inps = some w') :
    Run World.Step (fun _ _ => True) w w' := by
  induction inps generalizing w with
  | nil => cases h; exact .refl
  | cons inp inps ih =>
    obtain ⟨t, ht, h'⟩ := Option.bind_eq_some_iff.mp h
    exact (Run.single trivial ht).trans (ih h')

/-- The world after the inputs, for runs on given inputs. -/
def World.after (w : World) (inps : List Input) : World := (w.execAll inps).getD w

theorem World.execAll_append {w : World} {inps inps' : List Input} :
    w.execAll (inps ++ inps') = (w.execAll inps).bind (·.execAll inps') := by
  induction inps generalizing w with
  | nil => rfl
  | cons inp inps ih =>
    simp only [List.cons_append, execAll, Option.bind_assoc]
    congr 1
    funext t
    exact ih

/-- The steps of a run on given inputs that is known to go through. -/
theorem World.step_after {w : World} (inps : List Input) {inp : Input}
    (h : (w.execAll (inps ++ [inp])).isSome) :
    (w.after inps).Step inp (w.after (inps ++ [inp])) := by
  obtain ⟨w₂, h₂⟩ := Option.isSome_iff_exists.mp h
  obtain ⟨w₁, h₁, h'⟩ := Option.bind_eq_some_iff.mp (execAll_append ▸ h₂)
  obtain ⟨w₃, h₃, h''⟩ := Option.bind_eq_some_iff.mp h'
  rw [after, after, h₁, h₂, Option.getD_some, Option.getD_some, Step, h₃]
  exact h''

/-- What the server starts with: interfaces, routes, and the descriptors that are open. -/
structure Config where
  ifaces : List Iface
  routes : Dict UInt32 Route
  fds : List Nat
  fdsWatch : Nat → Bool
  fdMax : Nat

/-- The server after `patty_ax25_server_start`. -/
def World.start (c : Config) : World where
  fdsWatch := c.fdsWatch
  fdMax := c.fdMax
  ifaces := c.ifaces.map fun iface => { iface with promiscFds := ∅ }
  routes := c.routes
  socksByFd := ∅
  socksByClient := ∅
  socksLocal := ∅
  socksRemote := ∅
  clients := ∅
  clientsBySock := ∅
  heap := fun _ => none
  next := 0
  fds := c.fds
  inbox := fun _ => []
  sys := .allOk
  errno := .zero
  log := []
  running := true

/-- A server without interfaces. -/
def World.bare : World := .start ⟨[], ∅, [], fun _ => false, 0⟩

end Patty
