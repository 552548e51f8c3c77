import Patty.Rules

/-! # The request that a turn reads

The turn of a client reads the number of a call and the structure of its request (`readCall`), and then
does what the call asks for (`callRequest`). -/

namespace Patty

open Prog

namespace M

/-- The size of the structure that a call reads. -/
def callSize (call : Nat) : Option Nat :=
  if call = PATTY_CLIENT_SOCKET then some SocketRequest.size
  else if call = PATTY_CLIENT_SETSOCKOPT then some SetsockoptRequest.size
  else if call = PATTY_CLIENT_BIND then some BindRequest.size
  else if call = PATTY_CLIENT_LISTEN then some fdRequestSize
  else if call = PATTY_CLIENT_ACCEPT then some fdRequestSize
  else if call = PATTY_CLIENT_CONNECT then some ConnectRequest.size
  else if call = PATTY_CLIENT_CLOSE then some fdRequestSize
  else none

/-- What a call does once it has read its request. -/
def callRequest (call client : Nat) (m : Mem) : M Int :=
  if call = PATTY_CLIENT_SOCKET then socketRequest client m
  else if call = PATTY_CLIENT_SETSOCKOPT then setsockoptRequest client m
  else if call = PATTY_CLIENT_BIND then bindRequest client m
  else if call = PATTY_CLIENT_LISTEN then listenRequest client m
  else if call = PATTY_CLIENT_ACCEPT then acceptRequest client m
  else if call = PATTY_CLIENT_CONNECT then connectRequest client m
  else closeRequest client m

/-- What the turn of a client reads: the number of a call and the structure of its request. -/
def readCall (client : Nat) : M (Option (Nat × Mem)) := do
  match ← readClient client 4 with
  | none | some [] => pure none
  | some bs =>
    let m ← structOf bs
    match callSize (leValue (m.read 0 4)) with
    | none => pure none
    | some n =>
      match ← readStruct client n with
      | none => pure none
      | some m' => pure (some (leValue (m.read 0 4), m'))

/-- A call that reads a structure goes on with it. -/
theorem serverCalls_size {call n : Nat} (h : callSize call = some n) :
    serverCalls call = some fun client => withRequest client n (callRequest call client) := by
  unfold callSize at h
  split_ifs at h <;> cases h <;> (subst call; rfl)

/-- The only call that reads none is `server_ping`. -/
theorem serverCalls_ping {call : Nat} {f : Nat → M Int} (h : callSize call = none)
    (hf : serverCalls call = some f) : f = serverPing := by
  rw [serverCalls] at hf
  by_cases hping : call = PATTY_CLIENT_PING
  · rw [if_pos hping] at hf
    exact (Option.some.inj hf).symm
  · unfold callSize at h
    split_ifs at h with h₁ h₂ h₃ h₄ h₅ h₆ h₇
    rw [if_neg hping, if_neg h₁, if_neg h₂, if_neg h₃, if_neg h₄, if_neg h₅, if_neg h₆, if_neg h₇] at hf
    cases hf

/-- The turn in which a request is read does what it asks for. -/
theorem handleClient_readCall {client call : Nat} {m : Mem} {w w' : World}
    (h : readCall client w = .ok (some (call, m), w')) :
    handleClient client w = callRequest call client m w' := by
  obtain ⟨bs, w₁, hread, h⟩ := bind_eq_ok.mp h
  rw [handleClient, bind_ok hread]
  rcases bs with _ | _ | ⟨b, bs⟩
  · cases h
  · cases h
  · obtain ⟨m₀, w₂, hstruct, h⟩ := bind_eq_ok.mp h
    dsimp only at h ⊢
    rw [bind_ok hstruct]
    cases hsize : callSize (leValue (m₀.read 0 4)) with
    | none =>
      rw [hsize] at h
      cases h
    | some n =>
      rw [hsize] at h
      obtain ⟨r, w₃, hreq, h⟩ := bind_eq_ok.mp h
      cases r with
      | none => cases h
      | some m' =>
        cases h
        rw [serverCalls_size hsize]
        dsimp only
        rw [withRequest, bind_ok hreq]

theorem core_readCall {client : Nat} : Leaves World.core (readCall client) := by
  refine core_readClient.bind fun bs => ?_
  rcases bs with _ | _ | ⟨b, bs⟩
  · exact .pure
  · exact .pure
  · refine quiet_structOf.core.bind fun m => ?_
    cases callSize (leValue (m.read 0 4)) with
    | none => exact .pure
    | some n =>
      refine core_readStruct.bind fun r => ?_
      cases r with
      | none => exact .pure
      | some m' => exact .pure

end M

/-- The request that the turn of the client reads, and the server after it has read it. -/
def World.asks (w : World) (client : Nat) : Option (Nat × Mem × World) :=
  match M.readCall client w with
  | .ok (some (call, m), w') => some (call, m, w')
  | _ => none

theorem M.asks_eq_some {w w' : World} {c call : Nat} {m : Mem}
    (h : w.asks c = some (call, m, w')) :
    readCall c w = .ok (some (call, m), w') := by
  unfold World.asks at h
  split at h
  · rename_i hread
    cases h
    exact hread
  · cases h

end Patty
