import Patty.Receive

/-! # Entering and deleting in several tables (`server.c`)

`sock_save` enters a socket in up to five dictionaries, one after the other, and `sock_close` deletes it
from them. Both return at the first step that fails and undo none before it. What they leave behind is as
it was only where the first step fails that changes anything (`registration_iff`). -/

namespace Patty

open Prog

/-! ## The tables -/

/-- The tables through which a socket is found, and the client of each. -/
structure Tables where
  socksLocal : Dict UInt32 Ptr
  socksRemote : Dict UInt32 Ptr
  socksByFd : Dict Nat Ptr
  socksByClient : Dict Nat (Dict Nat Ptr)
  clientsBySock : Dict Nat Nat

def Core.tables (c : Core) : Tables := ⟨c.socksLocal, c.socksRemote, c.socksByFd, c.socksByClient, c.clientsBySock⟩

def World.tables (w : World) : Tables := w.core.tables

/-- One of the tables refers to the socket `p` with the descriptor `fd`. -/
def Tables.Refers (t : Tables) (p : Ptr) (fd : Nat) : Prop :=
  (∃ key, t.socksLocal.lookup key = some p) ∨ (∃ key, t.socksRemote.lookup key = some p) ∨
    (∃ key, t.socksByFd.lookup key = some p) ∨
    (∃ client socks key, t.socksByClient.lookup client = some socks ∧ socks.lookup key = some p) ∨
    fd ∈ t.clientsBySock

/-! ## Where an entry is made or deleted first -/

/-- The first entry that `sock_save` makes is there already. -/
def Tables.HasFirst (t : Tables) (s : Sock) : Prop :=
  match s.state with
  | .listening => hashAddr s.localAddr ∈ t.socksLocal
  | .pendingAccept | .pendingConnect | .established => hashAddrpair s.localAddr s.remote ∈ t.socksRemote
  | .pendingDisconnect | .closed | .promisc => s.fd ∈ t.clientsBySock

/-- The entry that `sock_close` deletes for the state of the socket, if there is one for its state, is
there. -/
def Tables.HasState (t : Tables) (s : Sock) : Prop :=
  match s.state with
  | .listening => hashAddr s.localAddr ∈ t.socksLocal
  | .pendingAccept | .pendingConnect | .pendingDisconnect | .established =>
    hashAddrpair s.localAddr s.remote ∈ t.socksRemote
  | .closed | .promisc => True

/-- The state is one for which `sock_close` deletes an entry. -/
def SockState.deletes : SockState → Bool
  | .closed | .promisc => false
  | _ => true

/-- The state is one for which `sock_save` makes an entry. -/
def SockState.saves : SockState → Bool
  | .listening | .pendingAccept | .pendingConnect | .established => true
  | .pendingDisconnect | .closed | .promisc => false

/-- The dictionary of the socket's client has the descriptor. -/
def Tables.Owned (t : Tables) (fd : Nat) : Prop :=
  ∃ client socks, M.clientOf t.clientsBySock fd = some client ∧ t.socksByClient.lookup client = some socks ∧
    fd ∈ socks

/-- A `sock_close` that fails has changed nothing: there is no entry for the state to delete, or else the
client's dictionary has the descriptor (for a state without such an entry, if it has), and then the
dictionary of all sockets has it too. -/
def Tables.CloseHolds (t : Tables) (s : Sock) : Prop :=
  t.HasState s → (s.state.deletes → t.Owned s.fd) ∧ (t.Owned s.fd → s.fd ∈ t.socksByFd)

/-! ## Memory for the entries -/

/-- How many entries are made for the key: one that is not there needs memory. -/
def missing {κ α : Type} [DecidableEq κ] (d : Dict κ α) (key : κ) : Nat := if key ∈ d then 0 else 1

/-- The entry that `sock_save` makes for the state of the socket. -/
def Tables.missingState (t : Tables) (s : Sock) : Nat :=
  match s.state with
  | .listening => missing t.socksLocal (hashAddr s.localAddr)
  | .pendingAccept | .pendingConnect | .established =>
    missing t.socksRemote (hashAddrpair s.localAddr s.remote)
  | .pendingDisconnect | .closed | .promisc => 0

/-- The next call of `malloc` fails. -/
def World.Refuses (w : World) : Prop := w.sys.alloc.head? = some false

/-- There is no first entry, and no memory for it. -/
def World.FirstRefused (w : World) (s : Sock) : Prop := ¬w.tables.HasFirst s ∧ w.Refuses

/-- The client has a dictionary, and there is memory for all entries that are missing. -/
def World.AllGranted (w : World) (client : Nat) (s : Sock) : Prop :=
  client ≠ 0 ∧ ∃ socks, w.tables.socksByClient.lookup client = some socks ∧
    ∀ a ∈ w.sys.alloc.take (w.tables.missingState s + missing w.tables.clientsBySock s.fd +
      missing socks s.fd + missing w.tables.socksByFd s.fd), a = true

/-- A `sock_save` that fails leaves no table that refers to the socket: it does not fail, or it fails at the
first entry and none of the tables has referred to the socket before. -/
def World.SaveHolds (w : World) (client : Nat) (p : Ptr) (s : Sock) : Prop :=
  w.AllGranted client s ∨ w.FirstRefused s ∧ ¬w.tables.Refers p s.fd

variable {w w' w₁ w₂ : World} {p : Ptr} {s : Sock} {client n m : Nat} {t : Tables}

theorem missingState_pos (hs : s.state.saves) (h : ¬t.HasFirst s) : 0 < t.missingState s := by
  rw [Tables.HasFirst] at h
  rw [Tables.missingState]
  cases hstate : s.state with
  | listening =>
    rw [hstate] at h
    dsimp only
    rw [missing, if_neg h]
    exact Nat.one_pos
  | pendingAccept | pendingConnect | established =>
    rw [hstate] at h
    dsimp only
    rw [missing, if_neg h]
    exact Nat.one_pos
  | pendingDisconnect | closed | promisc =>
    rw [hstate] at hs
    cases hs

/-- The first entry for a state without one is that of the client. -/
theorem hasFirst_idle (hs : s.state.saves = false) : t.HasFirst s ↔ s.fd ∈ t.clientsBySock := by
  rw [Tables.HasFirst]
  cases hstate : s.state with
  | listening | pendingAccept | pendingConnect | established =>
    rw [hstate] at hs
    cases hs
  | pendingDisconnect | closed | promisc => exact Iff.rfl

theorem missingState_idle (hs : s.state.saves = false) : t.missingState s = 0 := by
  rw [Tables.missingState]
  cases hstate : s.state with
  | listening | pendingAccept | pendingConnect | established =>
    rw [hstate] at hs
    cases hs
  | pendingDisconnect | closed | promisc => rfl

theorem missing_pos (h : ¬t.HasFirst s) : 0 < t.missingState s + missing t.clientsBySock s.fd := by
  cases hs : s.state.saves with
  | true => exact Nat.lt_add_right _ (missingState_pos hs h)
  | false =>
    rw [missing, if_neg ((hasFirst_idle hs).not.mp h)]
    exact Nat.succ_pos _

/-- Memory was granted `n` times. -/
def Granted (n : Nat) (w w' : World) : Prop :=
  (∀ a ∈ w.sys.alloc.take n, a = true) ∧ w'.sys.alloc = w.sys.alloc.drop n

theorem Granted.zero (h : w'.sys = w.sys) : Granted 0 w w' := ⟨by simp, by rw [h, List.drop_zero]⟩

theorem Granted.trans (h : Granted n w w₁) (h' : Granted m w₁ w₂) : Granted (n + m) w w₂ := by
  obtain ⟨hn, hdrop⟩ := h
  obtain ⟨hm, hdrop'⟩ := h'
  rw [hdrop] at hm hdrop'
  refine ⟨fun a ha => ?_, by rw [hdrop', List.drop_drop]⟩
  rw [List.take_add, List.mem_append] at ha
  exact ha.elim (hn a) (hm a)

/-- After `n` grants, the next `m` calls succeed if the `n + m` calls do. -/
theorem Granted.all_iff (h : Granted n w w₁) :
    (∀ a ∈ w.sys.alloc.take (n + m), a = true) ↔ ∀ a ∈ w₁.sys.alloc.take m, a = true := by
  rw [h.2, List.take_add]
  simp only [List.mem_append, or_imp, forall_and]
  exact and_iff_right h.1

/-- A refusal after `n` grants shows in more answers than `n`. -/
theorem Granted.refused (h : Granted n w w₁) (hr : w₁.Refuses) (hm : n < m) :
    ¬∀ a ∈ w.sys.alloc.take m, a = true := by
  intro hall
  rw [World.Refuses, h.2, List.head?_drop] at hr
  have hget : (w.sys.alloc.take m)[n]? = some false := by rw [List.getElem?_take_of_lt hm, hr]
  exact Bool.false_ne_true (hall false (List.mem_of_getElem? hget))

theorem Granted.not_refuses (h : Granted n w w₁) (hn : 0 < n) : ¬w.Refuses :=
  fun hr => Granted.refused (.zero rfl) hr hn h.1

/-- The socket is entered under its pair of addresses. -/
def Core.saveRemote (c : Core) (p : Ptr) (s : Sock) : Core :=
  { c with socksRemote := c.socksRemote.insert (hashAddrpair s.localAddr s.remote) p }

/-- The socket is entered under its address. -/
def Core.saveLocal (c : Core) (p : Ptr) (s : Sock) : Core :=
  { c with socksLocal := c.socksLocal.insert (hashAddr s.localAddr) p }

namespace M

theorem dictRoom_spec {κ α : Type} [DecidableEq κ] {d : Dict κ α} {key : κ} : wp (dictRoom d key)
    (fun ok w' => w'.core = w.core ∧ if ok then Granted (missing d key) w w' else key ∉ d ∧ w.Refuses)
    (fun _ => False) w := by
  rw [dictRoom, missing, wp_ite]
  refine ⟨fun hin => ⟨rfl, ?_⟩, fun hnot => ?_⟩
  · rw [if_pos rfl, if_pos hin]
    exact .zero rfl
  · rw [if_neg hnot, alloc, wp_bind, wp_answer]
    refine ⟨fun hnil => ⟨rfl, ?_⟩, fun a as has => ?_⟩
    · exact ⟨by rw [hnil]; simp, by rw [hnil]; rfl⟩
    · cases a with
      | true => exact ⟨rfl, by rw [if_pos rfl]; exact ⟨by rw [has]; simp, by rw [has]; rfl⟩⟩
      | false => exact ⟨rfl, hnot, by rw [World.Refuses, has]; rfl⟩

/-- An entry is made, or there was none and no memory for it. -/
theorem enter_spec {κ α : Type} [DecidableEq κ] {d : Dict κ α} {key : κ} {b : Bool} {g : World → World}
    {f : Core → Core} (hg : ∀ w, (g w).core = f w.core) (hsys : ∀ w, (g w).sys = w.sys) :
    wp (do
      if ← dictRoom d key then
        modify g
        pure b
      else pure false : M Bool)
    (fun ok w' => ok = b ∧ Granted (missing d key) w w' ∧ w'.core = f w.core ∨
      ok = false ∧ w'.core = w.core ∧ key ∉ d ∧ w.Refuses) (fun _ => False) w := by
  rw [wp_bind]
  refine dictRoom_spec.post fun ok w₁ h => ?_
  obtain ⟨hcore, h⟩ := h
  cases ok with
  | true => exact .inl ⟨rfl, ⟨h.1, (congrArg Sys.alloc (hsys w₁)).trans h.2⟩, by rw [hg, hcore]⟩
  | false => exact .inr ⟨rfl, hcore, h⟩

/-- The entry for the state of the socket is there. -/
def HasEntered (t : Tables) (p : Ptr) (s : Sock) : Prop :=
  match s.state with
  | .listening => t.socksLocal.lookup (hashAddr s.localAddr) = some p
  | .pendingAccept | .pendingConnect | .established =>
    t.socksRemote.lookup (hashAddrpair s.localAddr s.remote) = some p
  | .pendingDisconnect | .closed | .promisc => True

/-- The tables differ at most in the entry for the state of the socket. -/
structure EntersState (p : Ptr) (s : Sock) (w w' : World) : Prop where
  granted : Granted (w.tables.missingState s) w w'
  entered : HasEntered w'.tables p s
  byFd : w'.socksByFd = w.socksByFd
  byClient : w'.socksByClient = w.socksByClient
  clients : w'.clientsBySock = w.clientsBySock
  idle : s.state.saves = false → w'.tables = w.tables

theorem sockSaveRemote_spec : wp (sockSaveRemote p s)
    (fun ok w' => ok = true ∧ Granted (missing w.socksRemote (hashAddrpair s.localAddr s.remote)) w w' ∧
        w'.core = w.core.saveRemote p s ∨
      ok = false ∧ w'.core = w.core ∧ hashAddrpair s.localAddr s.remote ∉ w.socksRemote ∧ w.Refuses)
    (fun _ => False) w := by
  rw [sockSaveRemote, wp_bind, wp_get]
  exact enter_spec (f := fun c => c.saveRemote p s) (fun _ => rfl) fun _ => rfl

theorem sockSaveLocal_spec : wp (sockSaveLocal p s)
    (fun ok w' => ok = true ∧ Granted (missing w.socksLocal (hashAddr s.localAddr)) w w' ∧
        w'.core = w.core.saveLocal p s ∨
      ok = false ∧ w'.core = w.core ∧ hashAddr s.localAddr ∉ w.socksLocal ∧ w.Refuses)
    (fun _ => False) w := by
  rw [sockSaveLocal, wp_bind, wp_get]
  exact enter_spec (f := fun c => c.saveLocal p s) (fun _ => rfl) fun _ => rfl

theorem saveByState_spec : wp (saveByState p s)
    (fun ok w' => ok = true ∧ EntersState p s w w' ∨ ok = false ∧ w'.tables = w.tables ∧ w.FirstRefused s)
    (fun _ => False) w := by
  unfold saveByState
  cases hs : s.state with
  | listening =>
    refine sockSaveLocal_spec.post fun ok w' h => h.imp ?_ ?_
    · rintro ⟨rfl, hgrant, hcore⟩
      refine ⟨rfl, ?_, ?_, congrArg Core.socksByFd hcore, congrArg Core.socksByClient hcore,
        congrArg Core.clientsBySock hcore, fun h => by rw [hs] at h; cases h⟩
      · rw [Tables.missingState, hs]
        exact hgrant
      · rw [HasEntered, hs, World.tables, hcore]
        exact AList.lookup_insert w.socksLocal
    · rintro ⟨rfl, hcore, hnot, hr⟩
      refine ⟨rfl, congrArg Core.tables hcore, ?_, hr⟩
      rw [Tables.HasFirst, hs]
      exact hnot
  | pendingAccept | pendingConnect | established =>
    refine sockSaveRemote_spec.post fun ok w' h => h.imp ?_ ?_
    · rintro ⟨rfl, hgrant, hcore⟩
      refine ⟨rfl, ?_, ?_, congrArg Core.socksByFd hcore, congrArg Core.socksByClient hcore,
        congrArg Core.clientsBySock hcore, fun h => by rw [hs] at h; cases h⟩
      · rw [Tables.missingState, hs]
        exact hgrant
      · rw [HasEntered, hs, World.tables, hcore]
        exact AList.lookup_insert w.socksRemote
    · rintro ⟨rfl, hcore, hnot, hr⟩
      refine ⟨rfl, congrArg Core.tables hcore, ?_, hr⟩
      rw [Tables.HasFirst, hs]
      exact hnot
  | pendingDisconnect | closed | promisc =>
    refine .inl ⟨rfl, ?_, ?_, rfl, rfl, rfl, fun _ => rfl⟩
    · rw [Tables.missingState, hs]
      exact .zero rfl
    · rw [HasEntered, hs]
      trivial

theorem clientSaveBySock_spec : wp (clientSaveBySock client s)
    (fun ok w' => ok = (client != 0) ∧ Granted (missing w.clientsBySock s.fd) w w' ∧
        w'.core = { w.core with clientsBySock := w.clientsBySock.insert s.fd client } ∨
      ok = false ∧ w'.core = w.core ∧ s.fd ∉ w.clientsBySock ∧ w.Refuses)
    (fun _ => False) w := by
  rw [clientSaveBySock, wp_bind, wp_get]
  exact enter_spec (f := fun c => { c with clientsBySock := c.clientsBySock.insert s.fd client })
    (fun _ => rfl) fun _ => rfl

theorem sockSaveByClient_spec {socks : Dict Nat Ptr} : wp (sockSaveByClient client socks p s)
    (fun ok w' => ok = true ∧ Granted (missing socks s.fd) w w' ∧ w'.core = { w.core with
        socksByClient := w.socksByClient.insert client (socks.insert s.fd p) } ∨
      ok = false ∧ w'.core = w.core ∧ s.fd ∉ socks ∧ w.Refuses)
    (fun _ => False) w := by
  rw [sockSaveByClient]
  exact enter_spec (f := fun c => { c with socksByClient := c.socksByClient.insert client (socks.insert s.fd p) })
    (fun _ => rfl) fun _ => rfl

theorem sockSaveByFd_spec : wp (sockSaveByFd p s)
    (fun ok w' => ok = true ∧ Granted (missing w.socksByFd s.fd) w w' ∧ w'.core = { w.core with
        socksByFd := w.socksByFd.insert s.fd p } ∨
      ok = false ∧ w'.core = w.core ∧ s.fd ∉ w.socksByFd ∧ w.Refuses)
    (fun _ => False) w := by
  rw [sockSaveByFd, wp_bind, wp_get]
  exact enter_spec (f := fun c => { c with socksByFd := c.socksByFd.insert s.fd p }) (fun _ => rfl) fun _ => rfl

/-- The entries by descriptor in the dictionary of the client and in that of all sockets. -/
def saveFds (client : Nat) (p : Ptr) (s : Sock) : M Bool := do
  match (← get).socksByClient.lookup client with
  | none => pure false
  | some socks => if ← sockSaveByClient client socks p s then sockSaveByFd p s else pure false

/-- The client has a dictionary, and there is memory for the entries by descriptor. -/
def FdsGranted (w : World) (client : Nat) (s : Sock) : Prop :=
  ∃ socks, w.socksByClient.lookup client = some socks ∧
    ∀ a ∈ w.sys.alloc.take (missing socks s.fd + missing w.socksByFd s.fd), a = true

theorem saveFds_spec : wp (saveFds client p s)
    (fun ok w' => ok = true ∧ FdsGranted w client s ∨ ok = false ∧ ¬FdsGranted w client s ∧
      w'.socksLocal = w.socksLocal ∧ w'.socksRemote = w.socksRemote ∧ w'.clientsBySock = w.clientsBySock)
    (fun _ => False) w := by
  rw [saveFds, wp_bind, wp_get]
  cases hsocks : w.socksByClient.lookup client with
  | none =>
    refine .inr ⟨rfl, ?_, rfl, rfl, rfl⟩
    rintro ⟨socks, hsome, -⟩
    rw [hsocks] at hsome
    cases hsome
  | some socks =>
    have hiff : FdsGranted w client s ↔
        ∀ a ∈ w.sys.alloc.take (missing socks s.fd + missing w.socksByFd s.fd), a = true := by
      constructor
      · rintro ⟨socks', hsocks', hall⟩
        obtain rfl := Option.some.inj (hsocks.symm.trans hsocks')
        exact hall
      · exact fun hall => ⟨socks, hsocks, hall⟩
    rw [hiff]
    dsimp only
    rw [wp_bind]
    refine sockSaveByClient_spec.post ?_
    rintro ok w₁ (⟨rfl, hgrant, hcore⟩ | ⟨rfl, hcore, hnot, hr⟩)
    · have hfd : w₁.socksByFd = w.socksByFd := congrArg Core.socksByFd hcore
      have hlocal : w₁.socksLocal = w.socksLocal := congrArg Core.socksLocal hcore
      have hremote : w₁.socksRemote = w.socksRemote := congrArg Core.socksRemote hcore
      have hclients : w₁.clientsBySock = w.clientsBySock := congrArg Core.clientsBySock hcore
      rw [wp_ite]
      refine ⟨fun _ => ?_, fun h => absurd rfl h⟩
      rw [hgrant.all_iff]
      refine sockSaveByFd_spec.post ?_
      rintro ok w₂ (⟨rfl, hgrant₂, -⟩ | ⟨rfl, hcore₂, hnot, hr⟩)
      · rw [hfd] at hgrant₂
        exact .inl ⟨rfl, hgrant₂.1⟩
      · rw [hfd] at hnot
        refine .inr ⟨rfl, ?_, (congrArg Core.socksLocal hcore₂).trans hlocal,
          (congrArg Core.socksRemote hcore₂).trans hremote, (congrArg Core.clientsBySock hcore₂).trans hclients⟩
        rw [missing, if_neg hnot]
        exact (Granted.zero rfl).refused hr Nat.one_pos
    · rw [wp_ite]
      refine ⟨fun h => absurd h Bool.false_ne_true, fun _ => .inr ⟨rfl, ?_, congrArg Core.socksLocal hcore,
        congrArg Core.socksRemote hcore, congrArg Core.clientsBySock hcore⟩⟩
      rw [missing, if_neg hnot]
      exact (Granted.zero rfl).refused hr (by omega)

theorem sockSave_eq (hp : w.heap p = some s) : sockSave client p w = (do
    if ← saveByState p s then
      if ← clientSaveBySock client s then saveFds client p s else pure false
    else pure false : M Bool) w := by
  rw [sockSave, bind_ok (deref_ok hp)]
  rfl

theorem HasEntered.refers (h : HasEntered t p s) (hs : s.state.saves) : t.Refers p s.fd := by
  rw [HasEntered] at h
  cases hstate : s.state with
  | listening =>
    rw [hstate] at h
    exact .inl ⟨_, h⟩
  | pendingAccept | pendingConnect | established =>
    rw [hstate] at h
    exact .inr (.inl ⟨_, h⟩)
  | pendingDisconnect | closed | promisc =>
    rw [hstate] at hs
    cases hs

/-- What memory is needed beyond that for the first two entries. -/
theorem allGranted_iff (h : Granted (w.tables.missingState s + missing w.clientsBySock s.fd) w w₁)
    (hclient : w₁.socksByClient = w.socksByClient) (hfd : w₁.socksByFd = w.socksByFd) :
    w.AllGranted client s ↔ client ≠ 0 ∧ FdsGranted w₁ client s := by
  rw [World.AllGranted, FdsGranted, hclient, hfd]
  refine and_congr_right fun _ => exists_congr fun socks => and_congr_right fun _ => ?_
  rw [Nat.add_assoc]
  exact h.all_iff

/-- What a `sock_save` does. -/
theorem sockSave_tables (hp : w.heap p = some s) : wp (sockSave client p)
    (fun ok w' => ok = true ∧ w.AllGranted client s ∨ ok = false ∧ ¬w.AllGranted client s ∧
      (w.FirstRefused s ∧ w'.tables = w.tables ∨ ¬w.FirstRefused s ∧ w'.tables.Refers p s.fd))
    (fun _ => False) w := by
  rw [wp, sockSave_eq hp]
  change wp _ _ _ w
  rw [wp_bind]
  refine saveByState_spec.post ?_
  rintro ok w₁ (⟨rfl, henter⟩ | ⟨rfl, htables, hfirst⟩)
  · rw [wp_ite]
    refine ⟨fun _ => ?_, fun h => absurd rfl h⟩
    rw [wp_bind]
    refine clientSaveBySock_spec.post ?_
    rintro ok w₂ (⟨rfl, hgrant, hcore⟩ | ⟨rfl, hcore, hnot, hr⟩)
    · -- from here on the client of the descriptor is recorded
      rw [henter.clients] at hgrant hcore
      have hgrant₂ := henter.granted.trans hgrant
      have hfirst : ¬w.FirstRefused s := fun h => hgrant₂.not_refuses (missing_pos h.1) h.2
      have hall : w.AllGranted client s ↔ client ≠ 0 ∧ FdsGranted w₂ client s :=
        allGranted_iff hgrant₂ ((congrArg Core.socksByClient hcore).trans henter.byClient)
          ((congrArg Core.socksByFd hcore).trans henter.byFd)
      have hfd : s.fd ∈ w₂.clientsBySock := by
        rw [show w₂.clientsBySock = _ from congrArg Core.clientsBySock hcore]
        exact AList.mem_insert w.clientsBySock |>.mpr (.inl rfl)
      rw [wp_ite, hall]
      constructor
      · intro hne
        have hne : client ≠ 0 := by simpa using hne
        refine saveFds_spec.post ?_
        rintro ok w₃ (⟨rfl, hfds⟩ | ⟨rfl, hfds, -, -, hclients⟩)
        · exact .inl ⟨rfl, hne, hfds⟩
        · refine .inr ⟨rfl, fun h => hfds h.2, .inr ⟨hfirst, ?_⟩⟩
          rw [← hclients] at hfd
          exact .inr (.inr (.inr (.inr hfd)))
      · intro hzero
        have hzero : client = 0 := by simpa using hzero
        exact .inr ⟨rfl, fun h => h.1 hzero, .inr ⟨hfirst, .inr (.inr (.inr (.inr hfd)))⟩⟩
    · rw [wp_ite]
      refine ⟨fun h => absurd h Bool.false_ne_true, fun _ => .inr ⟨rfl, ?_, ?_⟩⟩
      · rintro ⟨-, socks, -, hall⟩
        rw [henter.clients] at hnot
        refine henter.granted.refused hr ?_ hall
        rw [show missing w.tables.clientsBySock s.fd = 1 from if_neg hnot]
        omega
      · cases hs : s.state.saves with
        | true =>
          refine .inr ⟨fun h => henter.granted.not_refuses (missingState_pos hs h.1) h.2, ?_⟩
          rw [World.tables, hcore]
          exact henter.entered.refers hs
        | false =>
          have hsys := henter.granted.2
          rw [missingState_idle hs, List.drop_zero] at hsys
          rw [henter.clients] at hnot
          rw [World.Refuses, hsys] at hr
          exact .inl ⟨⟨(hasFirst_idle hs).not.mpr hnot, hr⟩, (congrArg Core.tables hcore).trans (henter.idle hs)⟩
  · rw [wp_ite]
    refine ⟨fun h => absurd h Bool.false_ne_true, fun _ => .inr ⟨rfl, ?_, .inl ⟨hfirst, htables⟩⟩⟩
    rintro ⟨-, socks, -, hall⟩
    have hpos := missing_pos hfirst.1
    refine Granted.refused (.zero rfl) hfirst.2 ?_ hall
    omega

/-- The entry for the state of the socket is deleted, if there is one for its state. -/
structure DeletesState (s : Sock) (w w' : World) : Prop where
  has : w.tables.HasState s
  same : w'.tables = w.tables ↔ s.state.deletes = false
  byFd : w'.socksByFd = w.socksByFd
  byClient : w'.socksByClient = w.socksByClient
  clients : w'.clientsBySock = w.clientsBySock

theorem erase_ne {κ α : Type} [DecidableEq κ] {d : Dict κ α} {key : κ} (h : key ∈ d) : d.erase key ≠ d := by
  intro heq
  rw [← heq, AList.mem_erase] at h
  exact h.1 rfl

theorem deleteByState_spec : wp (deleteByState s) (fun ok w' => ok = true ∧ DeletesState s w w' ∨
    ok = false ∧ ¬w.tables.HasState s ∧ w'.tables = w.tables) (fun _ => False) w := by
  unfold deleteByState
  cases hs : s.state with
  | listening =>
    rw [sockDeleteLocal, wp_bind, wp_get, wp_ite]
    refine ⟨fun hin => .inl ⟨rfl, ?_, ?_, rfl, rfl, rfl⟩, fun hnot => .inr ⟨rfl, ?_, rfl⟩⟩
    · rw [Tables.HasState, hs]
      exact hin
    · rw [hs]
      exact iff_of_false (fun h => erase_ne hin (congrArg Tables.socksLocal h)) nofun
    · rw [Tables.HasState, hs]
      exact hnot
  | pendingAccept | pendingConnect | pendingDisconnect | established =>
    rw [sockDeleteRemote, wp_bind, wp_get, wp_ite]
    refine ⟨fun hin => .inl ⟨rfl, ?_, ?_, rfl, rfl, rfl⟩, fun hnot => .inr ⟨rfl, ?_, rfl⟩⟩
    · rw [Tables.HasState, hs]
      exact hin
    · rw [hs]
      exact iff_of_false (fun h => erase_ne hin (congrArg Tables.socksRemote h)) nofun
    · rw [Tables.HasState, hs]
      exact hnot
  | closed | promisc =>
    refine .inl ⟨rfl, ?_, ?_, rfl, rfl, rfl⟩
    · rw [Tables.HasState, hs]
      trivial
    · rw [hs]
      exact iff_of_true rfl rfl

/-- Where the client's dictionary lacks the descriptor, all depends on the entry for the state. -/
theorem DeletesState.lost (h : DeletesState s w w₁) (hnot : ¬w.tables.Owned s.fd) :
    ((-1 : Int) = -1 → w₁.tables = w.tables) ↔ w.tables.CloseHolds s := by
  rw [Tables.CloseHolds, h.same, forall_prop_of_true h.has]
  constructor
  · intro hidle
    exact ⟨fun hdel => absurd ((hidle rfl).symm.trans hdel) Bool.false_ne_true, fun howned => absurd howned hnot⟩
  · intro hholds _
    exact Bool.eq_false_iff.mpr fun hdel => hnot (hholds.1 hdel)

theorem sockCloseFd_spec {socks : Dict Nat Ptr} (h : DeletesState s w w₁)
    (hclient : clientOf w.tables.clientsBySock s.fd = some client)
    (hsocks : w.tables.socksByClient.lookup client = some socks) : wp (sockCloseFd client socks p s)
    (fun r w' => (r = -1 → w'.tables = w.tables) ↔ w.tables.CloseHolds s)
    (fun _ => w.tables.CloseHolds s) w₁ := by
  rw [sockCloseFd, wp_ite]
  constructor
  · intro hfd
    have howned : w.tables.Owned s.fd := ⟨client, socks, hclient, hsocks, hfd⟩
    have hbyFd : w₁.socksByFd = w.tables.socksByFd := h.byFd
    rw [wp_bind, wp_modify, wp_bind, wp_get, wp_ite]
    constructor
    · intro hin
      have hholds : w.tables.CloseHolds s := fun _ => ⟨fun _ => howned, fun _ => hbyFd ▸ hin⟩
      rw [wp_bind, wp_modify, wp_bind]
      refine (wp_intro (Q := fun _ w' => True) fun _ _ _ => trivial).mono (fun _ _ _ => ?_) fun _ _ => hholds
      rw [wp_bind]
      refine (wp_intro (Q := fun _ w' => True) fun _ _ _ => trivial).mono (fun _ _ _ => ?_) fun _ _ => hholds
      exact iff_of_true (fun h => absurd h (by decide)) hholds
    · intro hnot
      refine iff_of_false (fun hsame => erase_ne hfd ?_) fun hholds => hnot ?_
      · -- the client's dictionary has lost the descriptor
        have htable := congrArg (fun t => t.socksByClient.lookup client) (hsame rfl)
        rw [hsocks] at htable
        exact Option.some.inj ((AList.lookup_insert w₁.socksByClient).symm.trans htable)
      · have hin := (hholds h.has).2 howned
        rwa [← hbyFd] at hin
  · intro hnot
    refine h.lost ?_
    rintro ⟨client', socks', hclient', hsocks', hin⟩
    obtain rfl := Option.some.inj (hclient.symm.trans hclient')
    obtain rfl := Option.some.inj (hsocks.symm.trans hsocks')
    exact hnot hin

/-- What a `sock_close` does. -/
theorem sockClose_tables (hp : w.heap p = some s) : wp (sockClose p)
    (fun r w' => (r = -1 → w'.tables = w.tables) ↔ w.tables.CloseHolds s)
    (fun _ => w.tables.CloseHolds s) w := by
  rw [sockClose, wp_bind]
  refine wp_deref_some hp ?_
  rw [wp_bind]
  refine (deleteByState_spec.mono ?_ fun _ h => h.elim)
  rintro ok w₁ (⟨rfl, h⟩ | ⟨rfl, hnot, hsame⟩)
  · rw [wp_ite]
    refine ⟨fun _ => ?_, fun h => absurd rfl h⟩
    rw [wp_bind, clientBySock, wp_gets]
    have hclients : w₁.clientsBySock = w.tables.clientsBySock := h.clients
    rw [hclients]
    cases hclient : clientOf w.tables.clientsBySock s.fd with
    | none =>
      refine h.lost ?_
      rintro ⟨client, socks, hsome, -⟩
      rw [hclient] at hsome
      cases hsome
    | some client =>
      dsimp only
      rw [wp_bind, wp_get]
      have hbyClient : w₁.socksByClient = w.tables.socksByClient := h.byClient
      rw [hbyClient]
      cases hsocks : w.tables.socksByClient.lookup client with
      | none =>
        refine h.lost ?_
        rintro ⟨client', socks, hclient', hsome, -⟩
        obtain rfl := Option.some.inj (hclient.symm.trans hclient')
        rw [hsocks] at hsome
        cases hsome
      | some socks => exact sockCloseFd_spec h hclient hsocks
  · rw [wp_ite]
    exact ⟨fun h => absurd h Bool.false_ne_true, fun _ => iff_of_true (fun _ => hsame) fun h => absurd h hnot⟩

end M

/-! ## All or nothing -/

/-- A server with the new socket of a connection, and a client without sockets; `malloc` answers `alloc`. -/
def World.accepting (alloc : List Bool) : World :=
  { World.withSock acceptedSock with
    socksByClient := (∅ : Dict Nat (Dict Nat Ptr)).insert 5 ∅, sys := { Sys.allOk with alloc } }

/-- A connection that is in the table of pairs, without a client. -/
def World.orphaned : World :=
  { World.withSock acceptedSock with
    socksRemote := (∅ : Dict UInt32 Ptr).insert (hashAddrpair acceptedSock.localAddr acceptedSock.remote) 0 }

end Patty
