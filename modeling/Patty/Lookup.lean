import Patty.Atomic
import Patty.Lib.Keyed
import Patty.Lib.Run
import Mathlib.Data.Fin.VecNotation

/-! # Looking up a socket by its stations (`server.c`)

`sock_by_addr` and `sock_by_addrpair` look a socket up under the hash of its stations and compare nothing
else. Stations that are the same but for flags have the same key (`Addr.Alike.hashAddr`), and two different
stations may have it too: a lookup finds what was saved last under the key, and this is the socket of the
stations where no others share their key (`lookups_latest`). -/

namespace Patty

open Prog

/-! ## Stations -/

/-- The same station: the same six characters and SSID number, whatever the other bits. -/
def Addr.Alike (a b : Addr) : Prop :=
  (∀ i, charShr1 (a.callsign i) = charShr1 (b.callsign i)) ∧ addrSsidNumber a.ssid = addrSsidNumber b.ssid

instance : DecidableRel Addr.Alike := fun _ _ => inferInstanceAs (Decidable (_ ∧ _))

namespace Addr.Alike

variable {a b c d : Addr}

theorem symm (h : a.Alike b) : b.Alike a := ⟨fun i => (h.1 i).symm, h.2.symm⟩

/-- The hash sees the characters and the SSID number, and nothing else. -/
theorem addrHash (h : a.Alike b) (x : UInt32) : addrHash x a = addrHash x b := by
  have hchars : (List.ofFn a.callsign).map charShr1 = (List.ofFn b.callsign).map charShr1 := by
    rw [List.map_ofFn, List.map_ofFn]
    exact congrArg List.ofFn (funext h.1)
  have hfold (cs : List UInt8) : cs.foldl (fun h c => hashByte h (charShr1 c)) x =
      (cs.map charShr1).foldl hashByte x := (List.foldl_map ..).symm
  simp only [Patty.addrHash, hfold, hchars, h.2]

theorem hashAddr (h : a.Alike b) : hashAddr a = hashAddr b := by
  simp only [Patty.hashAddr, h.addrHash]

theorem hashAddrpair (h : a.Alike b) (h' : c.Alike d) : hashAddrpair a c = hashAddrpair b d := by
  simp only [Patty.hashAddrpair, h.addrHash, h'.addrHash]

end Addr.Alike

/-! ## Saving -/

inductive Saving
  | saveLocal (p : Ptr) (s : Sock)
  | saveRemote (p : Ptr) (s : Sock)

/-- The tables of addresses, and the sockets that were saved in each, the latest first. -/
structure Saved where
  socksLocal : Dict UInt32 Ptr
  socksRemote : Dict UInt32 Ptr
  locals : List (Ptr × Sock)
  pairs : List (Ptr × Sock)

namespace Saved

def empty : Saved := ⟨∅, ∅, [], []⟩

/-- The server has these tables. -/
def In (t : Saved) (w : World) : Prop := w.socksLocal = t.socksLocal ∧ w.socksRemote = t.socksRemote

end Saved

/-- `sock_save_local` or `sock_save_remote`, in a server with the tables. -/
def SaveStep (t : Saved) (x : Saving) (t' : Saved) : Prop :=
  ∃ w w' ok, t.In w ∧ t'.In w' ∧
    match x with
    | .saveLocal p s => M.sockSaveLocal p s w = .ok (ok, w') ∧ t'.pairs = t.pairs ∧
        t'.locals = if ok then (p, s) :: t.locals else t.locals
    | .saveRemote p s => M.sockSaveRemote p s w = .ok (ok, w') ∧ t'.locals = t.locals ∧
        t'.pairs = if ok then (p, s) :: t.pairs else t.pairs

/-- The socket that a lookup finds has the stations: one that was saved last with their key, and the one
that was saved last for the stations themselves if no others that were saved share the key. -/
structure FindsLatest (saved : List (Ptr × Sock)) (key : Sock → UInt32) (k : UInt32) (own : Sock → Bool)
    (found : Option Ptr) : Prop where
  latest : found = (saved.find? fun x => key x.2 = k).map Prod.fst
  own : (∀ x ∈ saved, key x.2 = k → own x.2) → found = (saved.find? fun x => own x.2).map Prod.fst

/-- Whether the socket has the address. -/
def Sock.at (dest : Addr) (s : Sock) : Bool := s.localAddr.Alike dest

/-- Whether the socket has the pair of addresses. -/
def Sock.between (dest src : Addr) (s : Sock) : Bool := s.localAddr.Alike dest ∧ s.remote.Alike src

/-- The tables have what was saved last under each key. -/
structure Saved.Current (t : Saved) : Prop where
  locals : Latest (fun x : Ptr × Sock => hashAddr x.2.localAddr) Prod.fst t.socksLocal t.locals
  pairs : Latest (fun x : Ptr × Sock => hashAddrpair x.2.localAddr x.2.remote) Prod.fst t.socksRemote t.pairs

variable {t t' : Saved} {x : Saving} {w : World} {dest src dest' src' : Addr}

theorem Latest.saved {saved saved' : List (Ptr × Sock)} (key : Sock → UInt32) {d d' : Dict UInt32 Ptr} {p : Ptr}
    {s : Sock} {ok : Bool} (h : Latest (fun x : Ptr × Sock => key x.2) Prod.fst d saved)
    (hd : ok = true ∧ d' = d.insert (key s) p ∨ ok = false ∧ d' = d)
    (hsaved : saved' = if ok then (p, s) :: saved else saved) :
    Latest (fun x : Ptr × Sock => key x.2) Prod.fst d' saved' := by
  rcases hd with ⟨rfl, rfl⟩ | ⟨rfl, rfl⟩
  · rw [hsaved]
    exact h.insert (p, s)
  · rw [hsaved]
    exact h

/-- A call of either function adds to its table, if it succeeds, and leaves the other one alone. -/
theorem current_step (hstep : SaveStep t x t') (h : t.Current) : t'.Current := by
  obtain ⟨w, w', ok, ⟨hlocal, hremote⟩, ⟨hlocal', hremote'⟩, hsave⟩ := hstep
  obtain ⟨locals, pairs⟩ := h
  rw [← hlocal] at locals
  rw [← hremote] at pairs
  cases x with
  | saveLocal p s =>
    obtain ⟨hrun, hpairs, hlocals⟩ := hsave
    have hcore := (M.sockSaveLocal_spec.ok hrun).imp (fun h => And.intro h.1 h.2.2) fun h => And.intro h.1 h.2.1
    constructor
    · rw [← hlocal']
      exact Latest.saved (fun s => hashAddr s.localAddr) locals
        (hcore.imp (fun h => ⟨h.1, congrArg Core.socksLocal h.2⟩)
          fun h => ⟨h.1, congrArg Core.socksLocal h.2⟩) hlocals
    · have hsame : w'.socksRemote = w.socksRemote :=
        hcore.elim (fun h => congrArg Core.socksRemote h.2) fun h => congrArg Core.socksRemote h.2
      rw [← hremote', hsame, hpairs]
      exact pairs
  | saveRemote p s =>
    obtain ⟨hrun, hlocals, hpairs⟩ := hsave
    have hcore := (M.sockSaveRemote_spec.ok hrun).imp (fun h => And.intro h.1 h.2.2) fun h => And.intro h.1 h.2.1
    constructor
    · have hsame : w'.socksLocal = w.socksLocal :=
        hcore.elim (fun h => congrArg Core.socksLocal h.2) fun h => congrArg Core.socksLocal h.2
      rw [← hlocal', hsame, hlocals]
      exact locals
    · rw [← hremote']
      exact Latest.saved (fun s => hashAddrpair s.localAddr s.remote) pairs
        (hcore.imp (fun h => ⟨h.1, congrArg Core.socksRemote h.2⟩)
          fun h => ⟨h.1, congrArg Core.socksRemote h.2⟩) hpairs

/-- A lookup in a table that is current. -/
theorem Latest.findsLatest {saved : List (Ptr × Sock)} {key : Sock → UInt32} {d : Dict UInt32 Ptr} {k : UInt32}
    {own : Sock → Bool} (h : Latest (fun x : Ptr × Sock => key x.2) Prod.fst d saved)
    (hown : ∀ x ∈ saved, own x.2 → key x.2 = k) : FindsLatest saved key k own (d.lookup k) where
  latest := h k
  own hkey := by
    rw [h.lookup_of_iff (p := fun x => own x.2) fun x hx => ⟨hkey x hx, hown x hx⟩]
    simp only [Bool.decide_eq_true]

/-- For all contents of the tables that saving sockets with any addresses makes, and all addresses: a lookup
finds the socket that was saved last under the key of the stations, which is the one saved last for the
stations themselves unless another station that was saved has the same key. What the other bits of the
addresses are makes no difference. -/
theorem lookups_latest (h : Run SaveStep (fun _ _ => True) .empty t) (hw : t.In w) (dest src : Addr) :
    (∃ found, M.sockByAddr dest w = .ok (found, w) ∧
      FindsLatest t.locals (fun s => hashAddr s.localAddr) (hashAddr dest) (Sock.at dest) found) ∧
    (∃ found, M.sockByAddrpair dest src w = .ok (found, w) ∧
      FindsLatest t.pairs (fun s => hashAddrpair s.localAddr s.remote) (hashAddrpair dest src)
        (Sock.between dest src) found) ∧
    ∀ dest' src', dest'.Alike dest → src'.Alike src → M.sockByAddr dest' w = M.sockByAddr dest w ∧
      M.sockByAddrpair dest' src' w = M.sockByAddrpair dest src w := by
  have hcurrent : t.Current := h.invariant (fun _ _ _ ht _ hst => current_step hst ht) ⟨.empty, .empty⟩
  obtain ⟨locals, pairs⟩ := hcurrent
  rw [← hw.1] at locals
  rw [← hw.2] at pairs
  refine ⟨⟨_, rfl, ?_⟩, ⟨_, rfl, ?_⟩, fun dest' src' hdest hsrc => ⟨?_, ?_⟩⟩
  · refine Latest.findsLatest locals fun x _ hx => ?_
    exact (of_decide_eq_true hx : x.2.localAddr.Alike dest).hashAddr
  · refine Latest.findsLatest pairs fun x _ hx => ?_
    obtain ⟨hdest, hsrc⟩ : x.2.localAddr.Alike dest ∧ x.2.remote.Alike src := of_decide_eq_true hx
    exact hdest.hashAddrpair hsrc
  · rw [M.sockByAddr, M.sockByAddr, hdest.hashAddr]
  · rw [M.sockByAddrpair, M.sockByAddrpair, hdest.hashAddrpair hsrc]

/-! ## Stations with the same key -/

/-- The address of a callsign, with the SSID 0. -/
def Addr.ofCall (call : Fin 6 → UInt8) : Addr := ⟨fun i => call i <<< 1, 0⟩

def station060164 : Addr := .ofCall ![0x30, 0x36, 0x30, 0x31, 0x36, 0x34]

def station064400 : Addr := .ofCall ![0x30, 0x36, 0x34, 0x34, 0x30, 0x30]

def station000000 : Addr := .ofCall ![0x30, 0x30, 0x30, 0x30, 0x30, 0x30]

def station003200 : Addr := .ofCall ![0x30, 0x30, 0x33, 0x32, 0x30, 0x30]

def station040040 : Addr := .ofCall ![0x30, 0x34, 0x30, 0x30, 0x34, 0x30]

/-- A socket that listens at 060164. -/
def listener060164 : Sock := { Sock.zero with localAddr := station060164 }

/-- A socket of the link between 000000 and 003200. -/
def link003200 : Sock := { Sock.zero with localAddr := station000000, remote := station003200 }

/-- The tables with the first one, and with both. -/
def savedListener : Saved :=
  ⟨(∅ : Dict UInt32 Ptr).insert (hashAddr station060164) 0, ∅, [(0, listener060164)], []⟩

def savedBoth : Saved :=
  ⟨(∅ : Dict UInt32 Ptr).insert (hashAddr station060164) 0,
    (∅ : Dict UInt32 Ptr).insert (hashAddrpair station000000 station003200) 1,
    [(0, listener060164)], [(1, link003200)]⟩

def Saved.world (t : Saved) : World := { World.bare with socksLocal := t.socksLocal, socksRemote := t.socksRemote }

theorem run_savedBoth : Run SaveStep (fun _ _ => True) .empty savedBoth := by
  have hlocal : SaveStep .empty (.saveLocal 0 listener060164) savedListener :=
    ⟨Saved.empty.world, savedListener.world, true, ⟨rfl, rfl⟩, ⟨rfl, rfl⟩, rfl, rfl, rfl⟩
  have hremote : SaveStep savedListener (.saveRemote 1 link003200) savedBoth :=
    ⟨savedListener.world, savedBoth.world, true, ⟨rfl, rfl⟩, ⟨rfl, rfl⟩, rfl, rfl, rfl⟩
  exact .tail (.single trivial hlocal) trivial hremote

/-- The socket at 060164 is found. -/
theorem lookups_060164 : M.sockByAddr station060164 savedBoth.world = .ok (some 0, savedBoth.world) := by
  obtain ⟨⟨found, hfound, hlatest⟩, -, -⟩ :=
    lookups_latest run_savedBoth (w := savedBoth.world) ⟨rfl, rfl⟩ station060164 station060164
  have hlast : (savedBoth.locals.find? fun x => hashAddr x.2.localAddr = hashAddr station060164).map Prod.fst =
      some 0 := by decide
  rw [hfound, hlatest.latest]
  exact congrArg (fun found => Except.ok (found, savedBoth.world)) hlast

theorem station064400_key : hashAddr station064400 = hashAddr station060164 := by decide

theorem station040040_key :
    hashAddrpair station000000 station040040 = hashAddrpair station000000 station003200 := by decide

/-- Frames for 064400 reach the socket at 060164, and those from 040040 the link with 003200. -/
theorem not_lookups_own :
    ∃ t w, Run SaveStep (fun _ _ => True) .empty t ∧ t.In w ∧
      (M.sockByAddr station064400 w = .ok (some 0, w) ∧ ∀ x ∈ t.locals, ¬x.2.at station064400) ∧
      M.sockByAddrpair station000000 station040040 w = .ok (some 1, w) ∧
      ∀ x ∈ t.pairs, ¬x.2.between station000000 station040040 := by
  refine ⟨savedBoth, savedBoth.world, run_savedBoth, ⟨rfl, rfl⟩, ⟨?_, ?_⟩, ?_, ?_⟩
  · have hkey : savedBoth.socksLocal.lookup (hashAddr station060164) = some 0 := by decide
    rw [← station064400_key] at hkey
    exact congrArg (fun found => Except.ok (found, savedBoth.world)) hkey
  · decide
  · have hkey : savedBoth.socksRemote.lookup (hashAddrpair station000000 station003200) = some 1 := by decide
    rw [← station040040_key] at hkey
    exact congrArg (fun found => Except.ok (found, savedBoth.world)) hkey
  · decide

end Patty
