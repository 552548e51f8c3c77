import Patty.Place

/-! # The tables of addresses and the sockets in them

A socket that listens is found through its local address, and one that waits for a connection or has
one through its pair of addresses. Where this is so, there is only one of a kind
(`Filed.atMostOne`). -/

namespace Patty

open Prog

/-- The sockets and the tables of addresses. -/
structure Registry where
  heap : Ptr → Option Sock
  next : Ptr
  socksLocal : Dict UInt32 Ptr
  socksRemote : Dict UInt32 Ptr

def Core.registry (c : Core) : Registry := ⟨c.heap, c.next, c.socksLocal, c.socksRemote⟩

def World.registry (w : World) : Registry := w.core.registry

/-- The socket belongs to a pair of addresses: it waits for a connection or has one. -/
def SockState.connecting : SockState → Bool
  | .pendingAccept | .pendingConnect | .established => true
  | _ => false

namespace Sock

def localKey (s : Sock) : UInt32 := hashAddr s.localAddr

def pairKey (s : Sock) : UInt32 := hashAddrpair s.localAddr s.remote

end Sock

namespace Registry

variable {c : Registry} {p q : Ptr} {s s' t : Sock}

/-- No two sockets listen on an address, and no two belong to a pair of addresses. -/
structure AtMostOne (c : Registry) : Prop where
  listening : ∀ p q s t, c.heap p = some s → c.heap q = some t → s.state = .listening →
    t.state = .listening → s.localAddr.Same t.localAddr → p = q
  connecting : ∀ p q s t, c.heap p = some s → c.heap q = some t → s.state.connecting →
    t.state.connecting → s.localAddr.Same t.localAddr → s.remote.Same t.remote → p = q

/-- The sockets that listen, wait for a connection or have one are found through the tables. -/
structure Filed (c : Registry) : Prop where
  listening : ∀ p s, c.heap p = some s → s.state = .listening → c.socksLocal.lookup s.localKey = some p
  connecting : ∀ p s, c.heap p = some s → s.state.connecting → c.socksRemote.lookup s.pairKey = some p

/-- The invariant: besides, all sockets are STREAM sockets, and those that listen have an address. -/
structure Registered (c : Registry) : Prop extends c.Filed where
  fresh : ∀ p, c.next ≤ p → c.heap p = none
  stream : ∀ p s, c.heap p = some s → s.type = .stream
  bound : ∀ p s, c.heap p = some s → s.state = .listening → s.localAddr.isSet

theorem Filed.atMostOne (h : c.Filed) : c.AtMostOne where
  listening p q s t hs ht hls hlt hsame := by
    have hp := h.listening p s hs hls
    rw [Sock.localKey, hsame.hashAddr] at hp
    exact Option.some.inj (hp.symm.trans (h.listening q t ht hlt))
  connecting p q s t hs ht hcs hct hl hr := by
    have hp := h.connecting p s hs hcs
    rw [Sock.pairKey, hl.hashAddrpair hr] at hp
    exact Option.some.inj (hp.symm.trans (h.connecting q t ht hct))

/-! ## One socket aside -/

/-- The registry without the socket `p`. -/
def drop (c : Registry) (p : Ptr) : Registry := { c with heap := Function.update c.heap p none }

/-- The registry with `s` under the pointer `p`. -/
def store (c : Registry) (p : Ptr) (s : Sock) : Registry :=
  { c with heap := Function.update c.heap p (some s) }

theorem drop_store : (c.store p s).drop p = c.drop p := by
  simp only [store, drop, Function.update_idem]

@[simp] theorem heap_drop_self : (c.drop p).heap p = none := Function.update_self ..

theorem heap_drop (h : q ≠ p) : (c.drop p).heap q = c.heap q := Function.update_of_ne h ..

theorem heap_drop_some (h : (c.drop p).heap q = some t) : q ≠ p ∧ c.heap q = some t := by
  have hne : q ≠ p := by
    rintro rfl
    rw [heap_drop_self] at h
    cases h
  exact ⟨hne, heap_drop hne ▸ h⟩

theorem Registered.drop (h : c.Registered) (p : Ptr) : (c.drop p).Registered where
  listening q t ht := h.listening q t (heap_drop_some ht).2
  connecting q t ht := h.connecting q t (heap_drop_some ht).2
  fresh q hq := by
    by_cases hne : q = p
    · rw [hne, heap_drop_self]
    · rw [heap_drop hne]
      exact h.fresh q hq
  stream q t ht := h.stream q t (heap_drop_some ht).2
  bound q t ht := h.bound q t (heap_drop_some ht).2

/-- No socket but `p` listens under the key. -/
def NoListener (c : Registry) (p : Ptr) (key : UInt32) : Prop :=
  ∀ q t, q ≠ p → c.heap q = some t → t.state = .listening → t.localKey ≠ key

/-- No socket but `p` belongs to a pair of addresses under the key. -/
def NoPair (c : Registry) (p : Ptr) (key : UInt32) : Prop :=
  ∀ q t, q ≠ p → c.heap q = some t → t.state.connecting → t.pairKey ≠ key

/-- All is well but for the socket `p`, which is `s`: it may be missing in the tables. -/
structure Aside (c : Registry) (p : Ptr) (s : Sock) : Prop where
  rest : (c.drop p).Registered
  sock : c.heap p = some s
  stream : s.type = .stream
  lt : p < c.next
  bound : s.state = .listening → s.localAddr.isSet
  noListener : s.state = .listening → c.NoListener p s.localKey
  noPair : s.state.connecting → c.NoPair p s.pairKey

namespace Aside

theorem atMostOne (h : c.Aside p s) : c.AtMostOne where
  listening q r t u ht hu hlt hlu hsame := by
    have hone {q r : Ptr} {t u : Sock} (ht : c.heap q = some t) (hu : c.heap r = some u)
        (hlt : t.state = .listening) (hlu : u.state = .listening)
        (hsame : t.localAddr.Same u.localAddr) (hq : q = p) : q = r := by
      by_contra hne
      subst hq
      obtain rfl := Option.some.inj (h.sock.symm.trans ht)
      exact h.noListener hlt r u (Ne.symm hne) hu hlu hsame.symm.hashAddr
    by_cases hq : q = p
    · exact hone ht hu hlt hlu hsame hq
    · by_cases hr : r = p
      · exact (hone hu ht hlu hlt hsame.symm hr).symm
      · exact h.rest.atMostOne.listening q r t u ((heap_drop hq).trans ht) ((heap_drop hr).trans hu) hlt
          hlu hsame
  connecting q r t u ht hu hct hcu hl hr := by
    have hone {q r : Ptr} {t u : Sock} (ht : c.heap q = some t) (hu : c.heap r = some u)
        (hct : t.state.connecting) (hcu : u.state.connecting) (hl : t.localAddr.Same u.localAddr)
        (hr : t.remote.Same u.remote) (hq : q = p) : q = r := by
      by_contra hne
      subst hq
      obtain rfl := Option.some.inj (h.sock.symm.trans ht)
      exact h.noPair hct r u (Ne.symm hne) hu hcu (hl.symm.hashAddrpair hr.symm)
    by_cases hq : q = p
    · exact hone ht hu hct hcu hl hr hq
    · by_cases hp : r = p
      · exact (hone hu ht hcu hct hl.symm hr.symm hp).symm
      · exact h.rest.atMostOne.connecting q r t u ((heap_drop hq).trans ht) ((heap_drop hp).trans hu) hct
          hcu hl hr

/-- With its entry, all is well. -/
theorem registered (h : c.Aside p s)
    (hl : s.state = .listening → c.socksLocal.lookup s.localKey = some p)
    (hc : s.state.connecting → c.socksRemote.lookup s.pairKey = some p) : c.Registered where
  listening q t ht hlt := by
    by_cases hq : q = p
    · subst hq
      obtain rfl := Option.some.inj (h.sock.symm.trans ht)
      exact hl hlt
    · exact h.rest.listening q t ((heap_drop hq).trans ht) hlt
  connecting q t ht hct := by
    by_cases hq : q = p
    · subst hq
      obtain rfl := Option.some.inj (h.sock.symm.trans ht)
      exact hc hct
    · exact h.rest.connecting q t ((heap_drop hq).trans ht) hct
  fresh q hq := by
    have hne : q ≠ p := (lt_of_lt_of_le h.lt hq).ne'
    exact (heap_drop hne).symm.trans (h.rest.fresh q hq)
  stream q t ht := by
    by_cases hq : q = p
    · subst hq
      obtain rfl := Option.some.inj (h.sock.symm.trans ht)
      exact h.stream
    · exact h.rest.stream q t ((heap_drop hq).trans ht)
  bound q t ht hlt := by
    by_cases hq : q = p
    · subst hq
      obtain rfl := Option.some.inj (h.sock.symm.trans ht)
      exact h.bound hlt
    · exact h.rest.bound q t ((heap_drop hq).trans ht) hlt

end Aside

/-! ## What can change -/

/-- `s'` can take the place of `s`: it listens, or belongs to a pair of addresses, only as `s` does. -/
structure Stays (s s' : Sock) : Prop where
  type : s'.type = s.type
  listening : s'.state = .listening → s.state = .listening ∧ s'.localAddr = s.localAddr
  connecting : s'.state.connecting →
    s.state.connecting ∧ s'.localAddr = s.localAddr ∧ s'.remote = s.remote

theorem Stays.of_mode {m : SockMode} (h : s'.place = { s.place with mode := m }) : Stays s s' := by
  obtain ⟨htype, hstate, -, hlocal, hremote, -⟩ := Place.mk.inj h
  have hstate : s'.state = s.state := hstate
  exact ⟨htype, fun hl => ⟨hstate ▸ hl, hlocal⟩, fun hc => ⟨hstate ▸ hc, hlocal, hremote⟩⟩

theorem Stays.of_place (h : s'.place = s.place) : Stays s s' := .of_mode (m := s.mode) h

theorem Stays.localKey (hs : Stays s s') (hl : s'.state = .listening) :
    s.state = .listening ∧ s'.localKey = s.localKey :=
  ⟨(hs.listening hl).1, congrArg hashAddr (hs.listening hl).2⟩

theorem Stays.pairKey (hs : Stays s s') (hc : s'.state.connecting) :
    s.state.connecting ∧ s'.pairKey = s.pairKey := by
  obtain ⟨hc, hlocal, hremote⟩ := hs.connecting hc
  exact ⟨hc, congrArg₂ hashAddrpair hlocal hremote⟩

theorem heap_store (h : q ≠ p) : (c.store p s).heap q = c.heap q := Function.update_of_ne h ..

@[simp] theorem heap_store_self : (c.store p s).heap p = some s := Function.update_self ..

theorem NoListener.store {key : UInt32} (h : c.NoListener p key) : (c.store p s).NoListener p key :=
  fun q t hq ht => h q t hq ((heap_store hq).symm.trans ht)

theorem NoPair.store {key : UInt32} (h : c.NoPair p key) : (c.store p s).NoPair p key :=
  fun q t hq ht => h q t hq ((heap_store hq).symm.trans ht)

theorem Registered.lt (h : c.Registered) (hp : c.heap p = some s) : p < c.next := by
  by_contra hle
  have hnone := h.fresh p (not_lt.mp hle)
  rw [hp] at hnone
  cases hnone

/-- A socket is put aside, with changes. -/
theorem Aside.of_drop (hrest : (c.drop p).Registered) (hlt : p < c.next) (htype : s.type = .stream)
    (hbound : s.state = .listening → s.localAddr.isSet)
    (hl : s.state = .listening → c.NoListener p s.localKey)
    (hc : s.state.connecting → c.NoPair p s.pairKey) : (c.store p s).Aside p s where
  rest := by
    rw [drop_store]
    exact hrest
  sock := heap_store_self
  stream := htype
  lt := hlt
  bound := hbound
  noListener hs := (hl hs).store
  noPair hs := (hc hs).store

theorem Registered.aside (h : c.Registered) (hp : c.heap p = some s) (htype : s'.type = s.type)
    (hbound : s'.state = .listening → s'.localAddr.isSet)
    (hl : s'.state = .listening → c.NoListener p s'.localKey)
    (hc : s'.state.connecting → c.NoPair p s'.pairKey) : (c.store p s').Aside p s' :=
  .of_drop (h.drop p) (h.lt hp) (htype.trans (h.stream p s hp)) hbound hl hc

theorem store_self (hp : c.heap p = some s) : c.store p s = c := by
  have hheap : Function.update c.heap p (some s) = c.heap := by rw [← hp, Function.update_eq_self]
  rw [store, hheap]

theorem Aside.of_stays (h : c.Aside p s) (hs : Stays s s') : (c.store p s').Aside p s' := by
  refine .of_drop h.rest h.lt (hs.type.trans h.stream) (fun hl => ?_) (fun hl => ?_) fun hc => ?_
  · obtain ⟨hl, hlocal⟩ := hs.listening hl
    rw [hlocal]
    exact h.bound hl
  · obtain ⟨hl, hkey⟩ := hs.localKey hl
    rw [hkey]
    exact h.noListener hl
  · obtain ⟨hc, hkey⟩ := hs.pairKey hc
    rw [hkey]
    exact h.noPair hc

theorem Registered.noListener (h : c.Registered) (hp : c.heap p = some s) (hs : s.state = .listening) :
    c.NoListener p s.localKey := by
  intro q t hq ht htl heq
  have hlookup := h.listening q t ht htl
  rw [heq, h.listening p s hp hs] at hlookup
  exact hq (Option.some.inj hlookup).symm

theorem Registered.noPair (h : c.Registered) (hp : c.heap p = some s) (hs : s.state.connecting) :
    c.NoPair p s.pairKey := by
  intro q t hq ht htc heq
  have hlookup := h.connecting q t ht htc
  rw [heq, h.connecting p s hp hs] at hlookup
  exact hq (Option.some.inj hlookup).symm

theorem Registered.aside_self (h : c.Registered) (hp : c.heap p = some s) : c.Aside p s := by
  have haside := h.aside hp rfl (h.bound p s hp) (h.noListener hp) (h.noPair hp)
  rw [store_self hp] at haside
  exact haside

theorem Registered.store (h : c.Registered) (hp : c.heap p = some s) (hs : Stays s s') :
    (c.store p s').Registered := by
  refine ((h.aside_self hp).of_stays hs).registered (fun hl => ?_) fun hc => ?_
  · obtain ⟨hl, hkey⟩ := hs.localKey hl
    rw [hkey]
    exact h.listening p s hp hl
  · obtain ⟨hc, hkey⟩ := hs.pairKey hc
    rw [hkey]
    exact h.connecting p s hp hc

/-- The registry with the entry of a local address. -/
def insertLocal (c : Registry) (key : UInt32) (p : Ptr) : Registry :=
  { c with socksLocal := c.socksLocal.insert key p }

/-- The registry with the entry of a pair of addresses. -/
def insertRemote (c : Registry) (key : UInt32) (p : Ptr) : Registry :=
  { c with socksRemote := c.socksRemote.insert key p }

theorem Registered.insertLocal {key : UInt32} (h : (c.drop p).Registered) (hl : c.NoListener p key) :
    ((c.insertLocal key p).drop p).Registered where
  listening q t ht hlt := by
    obtain ⟨hq, ht'⟩ := heap_drop_some ht
    exact (AList.lookup_insert_ne (hl q t hq ht' hlt)).trans (h.listening q t ht hlt)
  connecting := h.connecting
  fresh := h.fresh
  stream := h.stream
  bound := h.bound

theorem Registered.insertRemote {key : UInt32} (h : (c.drop p).Registered) (hc : c.NoPair p key) :
    ((c.insertRemote key p).drop p).Registered where
  listening := h.listening
  connecting q t ht hct := by
    obtain ⟨hq, ht'⟩ := heap_drop_some ht
    exact (AList.lookup_insert_ne (hc q t hq ht' hct)).trans (h.connecting q t ht hct)
  fresh := h.fresh
  stream := h.stream
  bound := h.bound

theorem Aside.insertLocal {key : UInt32} (h : c.Aside p s) (hl : c.NoListener p key) :
    (c.insertLocal key p).Aside p s :=
  ⟨.insertLocal h.rest hl, h.sock, h.stream, h.lt, h.bound, h.noListener, h.noPair⟩

theorem Aside.insertRemote {key : UInt32} (h : c.Aside p s) (hc : c.NoPair p key) :
    (c.insertRemote key p).Aside p s :=
  ⟨.insertRemote h.rest hc, h.sock, h.stream, h.lt, h.bound, h.noListener, h.noPair⟩

/-- A new socket that neither listens nor belongs to a pair of addresses yet. -/
theorem Registered.grow (h : c.Registered) (hstream : s.type = .stream)
    (hl : s.state ≠ .listening) (hc : s.state.connecting = false) :
    Registered { c with heap := Function.update c.heap c.next (some s), next := c.next + 1 } := by
  have hold {q : Ptr} {t : Sock} (ht : Function.update c.heap c.next (some s) q = some t) :
      q = c.next ∧ t = s ∨ c.heap q = some t := by
    by_cases hq : q = c.next
    · rw [hq, Function.update_self] at ht
      exact .inl ⟨hq, (Option.some.inj ht).symm⟩
    · rw [Function.update_of_ne hq] at ht
      exact .inr ht
  constructor
  · constructor
    · intro q t ht hlt
      rcases hold ht with ⟨-, rfl⟩ | ht
      · exact absurd hlt hl
      · exact h.listening q t ht hlt
    · intro q t ht hct
      rcases hold ht with ⟨-, rfl⟩ | ht
      · rw [hc] at hct
        cases hct
      · exact h.connecting q t ht hct
  · intro q hq
    have hlt : c.next < q := hq
    exact (Function.update_of_ne hlt.ne' ..).trans (h.fresh q hlt.le)
  · intro q t ht
    rcases hold ht with ⟨-, rfl⟩ | ht
    · exact hstream
    · exact h.stream q t ht
  · intro q t ht hlt
    rcases hold ht with ⟨-, rfl⟩ | ht
    · exact absurd hlt hl
    · exact h.bound q t ht hlt

end Registry

end Patty
