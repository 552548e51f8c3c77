import Patty.Atomic
import Patty.Isolation
import Patty.Lib.Run

/-! # Promiscuous descriptors (`if.c`, `sock.c`)

An interface keeps the descriptors of the sockets that get a copy of what it sends. A RAW socket is entered
when it is bound in the state PROMISC, and taken off the interface it has when it is destroyed. Binding it to
another interface leaves it entered with the one before, so the entries are those of the live sockets exactly
as long as no such socket is bound to another interface (`promiscFds_iff`). -/

namespace Patty

open Prog

/-! ## Sockets and entries -/

/-- The entries of each interface. -/
def World.promisc (w : World) : List (Dict Nat Unit) := w.ifaces.map (·.promiscFds)

/-- The sockets in memory, the open descriptors and the entries of the interfaces. -/
structure Holdings where
  heap : Ptr → Option Sock
  next : Ptr
  fds : List Nat
  promisc : List (Dict Nat Unit)

def World.holdings (w : World) : Holdings := ⟨w.heap, w.next, w.fds, w.promisc⟩

/-- A RAW socket in the state PROMISC, bound to the interface `i`. -/
def Sock.PromiscOn (s : Sock) (i : Nat) : Prop := s.type = .raw ∧ s.state = .promisc ∧ s.iface = some i

namespace Holdings

/-- The descriptor is in `promisc_fds` of the interface. -/
def Entered (t : Holdings) (i fd : Nat) : Prop := ∃ d, t.promisc[i]? = some d ∧ fd ∈ d

/-- The descriptor is that of a live RAW socket in the state PROMISC whose interface is `i`. -/
def Held (t : Holdings) (i fd : Nat) : Prop := ∃ p s, t.heap p = some s ∧ s.PromiscOn i ∧ s.fd = fd

/-- The entries are those of the live sockets. -/
def Matched (t : Holdings) : Prop := ∀ i fd, t.Entered i fd ↔ t.Held i fd

/-- What the kernel and the allocator grant: nothing is at a place that has not been given out, and each
socket has an open descriptor of its own. A promiscuous socket has an interface. -/
structure Sound (t : Holdings) : Prop where
  fresh : ∀ p, t.next ≤ p → t.heap p = none
  opened : ∀ p s, t.heap p = some s → s.fd ∈ t.fds
  distinct : ∀ p q s u, t.heap p = some s → t.heap q = some u → s.fd = u.fd → p = q
  bound : ∀ p s, t.heap p = some s → s.type = .raw → s.state = .promisc →
    ∃ i, s.iface = some i ∧ i < t.promisc.length

/-- Both. -/
structure Kept (t : Holdings) : Prop extends Sound t where
  matched : t.Matched

/-- The socket `p`, which is `s`, with its descriptor and its entry, is gone. -/
def destroy (t : Holdings) (p : Ptr) (s : Sock) : Holdings where
  heap := Function.update t.heap p none
  next := t.next
  fds := if 0 < s.fd then t.fds.erase s.fd else t.fds
  promisc := match s.iface with
    | some i => if s.type = .raw ∧ s.state = .promisc then t.promisc.modify i (·.erase s.fd) else t.promisc
    | none => t.promisc

/-- A new socket with a new descriptor. -/
def add (t : Holdings) (s : Sock) : Holdings :=
  { t with heap := Function.update t.heap t.next (some s), next := t.next + 1, fds := s.fd :: t.fds }

/-- The socket `p` becomes `s`, and is entered with the interface `i` if it is promiscuous. -/
def bind (t : Holdings) (p : Ptr) (s : Sock) (i : Nat) : Holdings where
  heap := Function.update t.heap p (some s)
  next := t.next
  fds := t.fds
  promisc := if s.state = .promisc then t.promisc.modify i (·.insert s.fd ()) else t.promisc

variable {t t' : Holdings} {p : Ptr} {s s' : Sock} {i j fd : Nat}

theorem entered_modify {f : Dict Nat Unit → Dict Nat Unit} (ht : t'.promisc = t.promisc.modify i f) :
    t'.Entered j fd ↔ ∃ d, t.promisc[j]? = some d ∧ fd ∈ if i = j then f d else d := by
  rw [Entered, ht, List.getElem?_modify]
  cases t.promisc[j]? with
  | none => simp
  | some d => simp

theorem Kept.of_eq (h : t.Kept) (ht : t' = t) : t'.Kept := ht ▸ h

/-! ## Destroying a socket -/

theorem Sound.destroy (h : t.Sound) (hp : t.heap p = some s) : (t.destroy p s).Sound := by
  have hheap : ∀ q u, (t.destroy p s).heap q = some u → q ≠ p ∧ t.heap q = some u := by
    intro q u hq
    rcases eq_or_ne q p with rfl | hne
    · exact absurd ((Function.update_self ..).symm.trans hq) nofun
    · exact ⟨hne, (Function.update_of_ne hne ..).symm.trans hq⟩
  constructor
  · intro q hq
    rcases eq_or_ne q p with rfl | hne
    · exact Function.update_self ..
    · exact (Function.update_of_ne hne ..).trans (h.fresh q hq)
  · intro q u hq
    obtain ⟨hne, hq⟩ := hheap q u hq
    have hfd : u.fd ≠ s.fd := fun he => hne (h.distinct q p u s hq hp he)
    rw [Holdings.destroy]
    dsimp only
    split
    · exact (List.mem_erase_of_ne hfd).mpr (h.opened q u hq)
    · exact h.opened q u hq
  · intro q r u v hq hr hfd
    exact h.distinct q r u v (hheap q u hq).2 (hheap r v hr).2 hfd
  · intro q u hq htype hstate
    obtain ⟨i, hi, hlt⟩ := h.bound q u (hheap q u hq).2 htype hstate
    refine ⟨i, hi, hlt.trans_eq ?_⟩
    rw [Holdings.destroy]
    dsimp only
    split
    · split
      · exact (List.length_modify ..).symm
      · rfl
    · rfl

theorem entered_destroy : (t.destroy p s).Entered j fd ↔ t.Entered j fd ∧ ¬(s.PromiscOn j ∧ s.fd = fd) := by
  by_cases hs : ∃ i, s.PromiscOn i
  · obtain ⟨i, htype, hstate, hi⟩ := hs
    have hmod : (t.destroy p s).promisc = t.promisc.modify i (·.erase s.fd) := by
      rw [Holdings.destroy, hi]
      exact if_pos ⟨htype, hstate⟩
    have hon : s.PromiscOn j ↔ i = j :=
      ⟨fun h => Option.some.inj (hi.symm.trans h.2.2), fun h => ⟨htype, hstate, h ▸ hi⟩⟩
    rw [entered_modify hmod, hon, Entered]
    constructor
    · rintro ⟨d, hd, hmem⟩
      split at hmem
      · obtain ⟨hne, hmem⟩ := AList.mem_erase.mp hmem
        exact ⟨⟨d, hd, hmem⟩, fun h => hne h.2.symm⟩
      · exact ⟨⟨d, hd, hmem⟩, fun h => absurd h.1 ‹_›⟩
    · rintro ⟨⟨d, hd, hmem⟩, hno⟩
      refine ⟨d, hd, ?_⟩
      split
      · exact AList.mem_erase.mpr ⟨fun h => hno ⟨‹_›, h.symm⟩, hmem⟩
      · exact hmem
  · have hsame : (t.destroy p s).promisc = t.promisc := by
      rw [Holdings.destroy]
      dsimp only
      split
      · exact if_neg fun h => hs ⟨_, h.1, h.2, ‹_›⟩
      · rfl
    rw [Entered, hsame]
    exact (and_iff_left fun h => hs ⟨j, h.1⟩).symm

theorem held_destroy (h : t.Sound) (hp : t.heap p = some s) :
    (t.destroy p s).Held j fd ↔ t.Held j fd ∧ ¬(s.PromiscOn j ∧ s.fd = fd) := by
  constructor
  · rintro ⟨q, u, hq, hon, rfl⟩
    have hne : q ≠ p := by
      rintro rfl
      exact absurd ((Function.update_self ..).symm.trans hq) nofun
    have hq : t.heap q = some u := (Function.update_of_ne hne ..).symm.trans hq
    exact ⟨⟨q, u, hq, hon, rfl⟩, fun hs => hne (h.distinct q p u s hq hp hs.2.symm)⟩
  · rintro ⟨⟨q, u, hq, hon, rfl⟩, hno⟩
    have hne : q ≠ p := by
      rintro rfl
      obtain rfl := Option.some.inj (hp.symm.trans hq)
      exact hno ⟨hon, rfl⟩
    exact ⟨q, u, (Function.update_of_ne hne ..).trans hq, hon, rfl⟩

theorem Kept.destroy (h : t.Kept) (hp : t.heap p = some s) : (t.destroy p s).Kept where
  toSound := h.toSound.destroy hp
  matched i fd := by rw [entered_destroy, held_destroy h.toSound hp, h.matched i fd]

/-! ## Making a socket -/

theorem Sound.more (h : t.Sound) (ht : (t'.heap, t'.next, t'.promisc) = (t.heap, t.next, t.promisc))
    (hfds : ∀ fd ∈ t.fds, fd ∈ t'.fds) : t'.Sound := by
  obtain ⟨hheap, ht⟩ := Prod.mk.inj ht
  obtain ⟨hnext, hpromisc⟩ := Prod.mk.inj ht
  exact ⟨hheap ▸ hnext ▸ h.fresh, hheap ▸ fun p s hp => hfds _ (h.opened p s hp), hheap ▸ h.distinct,
    hheap ▸ hpromisc ▸ h.bound⟩

theorem Kept.more (h : t.Kept) (ht : (t'.heap, t'.next, t'.promisc) = (t.heap, t.next, t.promisc))
    (hfds : ∀ fd ∈ t.fds, fd ∈ t'.fds) : t'.Kept := by
  refine ⟨h.toSound.more ht hfds, fun i fd => ?_⟩
  obtain ⟨hheap, ht⟩ := Prod.mk.inj ht
  obtain ⟨-, hpromisc⟩ := Prod.mk.inj ht
  rw [Entered, Held, hheap, hpromisc]
  exact h.matched i fd

theorem Sound.add (h : t.Sound) (hfd : s.fd ∉ t.fds) (hs : s.state ≠ .promisc) : (t.add s).Sound := by
  have hheap : ∀ q u, (t.add s).heap q = some u → q = t.next ∧ u = s ∨ q ≠ t.next ∧ t.heap q = some u := by
    intro q u hq
    rcases eq_or_ne q t.next with rfl | hne
    · exact .inl ⟨rfl, Option.some.inj (hq.symm.trans (Function.update_self ..))⟩
    · exact .inr ⟨hne, (Function.update_of_ne hne ..).symm.trans hq⟩
  have hother : ∀ q u, t.heap q = some u → u.fd ≠ s.fd := fun q u hq he => hfd (he ▸ h.opened q u hq)
  constructor
  · intro q hq
    have hlt : t.next < q := hq
    exact (Function.update_of_ne hlt.ne' ..).trans (h.fresh q hlt.le)
  · intro q u hq
    rcases hheap q u hq with ⟨-, rfl⟩ | ⟨-, hq⟩
    · exact List.mem_cons_self
    · exact List.mem_cons_of_mem _ (h.opened q u hq)
  · intro q r u v hq hr hsame
    rcases hheap q u hq with ⟨hqn, hu⟩ | ⟨-, hqo⟩ <;> rcases hheap r v hr with ⟨hrn, hv⟩ | ⟨-, hro⟩
    · exact hqn.trans hrn.symm
    · exact absurd (hsame.symm.trans (congrArg Sock.fd hu)) (hother r v hro)
    · exact absurd (hsame.trans (congrArg Sock.fd hv)) (hother q u hqo)
    · exact h.distinct q r u v hqo hro hsame
  · intro q u hq htype hstate
    rcases hheap q u hq with ⟨-, rfl⟩ | ⟨-, hq⟩
    · exact absurd hstate hs
    · exact h.bound q u hq htype hstate

theorem Kept.add (h : t.Kept) (hfd : s.fd ∉ t.fds) (hs : s.state ≠ .promisc) : (t.add s).Kept := by
  refine ⟨h.toSound.add hfd hs, fun i fd => (h.matched i fd).trans ?_⟩
  constructor
  · rintro ⟨q, u, hq, hon, rfl⟩
    have hne : q ≠ t.next := by
      rintro rfl
      exact absurd ((h.fresh t.next le_rfl).symm.trans hq) nofun
    exact ⟨q, u, (Function.update_of_ne hne ..).trans hq, hon, rfl⟩
  · rintro ⟨q, u, hq, hon, rfl⟩
    rcases eq_or_ne q t.next with rfl | hne
    · obtain rfl := Option.some.inj (hq.symm.trans (Function.update_self ..))
      exact absurd hon.2.1 hs
    · exact ⟨q, u, (Function.update_of_ne hne ..).symm.trans hq, hon, rfl⟩

/-! ## Changing a socket -/

/-- A socket of memory after `p` has become `s'`. -/
theorem heap_update {q : Ptr} {u : Sock} (hq : Function.update t.heap p (some s') q = some u) :
    q = p ∧ u = s' ∨ q ≠ p ∧ t.heap q = some u := by
  rcases eq_or_ne q p with rfl | hne
  · exact .inl ⟨rfl, Option.some.inj (hq.symm.trans (Function.update_self ..))⟩
  · exact .inr ⟨hne, (Function.update_of_ne hne ..).symm.trans hq⟩

theorem Sound.update (h : t.Sound) (hp : t.heap p = some s) (hfd : s'.fd = s.fd)
    (hbound : s'.type = .raw → s'.state = .promisc → ∃ i, s'.iface = some i ∧ i < t.promisc.length)
    (ht : (t'.heap, t'.next, t'.fds) = (Function.update t.heap p (some s'), t.next, t.fds))
    (hlen : t'.promisc.length = t.promisc.length) : t'.Sound := by
  obtain ⟨hheap, ht⟩ := Prod.mk.inj ht
  obtain ⟨hnext, hfds⟩ := Prod.mk.inj ht
  constructor
  · intro q hq
    have hne : q ≠ p := by
      rintro rfl
      exact absurd ((h.fresh q (hnext ▸ hq)).symm.trans hp) nofun
    rw [hheap, Function.update_of_ne hne]
    exact h.fresh q (hnext ▸ hq)
  · intro q u hq
    rw [hfds]
    rcases heap_update (hheap ▸ hq) with ⟨-, rfl⟩ | ⟨-, hq⟩
    · exact hfd ▸ h.opened p s hp
    · exact h.opened q u hq
  · intro q r u v hq hr hsame
    rcases heap_update (hheap ▸ hq) with ⟨hqp, rfl⟩ | ⟨-, hqo⟩ <;>
      rcases heap_update (hheap ▸ hr) with ⟨hrp, rfl⟩ | ⟨-, hro⟩
    · exact hqp.trans hrp.symm
    · exact hqp.trans (h.distinct p r s v hp hro (hfd.symm.trans hsame))
    · exact (h.distinct q p u s hqo hp (hsame.trans hfd)).trans hrp.symm
    · exact h.distinct q r u v hqo hro hsame
  · intro q u hq htype hstate
    rw [hlen]
    rcases heap_update (hheap ▸ hq) with ⟨-, rfl⟩ | ⟨-, hq⟩
    · exact hbound htype hstate
    · exact h.bound q u hq htype hstate

/-- A socket that is not promiscuous stays so. -/
theorem Kept.update (h : t.Kept) (hp : t.heap p = some s) (hfd : s'.fd = s.fd) (hs : s.type ≠ .raw)
    (hs' : s'.type ≠ .raw) : ({ t with heap := Function.update t.heap p (some s') } : Holdings).Kept := by
  refine ⟨h.toSound.update hp hfd (fun h => absurd h hs') rfl rfl, fun i fd => (h.matched i fd).trans ?_⟩
  constructor
  · rintro ⟨q, u, hq, hon, rfl⟩
    have hne : q ≠ p := by
      rintro rfl
      obtain rfl := Option.some.inj (hp.symm.trans hq)
      exact hs hon.1
    exact ⟨q, u, (Function.update_of_ne hne ..).trans hq, hon, rfl⟩
  · rintro ⟨q, u, hq, hon, rfl⟩
    rcases heap_update hq with ⟨-, rfl⟩ | ⟨-, hq⟩
    · exact absurd hon.1 hs'
    · exact ⟨q, u, hq, hon, rfl⟩

/-! ## Binding a socket -/

theorem Sound.bind (h : t.Sound) (hp : t.heap p = some s) (hfd : s'.fd = s.fd) (hi : s'.iface = some i)
    (hlt : i < t.promisc.length) : (t.bind p s' i).Sound := by
  refine h.update hp hfd (fun _ _ => ⟨i, hi, hlt⟩) rfl ?_
  rw [Holdings.bind]
  dsimp only
  split
  · exact List.length_modify ..
  · rfl

theorem held_bind (h : t.Sound) (hp : t.heap p = some s) (hfd : s'.fd = s.fd) :
    (t.bind p s' i).Held j fd ↔ t.Held j fd ∧ s.fd ≠ fd ∨ s'.PromiscOn j ∧ s.fd = fd := by
  constructor
  · rintro ⟨q, u, hq, hon, rfl⟩
    rcases heap_update hq with ⟨-, rfl⟩ | ⟨hne, hq⟩
    · exact .inr ⟨hon, hfd.symm⟩
    · exact .inl ⟨⟨q, u, hq, hon, rfl⟩, fun hsame => hne (h.distinct q p u s hq hp hsame.symm)⟩
  · rintro (⟨⟨q, u, hq, hon, rfl⟩, hne⟩ | ⟨hon, rfl⟩)
    · have hqp : q ≠ p := by
        rintro rfl
        obtain rfl := Option.some.inj (hp.symm.trans hq)
        exact hne rfl
      exact ⟨q, u, (Function.update_of_ne hqp ..).trans hq, hon, rfl⟩
    · exact ⟨p, s', Function.update_self .., hon, hfd⟩

theorem entered_insert (hlt : i < t.promisc.length) {fd' : Nat} :
    (∃ d, t.promisc[j]? = some d ∧ fd' ∈ if i = j then d.insert fd () else d) ↔
      t.Entered j fd' ∨ i = j ∧ fd' = fd := by
  constructor
  · rintro ⟨d, hd, hmem⟩
    split at hmem
    · rcases (AList.mem_insert _).mp hmem with rfl | hmem
      · exact .inr ⟨‹_›, rfl⟩
      · exact .inl ⟨d, hd, hmem⟩
    · exact .inl ⟨d, hd, hmem⟩
  · rintro (⟨d, hd, hmem⟩ | ⟨rfl, rfl⟩)
    · refine ⟨d, hd, ?_⟩
      split
      · exact (AList.mem_insert _).mpr (.inr hmem)
      · exact hmem
    · refine ⟨t.promisc[i], List.getElem?_eq_getElem hlt, ?_⟩
      rw [if_pos rfl]
      exact (AList.mem_insert _).mpr (.inl rfl)

theorem entered_bind (hs : s'.state = .promisc) (hlt : i < t.promisc.length) :
    (t.bind p s' i).Entered j fd ↔ t.Entered j fd ∨ i = j ∧ fd = s'.fd := by
  rw [entered_modify (if_pos hs)]
  exact entered_insert hlt

/-- Binding a RAW socket leaves the entries those of the live sockets exactly if it is not promiscuous on
another interface. -/
theorem matched_bind (h : t.Kept) (hp : t.heap p = some s) (hfd : s'.fd = s.fd)
    (hraw' : s'.type = .raw) (hstate : s.state = .promisc → s'.state = .promisc) (hi : s'.iface = some i)
    (hlt : i < t.promisc.length) : (t.bind p s' i).Matched ↔ ∀ j, s.PromiscOn j → i = j := by
  by_cases hs' : s'.state = .promisc
  · constructor
    · intro hm j hj
      have hin : t.Entered j s.fd := (h.matched j s.fd).mpr ⟨p, s, hp, hj, rfl⟩
      have hheld := (hm j s.fd).mp ((entered_bind hs' hlt).mpr (.inl hin))
      rcases (held_bind h.toSound hp hfd).mp hheld with ⟨-, hne⟩ | ⟨hon', -⟩
      · exact absurd rfl hne
      · exact Option.some.inj (hi.symm.trans hon'.2.2)
    · intro hstay j fd
      rw [entered_bind hs' hlt, held_bind h.toSound hp hfd, h.matched j fd, hfd]
      constructor
      · rintro (hheld | ⟨rfl, rfl⟩)
        · by_cases hsame : s.fd = fd
          · obtain ⟨q, u, hq, hon, rfl⟩ := hheld
            obtain rfl := h.distinct q p u s hq hp hsame.symm
            obtain rfl := Option.some.inj (hp.symm.trans hq)
            exact .inr ⟨⟨hraw', hs', hstay j hon ▸ hi⟩, rfl⟩
          · exact .inl ⟨hheld, hsame⟩
        · exact .inr ⟨⟨hraw', hs', hi⟩, rfl⟩
      · rintro (⟨hheld, -⟩ | ⟨hon, rfl⟩)
        · exact .inl hheld
        · exact .inr ⟨Option.some.inj (hi.symm.trans hon.2.2), rfl⟩
  · have hno : ∀ j, ¬s.PromiscOn j := fun j hj => hs' (hstate hj.2.1)
    refine iff_of_true (fun j fd => ?_) fun j hj => absurd hj (hno j)
    have hsame : (t.bind p s' i).promisc = t.promisc := if_neg hs'
    rw [held_bind h.toSound hp hfd, ← h.matched j fd, Entered, hsame, ← Entered]
    constructor
    · intro hin
      refine .inl ⟨hin, ?_⟩
      rintro rfl
      obtain ⟨q, u, hq, hon, hq'⟩ := (h.matched j s.fd).mp hin
      obtain rfl := h.distinct q p u s hq hp hq'
      obtain rfl := Option.some.inj (hp.symm.trans hq)
      exact hno j hon
    · rintro (⟨hin, -⟩ | ⟨hon, -⟩)
      · exact hin
      · exact absurd hon.2.1 hs'

end Holdings

/-! ## The calls -/

namespace M

variable {α : Type} {w : World} {t : Holdings} {p : Ptr} {s : Sock} {client fd : Nat} {m : Mem}

theorem holdings_unseen : Unseen World.holdings fun _ => True where
  errno _ _ := rfl
  sys _ _ := rfl
  log _ _ _ := rfl
  stats w i _ := congrArg (Holdings.mk w.heap w.next w.fds)
    (map_modify_same Iface.promiscFds (fun _ => by rfl) w.ifaces i)

theorem holdings_unlisted : Unlisted World.holdings := fun _ _ _ _ _ _ => rfl

theorem holdings_fdClear : Leaves World.holdings (fdClear fd) := .modify fun _ => rfl

/-- `m` keeps the entries those of the live sockets. -/
abbrev Matches (m : M α) : Prop := Keeping (fun w => w.holdings.Kept) m

theorem matches_leaves {m : M α} (h : Leaves World.holdings m) : Matches m :=
  .of_leaves h fun _ _ hw hk => hk.of_eq hw

theorem matches_respond {r : Response} : Matches (respond client r) := matches_leaves (holdings_unseen.respond trivial)

/-- `openpty` opens a descriptor that was not open. -/
theorem openpty_opens : wp openpty (fun a w' => match a with
    | none => w'.holdings = w.holdings
    | some x => x.1 ∉ w.holdings.fds ∧ w'.holdings = { w.holdings with fds := x.1 :: w.holdings.fds })
    (fun _ => True) w := by
  rw [openpty, wp_bind]
  refine holdings_unseen.answer.wp (fun a w₁ h₁ => ?_) fun _ => trivial
  cases a with
  | none => exact h₁
  | some a =>
    have hfds : w₁.fds = w.holdings.fds := congrArg Holdings.fds h₁
    refine ⟨?_, ?_⟩
    · rw [← hfds]
      exact freshFd_not_mem w₁.fds a.1
    · rw [← h₁]
      rfl

theorem matches_newSock (ht : t.Kept) (hfd : s.fd ∉ t.fds) (hs : s.state ≠ .promisc)
    (hw : w.holdings = { t with fds := s.fd :: t.fds }) :
    wp (some <$> newSock s) (fun _ w' => w'.holdings.Kept) (fun _ => True) w := by
  rw [wp_map, wp_newSock]
  have hadd := ht.add hfd hs
  rw [World.holdings, Holdings.mk.injEq] at hw
  obtain ⟨hheap, hnext, hfds, hpromisc⟩ := hw
  rw [World.holdings, World.setSock]
  dsimp only
  rw [hheap, hnext, hfds]
  rw [World.promisc] at hpromisc ⊢
  dsimp only
  rw [hpromisc]
  exact hadd

theorem initBufs_leaves : Leaves World.holdings (initBufs s) :=
  holdings_unseen.alloc.bind fun _ => .ite (holdings_unseen.alloc.bind fun _ => .ite
    (holdings_unseen.alloc.bind fun _ => .ite (holdings_unseen.junk.bind fun _ => Leaves.lift.bind fun _ => .pure)
      .pure) .pure) .pure

theorem matches_sockNew {proto : Nat} {type : SockType} : Matches (sockNew proto type) := by
  intro w hw
  rw [sockNew, wp_bind]
  refine holdings_unseen.alloc.wp (fun ok w₁ h₁ => ?_) fun _ => trivial
  rw [wp_ite]
  refine ⟨fun _ => ?_, fun _ => hw.of_eq h₁⟩
  rw [wp_bind]
  refine openpty_opens.post fun a w₂ h₂ => ?_
  cases a with
  | none => exact hw.of_eq (h₂.trans h₁)
  | some a =>
    obtain ⟨hnew, hopen⟩ := h₂
    rw [h₁] at hnew hopen
    -- the descriptor is left open where there is no memory for the buffers
    have hinit {s₀ : Sock} (hs₀ : s₀.place = newPlace type a.1) (htype : type ≠ .raw) : wp
        (initBufs s₀ >>= fun r => if r.1 then some <$> newSock r.2 else pure none : M (Option Ptr))
        (fun _ w' => w'.holdings.Kept) (fun _ => True) w₂ := by
      rw [wp_bind]
      refine (initBufs_place.and (initBufs_leaves.wp (fun _ _ h => h) fun _ => trivial)).post ?_
      rintro ⟨ok, s⟩ w₃ ⟨hplace, h₃⟩
      obtain ⟨-, hstate, -, -, -, hfd⟩ := Place.mk.inj (hplace.trans hs₀)
      rw [if_neg htype] at hstate
      dsimp only
      rw [wp_ite]
      constructor
      · intro _
        exact matches_newSock hw (hfd ▸ hnew) (hstate ▸ by decide) (by rw [h₃, hopen, hfd])
      · intro _
        exact hw.more (by rw [h₃, hopen]) fun fd hfd => by rw [h₃, hopen]; exact List.mem_cons_of_mem _ hfd
    have hfail {w₃ : World} (h : w₃.holdings = w₂.holdings) : wp (do
        closeFd a.1
        pure none : M (Option Ptr)) (fun _ w' => w'.holdings.Kept) (fun _ => True) w₃ := by
      rw [wp_bind, closeFd, wp_modify]
      refine hw.of_eq ?_
      rw [hopen, World.holdings, Holdings.mk.injEq] at h
      obtain ⟨hheap, hnext, hfds, hpromisc⟩ := h
      rw [World.holdings, Holdings.mk.injEq]
      refine ⟨hheap, hnext, ?_, hpromisc⟩
      dsimp only
      rw [hfds, List.erase_cons_head]
    have hdgram : SockState.closed ≠ .promisc := by decide
    have hestablished : SockState.established ≠ .promisc := by decide
    cases type with
    | dgram => exact matches_newSock hw hnew hdgram hopen
    | raw =>
      refine wp_bind.mpr (holdings_unseen.alloc.wp (fun ok₁ w₃ h₃ => ?_) fun _ => trivial)
      rw [wp_ite]
      refine ⟨fun _ => ?_, fun _ => hfail h₃⟩
      refine wp_bind.mpr (holdings_unseen.alloc.wp (fun ok₂ w₄ h₄ => ?_) fun _ => trivial)
      rw [wp_ite]
      refine ⟨fun _ => ?_, fun _ => hfail (h₄.trans h₃)⟩
      refine wp_bind.mpr (holdings_unseen.junk.wp (fun m w₅ h₅ => ?_) fun _ => trivial)
      exact matches_newSock hw hnew hestablished (h₅.trans (h₄.trans (h₃.trans hopen)))
    | stream => exact hinit rfl (by decide)
    | other n => exact hinit rfl (by simp)

/-! ## Destroying and closing -/

theorem leavePromisc_erases (p : Ptr) : wp (leavePromisc s) (fun _ w' => w'.holdings = { w.holdings with
    promisc := (w.holdings.destroy p s).promisc }) (fun _ => True) w := by
  rw [leavePromisc, Holdings.destroy]
  cases hi : s.iface with
  | none =>
    rw [wp_ite]
    exact ⟨fun _ => trivial, fun _ => rfl⟩
  | some i =>
    rw [wp_ite]
    constructor
    · intro hs
      dsimp only
      rw [if_pos hs, setIface, wp_modify]
      exact congrArg (Holdings.mk w.heap w.next w.fds) (map_modify Iface.promiscFds _ (fun _ => rfl) w.ifaces i)
    · intro hs
      dsimp only
      rw [if_neg hs]
      rfl

theorem sockDestroy_destroys : wp (sockDestroy p)
    (fun _ w' => ∃ s, w.heap p = some s ∧ w'.holdings = w.holdings.destroy p s) (fun _ => True) w := by
  rw [sockDestroy, wp_bind, wp_deref]
  refine ⟨fun s hp => ?_, fun _ => trivial⟩
  rw [wp_bind]
  refine (leavePromisc_erases p).post fun _ w₁ h₁ => ?_
  rw [wp_bind]
  have hclose : wp (closePty s) (fun _ w' => w'.holdings = { w.holdings with
      fds := (w.holdings.destroy p s).fds, promisc := (w.holdings.destroy p s).promisc }) (fun _ => True) w₁ := by
    rw [closePty, wp_ite]
    constructor
    · intro hpos
      rw [closeFd, wp_modify, Holdings.destroy]
      dsimp only
      rw [if_pos hpos]
      exact congrArg (fun t : Holdings => { t with fds := t.fds.erase s.fd }) h₁
    · intro hpos
      rw [wp_pure, h₁, Holdings.destroy]
      dsimp only
      rw [if_neg hpos]
  refine hclose.post fun _ w₂ h₂ => ?_
  rw [wp_freeSock]
  refine ⟨fun _ _ => ⟨s, hp, ?_⟩, fun _ => trivial⟩
  exact congrArg (fun t : Holdings => { t with heap := Function.update t.heap p none }) h₂

theorem matches_sockDestroy : Matches (sockDestroy p) := by
  intro w hw
  refine sockDestroy_destroys.post fun _ w' h => ?_
  obtain ⟨s, hp, h⟩ := h
  exact (hw.destroy hp).of_eq h

theorem matches_sockClose : Matches (sockClose p) := by
  refine Keeps.bind (matches_leaves leaves_deref) fun s =>
    (matches_leaves holdings_unlisted.deleteByState).bind fun _ => .ite (fun _ => ?_) fun _ => .pure
  refine Keeps.gets.bind fun c => ?_
  cases c with
  | none => exact .pure
  | some c =>
    refine .get_bind fun w _ => ?_
    cases w.socksByClient.lookup c with
    | none => exact .pure
    | some socks =>
      refine .ite (fun _ => Keeps.bind (.modify fun _ h => h) fun _ => .get_bind fun w' _ =>
        .ite (fun _ => Keeps.bind (.modify fun _ h => h) fun _ => ?_) fun _ => .pure) fun _ => .pure
      exact (matches_leaves holdings_fdClear).bind fun _ => matches_sockDestroy.bind fun _ => .pure

theorem matches_sockShutdown : Matches (sockShutdown p) := by
  intro w hw
  rw [sockShutdown, wp_bind, wp_deref]
  refine ⟨fun s hp => ?_, fun _ => trivial⟩
  rw [wp_bind, fdClear, wp_modify, wp_ite]
  refine ⟨fun _ => hw, fun hs => ?_⟩
  rw [not_or, not_not] at hs
  have hraw : s.type ≠ .raw := by rw [hs.1]; decide
  rw [wp_bind, wp_store]
  refine (holdings_unseen.frameSend (fun _ _ => trivial) fun _ _ => trivial).wp (fun _ w₁ h₁ => ?_)
    fun _ => trivial
  refine Holdings.Kept.of_eq ?_ h₁
  exact hw.update hp rfl hraw hraw

/-! ## The requests `socket` and `close` -/

theorem matches_socketRequest : Matches (socketRequest client m) := by
  refine Keeps.bind matches_sockNew fun r => ?_
  cases r with
  | none => exact .pure
  | some p =>
    refine (matches_leaves (holdings_unlisted.sockSave holdings_unseen.dictRoom)).bind fun _ =>
      .ite (fun _ => ?_) fun _ => matches_sockDestroy.bind fun _ => .pure
    exact (matches_leaves leaves_deref).bind fun _ => matches_respond

theorem matches_closeRequest : Matches (closeRequest client m) := by
  refine Keeps.bind .gets fun r => ?_
  cases r with
  | none => exact matches_respond
  | some p =>
    refine .get_bind fun w _ => ?_
    cases w.socksByClient.lookup client with
    | none => exact matches_respond
    | some socks =>
      refine matches_sockShutdown.bind fun _ => .ite (fun _ => .get_bind fun _ _ => matches_respond) fun _ => ?_
      exact matches_sockClose.bind fun _ => .ite (fun _ => matches_respond) fun _ => matches_respond

/-! ## Binding to an interface -/

variable {i : Nat}

/-- Memory is granted. -/
def HasMemory (w : World) : Prop := ∀ a ∈ w.sys.alloc, a = true

theorem dictRoom_granted {κ γ : Type} [DecidableEq κ] {d : Dict κ γ} {key : κ} (hw : HasMemory w) :
    wp (dictRoom d key) (fun ok w' => ok = true ∧ w'.holdings = w.holdings) (fun _ => True) w := by
  refine (dictRoom_spec.mono (fun _ _ h => h) nofun).and (holdings_unseen.dictRoom.wp (fun _ _ h => h)
    fun _ => trivial) |>.post fun ok w' h => ⟨?_, h.2⟩
  cases ok with
  | true => rfl
  | false => exact absurd (hw false (List.mem_of_head? h.1.2.2)) nofun

/-- The descriptor is entered, and the result is that of a failure: what is stored is a null pointer. -/
theorem ifPromiscAdd_adds (hw : HasMemory w) : wp (ifPromiscAdd i fd) (fun r w' => r = -1 ∧
    i < w.holdings.promisc.length ∧
    w'.holdings = { w.holdings with promisc := w.holdings.promisc.modify i (·.insert fd ()) }) (fun _ => True) w := by
  rw [ifPromiscAdd, wp_bind, wp_getIface]
  refine ⟨fun iface hiface => ?_, fun _ => trivial⟩
  have hlt : i < w.holdings.promisc.length :=
    (List.getElem?_eq_some_iff.mp hiface).1.trans_eq (List.length_map ..).symm
  have hnull : (iface.promiscGet fd).isSome = false := by
    rw [Iface.promiscGet]
    cases iface.promiscFds.lookup fd <;> rfl
  rw [if_neg (by rw [hnull]; nofun), wp_bind]
  refine (dictRoom_granted hw).post fun room w₁ h₁ => ?_
  obtain ⟨rfl, h₁⟩ := h₁
  rw [wp_bind, setIface, wp_modify]
  refine ⟨rfl, hlt, ?_⟩
  rw [← h₁]
  exact congrArg (Holdings.mk w₁.heap w₁.next w₁.fds) (map_modify Iface.promiscFds _ (fun _ => rfl) w₁.ifaces i)

theorem sockBindIf_enters (hw : HasMemory w) : wp (sockBindIf s i) (fun s' w' =>
    (∃ flags, s' = { s with iface := some i, flagsClasses := flags }) ∧ i < w.holdings.promisc.length ∧
    w'.holdings = { w.holdings with promisc :=
      if s.state = .promisc then w.holdings.promisc.modify i (·.insert s.fd ()) else w.holdings.promisc })
    (fun _ => True) w := by
  rw [sockBindIf, wp_bind, wp_getIface]
  refine ⟨fun iface hiface => ?_, fun _ => trivial⟩
  have hlt : i < w.holdings.promisc.length :=
    (List.getElem?_eq_some_iff.mp hiface).1.trans_eq (List.length_map ..).symm
  rw [wp_ite]
  refine ⟨fun hs => ?_, fun hs => ⟨⟨_, rfl⟩, hlt, by rw [if_neg hs]⟩⟩
  rw [wp_bind]
  refine (ifPromiscAdd_adds hw).post fun r w₁ h₁ => ⟨⟨_, rfl⟩, hlt, ?_⟩
  rw [if_pos hs]
  exact h₁.2.2

/-- The option names no interface, or it binds the socket to one. -/
theorem ifOption_binds (hw : HasMemory w) : wp (ifOption client p s m) (fun _ w' =>
    match ifGet w.ifaces (SetsockoptIf.ofMem m).name with
    | none => w'.holdings = w.holdings
    | some i => i < w.holdings.promisc.length ∧ ∃ s', s'.fd = s.fd ∧ s'.type = s.type ∧
        (s.state = .promisc → s'.state = .promisc) ∧ s'.iface = some i ∧ w'.holdings = w.holdings.bind p s' i)
    (fun _ => True) w := by
  rw [ifOption, wp_bind, wp_get]
  cases ifGet w.ifaces (SetsockoptIf.ofMem m).name with
  | none => exact (holdings_unseen.respond trivial).wp (fun _ _ h => h) fun _ => trivial
  | some i =>
    obtain ⟨s₁, hs₁, hfd, htype, hstate⟩ : ∃ s₁ : Sock, s₁ =
        (if (SetsockoptIf.ofMem m).state = sockPromisc then { s with state := .promisc } else s) ∧
        s₁.fd = s.fd ∧ s₁.type = s.type ∧ (s.state = .promisc → s₁.state = .promisc) := by
      refine ⟨_, rfl, ?_⟩
      split
      · exact ⟨rfl, rfl, fun _ => rfl⟩
      · exact ⟨rfl, rfl, fun h => h⟩
    dsimp only
    rw [← hs₁, wp_bind]
    refine (sockBindIf_enters hw).post fun s' w₁ h₁ => ?_
    obtain ⟨⟨flags, rfl⟩, hlt, h₁⟩ := h₁
    rw [wp_bind, wp_store, wp_bind, fdWatch, wp_modify]
    refine (holdings_unseen.respond trivial).wp (fun _ w₂ h₂ => ?_) fun _ => trivial
    refine ⟨hlt, { s₁ with iface := some i, flagsClasses := flags }, hfd, htype, hstate, rfl, h₂.trans ?_⟩
    exact congrArg (fun t : Holdings => { t with
      heap := Function.update t.heap p (some { s₁ with iface := some i, flagsClasses := flags }) }) h₁

theorem readOption_leaves {len size : Nat} :
    Leaves (fun w => (w.holdings, w.ifaces, w.sys.alloc)) (readOption client len size) := by
  have hstruct {bs : Bytes} : Leaves (fun w => (w.holdings, w.ifaces, w.sys.alloc)) (structOf bs) :=
    Leaves.bind (leaves_answer fun _ _ => rfl) fun _ => .pure
  refine Leaves.bind ?_ fun a => ?_
  · refine (leaves_answer fun _ _ => rfl).bind fun a => ?_
    cases a with
    | none => exact Leaves.get.bind fun _ => Leaves.bind (.modify fun _ => rfl) fun _ => .pure
    | some e => exact Leaves.bind (.modify fun _ => rfl) fun _ => .pure
  · cases a with
    | none => exact .pure
    | some bs => exact .ite .fault (hstruct.bind fun _ => .pure)

end M

/-- A `setsockopt` for an interface binds the RAW socket `p` to the interface `i`, where the value of the
option is `option`. -/
def World.Binds (w : World) (request : Mem) (option : Option Mem) (p : Ptr) (s : Sock) (i : Nat) : Prop :=
  w.socksByFd.lookup (SetsockoptRequest.ofMem request).fd = some p ∧ w.heap p = some s ∧ s.type = .raw ∧
    ∃ m, option = some m ∧ ifGet w.ifaces (SetsockoptIf.ofMem m).name = some i

/-- What a `setsockopt` for an interface does. -/
theorem M.setsockoptRequest_binds {w : World} {client : Nat} {request : Mem} {option : Option Mem}
    (hopt : (SetsockoptRequest.ofMem request).opt = PATTY_AX25_SOCK_IF) (hw : HasMemory w)
    (hread : ∀ o w₁, readOption client (SetsockoptRequest.ofMem request).len SetsockoptIf.size w = .ok (o, w₁) →
      o = option) :
    wp (setsockoptRequest client request) (fun _ w' =>
      (∀ p s i, ¬w.Binds request option p s i) ∧ w'.holdings = w.holdings ∨
      ∃ p s i s', w.Binds request option p s i ∧ i < w.holdings.promisc.length ∧ s'.fd = s.fd ∧ s'.type = s.type ∧
        (s.state = .promisc → s'.state = .promisc) ∧ s'.iface = some i ∧ w'.holdings = w.holdings.bind p s' i)
      (fun _ => True) w := by
  have hno : wp (respond client (.setsockopt (-1) .ebadf)) (fun _ w' => w'.holdings = w.holdings) (fun _ => True) w :=
    (holdings_unseen.respond trivial).wp (fun _ _ h => h) fun _ => trivial
  rw [setsockoptRequest, wp_bind, wp_sockByFd]
  cases hfd : w.socksByFd.lookup (SetsockoptRequest.ofMem request).fd with
  | none =>
    refine hno.post fun _ _ h => .inl ⟨fun p s i hb => ?_, h⟩
    exact absurd (hfd.symm.trans hb.1) nofun
  | some p =>
    dsimp only
    rw [if_neg (by rw [hopt]; decide), if_pos hopt, setsockoptIf, wp_bind, wp_deref]
    refine ⟨fun s hp => ?_, fun _ => trivial⟩
    have hsock : ∀ q u i, w.Binds request option q u i → q = p ∧ u = s := by
      intro q u i hb
      obtain rfl := Option.some.inj (hb.1.symm.trans hfd)
      exact ⟨rfl, Option.some.inj (hb.2.1.symm.trans hp)⟩
    rw [wp_ite]
    constructor
    · intro htype
      refine (holdings_unseen.respond trivial).wp (fun _ _ h => .inl ⟨fun q u i hb => ?_, h⟩) fun _ => trivial
      obtain ⟨rfl, rfl⟩ := hsock q u i hb
      exact htype hb.2.2.1
    · intro htype
      rw [not_not] at htype
      rw [withOption, wp_bind]
      refine wp_intro fun o w₁ h₁ => ?_
      obtain rfl := hread o w₁ h₁
      obtain ⟨hhold, hsame⟩ := Prod.mk.inj (readOption_leaves _ _ _ h₁)
      obtain ⟨hifaces, halloc⟩ := Prod.mk.inj hsame
      cases o with
      | none =>
        refine .inl ⟨fun q u i hb => ?_, hhold⟩
        obtain ⟨m, hm, -⟩ := hb.2.2.2
        cases hm
      | some m =>
        have hw₁ : HasMemory w₁ := by rw [HasMemory, halloc]; exact hw
        refine (ifOption_binds hw₁).post fun _ w' h => ?_
        rw [hifaces, hhold] at h
        cases hi : ifGet w.ifaces (SetsockoptIf.ofMem m).name with
        | none =>
          rw [hi] at h
          refine .inl ⟨fun q u i hb => ?_, h⟩
          obtain ⟨_, ⟨⟩, hi'⟩ := hb.2.2.2
          exact absurd (hi.symm.trans hi') nofun
        | some i =>
          rw [hi] at h
          obtain ⟨hlt, s', h⟩ := h
          exact .inr ⟨p, s, i, s', ⟨hfd, hp, htype, m, rfl, hi⟩, hlt, h⟩

/-! ## Runs -/

/-- A call of a client: its request, and for `setsockopt` what is read of the option. -/
inductive PromiscCall
  | socket (client : Nat) (request : Mem)
  | setIf (client : Nat) (request : Mem) (option : Option Mem)
  | close (client : Nat) (request : Mem)

def PromiscCall.run : PromiscCall → M Int
  | .socket client request => M.socketRequest client request
  | .setIf client request _ => M.setsockoptRequest client request
  | .close client request => M.closeRequest client request

/-- A `setsockopt` is one for an interface, and `option` is what it reads. -/
def PromiscCall.Reads (w : World) : PromiscCall → Prop
  | .setIf client request option => (SetsockoptRequest.ofMem request).opt = PATTY_AX25_SOCK_IF ∧
      ∀ o w', M.readOption client (SetsockoptRequest.ofMem request).len SetsockoptIf.size w = .ok (o, w') → o = option
  | _ => True

/-- The server when the clients have written what they have and the system answers as it does. -/
def World.asked (w : World) (sys : Sys) (inbox : Nat → Bytes) : World := { w with sys, inbox }

/-- The call returns, where memory is granted. -/
def PromiscStep (w : World) (x : PromiscCall) (w' : World) : Prop :=
  ∃ sys inbox r, M.HasMemory (w.asked sys inbox) ∧ x.Reads (w.asked sys inbox) ∧
    x.run (w.asked sys inbox) = .ok (r, w')

/-- The call does not bind a promiscuous socket to another interface than the one it has. -/
def World.Stays (w : World) : PromiscCall → Prop
  | .setIf _ request option => ∀ p s i j, w.Binds request option p s i → s.PromiscOn j → i = j
  | _ => True

/-- There is no socket yet, and no entry. -/
structure World.Unused (w : World) : Prop where
  heap : ∀ p, w.heap p = none
  promisc : ∀ iface ∈ w.ifaces, iface.promiscFds = ∅

/-- `patty_ax25_if_promisc_add` returns 0 where it adds the descriptor, and -1 only where it changes no
entry. -/
def AddHolds (i fd : Nat) (w : World) (r : Int) (w' : World) : Prop :=
  (¬w.holdings.Entered i fd → w'.holdings.Entered i fd → r = 0) ∧
    (r = -1 → ∀ j fd', w'.holdings.Entered j fd' ↔ w.holdings.Entered j fd')

variable {w w' : World} {x : PromiscCall} {l : List (PromiscCall × World)} {i fd : Nat} {r : Int}

theorem World.Unused.kept (h : w.Unused) : w.holdings.Kept where
  fresh p _ := h.heap p
  opened p s hp := absurd ((h.heap p).symm.trans hp) nofun
  distinct p _ s _ hp := absurd ((h.heap p).symm.trans hp) nofun
  bound p s hp := absurd ((h.heap p).symm.trans hp) nofun
  matched i fd := by
    constructor
    · rintro ⟨d, hd, hmem⟩
      obtain ⟨iface, hiface, rfl⟩ := List.mem_map.mp (List.mem_of_getElem? hd)
      rw [h.promisc iface hiface] at hmem
      exact absurd hmem (AList.notMem_empty fd)
    · rintro ⟨p, s, hp, -⟩
      exact absurd ((h.heap p).symm.trans hp) nofun

theorem promiscStep_iff (h : w.holdings.Kept) (hst : PromiscStep w x w') :
    w'.holdings.Sound ∧ (w'.holdings.Matched ↔ w.Stays x) := by
  obtain ⟨sys, inbox, r, hmem, hreads, hrun⟩ := hst
  have hkept : w'.holdings.Kept → w.Stays x → w'.holdings.Sound ∧ (w'.holdings.Matched ↔ w.Stays x) :=
    fun h hx => ⟨h.toSound, iff_of_true h.matched hx⟩
  cases x with
  | socket client request => exact hkept ((M.matches_socketRequest (w.asked sys inbox) h).ok hrun) trivial
  | close client request => exact hkept ((M.matches_closeRequest (w.asked sys inbox) h).ok hrun) trivial
  | setIf client request option =>
    obtain ⟨hopt, hread⟩ := hreads
    rcases (M.setsockoptRequest_binds hopt hmem hread).ok hrun with
      ⟨hno, hsame⟩ | ⟨p, s, i, s', hb, hlt, hfd, htype, hstate, hi, hsame⟩
    · exact hkept (h.of_eq hsame) fun p s i j hb => absurd hb (hno p s i)
    · have hsound := h.toSound.bind hb.2.1 hfd hi hlt
      have hiff := Holdings.matched_bind h hb.2.1 hfd (htype.trans hb.2.2.1) hstate hi hlt
      rw [hsame]
      refine ⟨hsound, hiff.trans ⟨fun hstay q u k j hq hon => ?_, fun hstay j hon => hstay p s i j hb hon⟩⟩
      obtain rfl := Option.some.inj (hq.1.symm.trans hb.1)
      obtain rfl := Option.some.inj (hq.2.1.symm.trans hb.2.1)
      obtain ⟨m, rfl, hk⟩ := hq.2.2.2
      obtain ⟨m', hm', hi'⟩ := hb.2.2.2
      obtain rfl := Option.some.inj hm'
      obtain rfl := Option.some.inj (hk.symm.trans hi')
      exact hstay j hon

theorem addHolds_iff (hw : M.HasMemory w) (h : M.ifPromiscAdd i fd w = .ok (r, w')) :
    AddHolds i fd w r w' ↔ w.holdings.Entered i fd := by
  obtain ⟨rfl, hlt, hadd⟩ := (M.ifPromiscAdd_adds hw).ok h
  have hin : ∀ j fd', w'.holdings.Entered j fd' ↔ w.holdings.Entered j fd' ∨ i = j ∧ fd' = fd := by
    intro j fd'
    rw [Holdings.entered_modify (congrArg Holdings.promisc hadd)]
    exact Holdings.entered_insert hlt
  constructor
  · intro hholds
    exact (hholds.2 rfl i fd).mp ((hin i fd).mpr (.inr ⟨rfl, rfl⟩))
  · intro hbefore
    refine ⟨fun hno => absurd hbefore hno, fun _ j fd' => (hin j fd').trans (or_iff_left_of_imp ?_)⟩
    rintro ⟨rfl, rfl⟩
    exact hbefore

/-- In every run of the calls of any clients, the entries are those of the live promiscuous sockets in every
state exactly if no call binds such a socket to another interface; and `patty_ax25_if_promisc_add` does what
it should exactly if the descriptor was there before. -/
theorem promiscFds_iff (hw : w.Unused) (h : Trace PromiscStep w l) :
    ((∀ x ∈ l, x.2.holdings.Matched) ↔ Meets World.Stays w l) ∧
    ∀ i fd w r w', M.HasMemory w → M.ifPromiscAdd i fd w = .ok (r, w') →
      (AddHolds i fd w r w' ↔ w.holdings.Entered i fd) := by
  refine ⟨?_, fun i fd w r w' hw hadd => addHolds_iff hw hadd⟩
  exact h.invariant_iff_of (I := fun w => w.holdings.Matched) (J := fun w => w.holdings.Sound)
    (fun _ _ _ hs hm hst => (promiscStep_iff ⟨hs, hm⟩ hst).1)
    (fun _ _ _ hs hm hst => (promiscStep_iff ⟨hs, hm⟩ hst).2) hw.kept.toSound hw.kept.matched

/-! ## A socket that is bound to two interfaces -/

/-- The interfaces `k` and `l`, and a client without sockets. -/
def World.twoIfaces : World :=
  { World.start ⟨[sampleIface, { sampleIface with fd := 5, name := [0x6c] }], ∅, [4, 5, 6], fun _ => false, 7⟩ with
    socksByClient := (∅ : Dict Nat (Dict Nat Ptr)).insert 6 ∅ }

/-- `setsockopt` of an interface for the descriptor 3. -/
def setIfRequest : Mem := .ofBytes (leBytes 4 3 ++ leBytes 4 1 ++ leBytes 8 12) fun _ => 0

/-- The state PROMISC for the interface whose name is a letter. -/
def promiscOption (name : UInt8) : Bytes := name :: List.replicate 7 0 ++ leBytes 4 6

/-- What the client has written. -/
def optionInbox (name : UInt8) (client : Nat) : Bytes := if client = 6 then promiscOption name else []

/-- The request of a RAW socket. -/
def rawRequest : Mem := .ofBytes (leBytes 4 0 ++ leBytes 4 2) fun _ => 0

/-- A RAW socket of the client. -/
def rawOpened : World := ((M.socketRequest 6 rawRequest).after .twoIfaces).getD .bare

/-- It is bound to an interface in the state PROMISC. -/
def World.tapped (w : World) (name : UInt8) : World :=
  ((M.setsockoptRequest 6 setIfRequest).after (w.asked .allOk (optionInbox name))).getD .bare

def tapCall (name : UInt8) : PromiscCall := .setIf 6 setIfRequest (some (.ofBytes (promiscOption name) fun _ => 0))

theorem twoIfaces_unused : World.twoIfaces.Unused where
  heap _ := rfl
  promisc := by
    intro iface h
    rcases List.mem_cons.mp h with rfl | h
    · rfl
    · rcases List.mem_cons.mp h with rfl | h
      · rfl
      · exact nomatch h

theorem step_rawOpened : PromiscStep .twoIfaces (.socket 6 rawRequest) rawOpened := by
  have hsome : ((M.socketRequest 6 rawRequest).after .twoIfaces).isSome := by decide
  obtain ⟨r, hr⟩ := after_getD hsome
  exact ⟨.allOk, fun _ => [], r, nofun, trivial, hr⟩

theorem step_tapped {w : World} {name : UInt8}
    (h : ((M.setsockoptRequest 6 setIfRequest).after (w.asked .allOk (optionInbox name))).isSome) :
    PromiscStep w (tapCall name) (w.tapped name) := by
  obtain ⟨r, hr⟩ := after_getD h
  refine ⟨.allOk, optionInbox name, r, nofun, ⟨by decide, fun o w' h => ?_⟩, hr⟩
  cases h
  rfl

theorem trace_tapped : Trace PromiscStep .twoIfaces
    [(.socket 6 rawRequest, rawOpened), (tapCall 0x6b, rawOpened.tapped 0x6b)] :=
  .cons step_rawOpened (.cons (step_tapped (by decide)) .nil)

theorem step_moved : PromiscStep (rawOpened.tapped 0x6b) (tapCall 0x6c) ((rawOpened.tapped 0x6b).tapped 0x6c) :=
  step_tapped (by decide)

/-- Bound to one interface, the socket is entered there. -/
theorem promiscFds_tapped : (rawOpened.tapped 0x6b).holdings.Matched := by
  refine ((promiscFds_iff twoIfaces_unused trace_tapped).1.mpr ⟨trivial, fun p s i j hb hon => ?_, trivial⟩)
    (tapCall 0x6b, rawOpened.tapped 0x6b) (by simp)
  have hstate : (rawOpened.heap 0).map Sock.state = some .established := by decide
  cases p with
  | zero =>
    rw [show rawOpened.heap 0 = some s from hb.2.1, Option.map_some, hon.2.1] at hstate
    exact absurd hstate (by decide)
  | succ n =>
    have hnone : rawOpened.heap (n + 1) = none := rfl
    exact absurd (hnone.symm.trans hb.2.1) nofun

/-- Bound to both interfaces, the socket is entered with the first one still, though it is none of its sockets;
and adding the descriptor looked like a failure. -/
theorem not_promiscFds :
    (∃ w l, World.Unused w ∧ Trace PromiscStep w l ∧ ∃ x ∈ l, ¬x.2.holdings.Matched) ∧
    ∃ i fd w r w', M.HasMemory w ∧ M.ifPromiscAdd i fd w = .ok (r, w') ∧ ¬AddHolds i fd w r w' := by
  constructor
  · refine ⟨_, _, twoIfaces_unused, .cons step_rawOpened (.cons (step_tapped (by decide))
      (.cons step_moved .nil)), (tapCall 0x6c, (rawOpened.tapped 0x6b).tapped 0x6c), by simp, fun hm => ?_⟩
    have hin : ((rawOpened.tapped 0x6b).tapped 0x6c).holdings.Entered 0 3 := ⟨_, rfl, by decide⟩
    obtain ⟨p, s, hp, hon, -⟩ := (hm 0 3).mp hin
    have hiface : (((rawOpened.tapped 0x6b).tapped 0x6c).heap 0).map Sock.iface = some (some 1) := by decide
    cases p with
    | zero =>
      rw [show ((rawOpened.tapped 0x6b).tapped 0x6c).heap 0 = some s from hp, Option.map_some, hon.2.2] at hiface
      exact absurd hiface (by decide)
    | succ n =>
      have hnone : ((rawOpened.tapped 0x6b).tapped 0x6c).heap (n + 1) = none := rfl
      exact absurd (hnone.symm.trans hp) nofun
  · refine ⟨0, 3, .twoIfaces, -1, _, nofun, rfl, fun h => ?_⟩
    exact absurd (h.1 (by rintro ⟨d, ⟨⟩, h⟩; exact absurd h (by decide)) ⟨_, rfl, by decide⟩) (by decide)

end Patty
