import Patty.Answers
import Patty.Lib.Pool

/-! # Who owns the descriptors

The server opens the master of a pty for each socket and has a connection for each client. The ones that are open
beside those of its start are what its sockets and clients own, and each of these owns its own; only where memory
ran out while a socket was made, its master is lost. The slaves of the ptys, which stay open and which nothing uses,
are left out. -/

namespace Patty

open Relation

/-- The descriptors of the sockets and of the clients. -/
def Goods.owned (g : Goods) : List Nat := Pool.held (Option.map Sock.fd ∘ g.heap) g.next ++ g.clients.keys

def World.owned (w : World) : List Nat := w.goods.owned

/-- What is open is owned, each descriptor once, beside what was open at the start and what is lost. -/
structure Goods.Accounted (base lost : List Nat) (g : Goods) : Prop where
  fresh : ∀ p, g.next ≤ p → g.heap p = none
  perm : g.fds.Perm (base ++ (g.owned ++ lost))
  nodup : g.fds.Nodup

namespace Goods.Accounted

variable {base lost : List Nat} {g g' : Goods} {p : Ptr} {s s' : Sock} {c : Nat} {short : Prop}

theorem filled (h : g.Accounted base lost) (hp : g.heap p = some s) : p < g.next := by
  refine Nat.lt_of_not_le fun hle => ?_
  rw [h.fresh p hle] at hp
  cases hp

/-- What is opened is owned. -/
theorem perm_open {fds owned owned' : List Nat} (h : fds.Perm (base ++ (owned ++ lost)))
    (howned : owned'.Perm (c :: owned)) : (c :: fds).Perm (base ++ (owned' ++ lost)) :=
  (h.cons c).trans (List.perm_middle.symm.trans ((howned.symm.append_right lost).append_left base))

/-- What was owned is closed. -/
theorem perm_close {fds owned owned' : List Nat} (h : fds.Perm (base ++ (owned ++ lost)))
    (howned : owned.Perm (c :: owned')) : (fds.erase c).Perm (base ++ (owned' ++ lost)) := by
  have hfirst : fds.Perm (c :: (base ++ (owned' ++ lost))) :=
    h.trans (((howned.append_right lost).append_left base).trans List.perm_middle)
  have herase := hfirst.erase c
  rwa [List.erase_cons_head] at herase

theorem output (h : g.Accounted base lost) (log : List Out) : Accounted base lost { g with log } :=
  ⟨h.fresh, h.perm, h.nodup⟩

theorem store (h : g.Accounted base lost) (hp : g.heap p = some s) (hs : s.Same s') :
    Accounted base lost { g with heap := Function.update g.heap p (some s') } := by
  have hcells : Option.map Sock.fd ∘ Function.update g.heap p (some s') = Option.map Sock.fd ∘ g.heap := by
    rw [Function.comp_update]
    refine Function.update_eq_self_iff.mpr ?_
    rw [Function.comp, hp, Option.map_some, Option.map_some, hs.1]
  refine ⟨fun q hq => ?_, ?_, h.nodup⟩
  · have hne : q ≠ p := Nat.ne_of_gt (Nat.lt_of_lt_of_le (h.filled hp) hq)
    exact (Function.update_of_ne hne ..).trans (h.fresh q hq)
  · rw [owned, hcells]
    exact h.perm

theorem make (h : g.Accounted base lost) (hfd : s.fd ∉ g.fds) : Accounted base lost { g with
    heap := Function.update g.heap g.next (some s), next := g.next + 1, fds := s.fd :: g.fds } := by
  refine ⟨fun q hq => ?_, perm_open h.perm ?_, List.nodup_cons.mpr ⟨hfd, h.nodup⟩⟩
  · exact (Function.update_of_ne (Nat.ne_of_gt hq) ..).trans (h.fresh q (Nat.le_of_succ_le hq))
  · rw [owned, owned, Function.comp_update, Option.map_some, Pool.held_fill, List.append_assoc]
    exact List.perm_middle

theorem lose (h : g.Accounted base lost) (hc : c ∉ g.fds) :
    Accounted base (c :: lost) { g with fds := c :: g.fds } := by
  refine ⟨h.fresh, (h.perm.cons c).trans ?_, List.nodup_cons.mpr ⟨hc, h.nodup⟩⟩
  rw [← List.append_assoc, ← List.append_assoc]
  exact List.perm_middle.symm

/-- Zero is none of the descriptors of the sockets, so that each socket closes its own. -/
theorem destroy (hzero : 0 ∈ base) (h : g.Accounted base lost) (hp : g.heap p = some s) :
    Accounted base lost { g with
      heap := Function.update g.heap p none, fds := if 0 < s.fd then g.fds.erase s.fd else g.fds } := by
  have howned : g.owned.Perm (s.fd :: owned { g with heap := Function.update g.heap p none }) := by
    rw [owned, owned, Function.comp_update]
    exact (Pool.held_empty (h.filled hp) (congrArg (Option.map Sock.fd) hp)).append_right _
  have hpos : 0 < s.fd := by
    refine Nat.pos_of_ne_zero fun hfd => ?_
    have hmem : s.fd ∈ g.owned ++ lost := List.mem_append_left lost (howned.mem_iff.mpr List.mem_cons_self)
    exact (List.nodup_append.mp (h.perm.nodup_iff.mp h.nodup)).2.2 0 hzero s.fd hmem hfd.symm
  rw [if_pos hpos]
  refine ⟨fun q hq => ?_, perm_close h.perm howned, h.nodup.erase s.fd⟩
  have hne : q ≠ p := Nat.ne_of_gt (Nat.lt_of_lt_of_le (h.filled hp) hq)
  exact (Function.update_of_ne hne ..).trans (h.fresh q hq)

theorem enter (h : g.Accounted base lost) (hc : c ∉ g.fds) :
    Accounted base lost { g with fds := c :: g.fds, clients := g.clients.insert c c } := by
  have hkeys : c ∉ g.clients.keys := fun hmem =>
    hc (h.perm.mem_iff.mpr (List.mem_append_right base (List.mem_append_left lost (List.mem_append_right _ hmem))))
  refine ⟨h.fresh, perm_open h.perm ?_, List.nodup_cons.mpr ⟨hc, h.nodup⟩⟩
  rw [owned, owned, AList.keys_insert, List.erase_of_not_mem hkeys]
  exact List.perm_middle

theorem leave (h : g.Accounted base lost) (hc : c ∈ g.clients) :
    Accounted base lost { g with fds := g.fds.erase c, clients := g.clients.erase c } := by
  refine ⟨h.fresh, perm_close h.perm ?_, h.nodup.erase c⟩
  rw [owned, owned, AList.keys_erase]
  exact ((List.perm_cons_erase (AList.mem_keys.mpr hc)).append_left _).trans List.perm_middle

/-- What a deed comes to; it loses nothing as long as there is memory. -/
theorem deed (hzero : 0 ∈ base) (h : g.Accounted base lost) (hdeed : g.Deed short g') :
    ∃ lost', g'.Accounted base lost' ∧ (¬short → lost' = lost) := by
  cases hdeed with
  | rest => exact ⟨lost, h, fun _ => rfl⟩
  | output _ => exact ⟨lost, h.output _, fun _ => rfl⟩
  | store hp hs => exact ⟨lost, h.store hp hs, fun _ => rfl⟩
  | make hfd => exact ⟨lost, h.make hfd, fun _ => rfl⟩
  | @lose fd hshort hfd => exact ⟨fd :: lost, h.lose hfd, fun hn => absurd hshort hn⟩
  | destroy hp => exact ⟨lost, h.destroy hzero hp, fun _ => rfl⟩
  | enter hc => exact ⟨lost, h.enter hc, fun _ => rfl⟩
  | leave hc => exact ⟨lost, h.leave hc, fun _ => rfl⟩

end Goods.Accounted

/-! ## Runs -/

variable {base lost : List Nat} {w w' : World} {c : Config} {C : World → Input → Prop}

theorem accounted_deeds (hzero : 0 ∈ base) (h : w.goods.Accounted base lost) (hdeeds : ReflTransGen World.Deed w w') :
    ∃ lost', w'.goods.Accounted base lost' ∧ (false ∉ w.sys.alloc → lost' = lost) := by
  induction hdeeds with
  | refl => exact ⟨lost, h, fun _ => rfl⟩
  | tail hdeeds hdeed ih =>
    have hold := (older_deeds hdeeds).alloc
    obtain ⟨lost₁, h₁, hlost₁⟩ := ih
    obtain ⟨lost₂, h₂, hlost₂⟩ := h₁.deed hzero hdeed.2
    exact ⟨lost₂, h₂, fun hn => (hlost₂ fun hmem => hn (hold.subset hmem)).trans (hlost₁ hn)⟩

theorem accounted_step {inp : Input} (hzero : 0 ∈ base) (h : w.goods.Accounted base lost) (hstep : w.Step inp w')
    (hrunning : w'.running) :
    ∃ lost', w'.goods.Accounted base lost' ∧ (false ∉ inp.sys.alloc → lost' = lost) := by
  have h₀ : World.goods { w with sys := inp.sys } |>.Accounted base lost := h
  rcases goes_step hstep with ⟨w₂, hends, hgoes⟩ | ⟨hstopped, -⟩
  · rw [hends.goods]
    rcases hgoes with ⟨hdeeds, -⟩ | ⟨client, n, ⟨w₁, r, hdeeds, -, -, hgoods⟩, -⟩
    · exact accounted_deeds hzero h₀ hdeeds
    · obtain ⟨lost', h', hlost'⟩ := accounted_deeds hzero h₀ hdeeds
      exact ⟨lost', hgoods ▸ h'.output _, hlost'⟩
  · exact absurd (hstopped.symm.trans hrunning) Bool.false_ne_true

end Patty
