import Patty.Receive
import Patty.Slots

/-! # The transmitting side of a connection

The transmitting side of a socket, `Sock.link`, is its slots, V(S) and V(A) with the mode and the
sizes that say how they are used. Timers, retries and the receiving side are not in it. What a handler
does to a connection is said of this part, for as long as the connection is open (`WhileOpen`). -/

namespace Patty

open Prog

/-! ## The transmitting side -/

/-- The transmitting side of a socket. -/
structure Link where
  type : SockType
  state : SockState
  mode : SockMode
  proto : Nat
  nMaxlenTx : Nat
  nWindowTx : Nat
  txSlots : Option Buf
  vs : Nat
  va : Nat

namespace Sock

def link (s : Sock) : Link where
  type := s.type
  state := s.state
  mode := s.mode
  proto := s.proto
  nMaxlenTx := s.nMaxlenTx
  nWindowTx := s.nWindowTx
  txSlots := s.txSlots
  vs := s.vs
  va := s.va

variable {s s' : Sock} {buf : Buf}

theorem slots_congr (h : s'.mode = s.mode) : s'.slots = s.slots := by
  rw [slots, slots, h]

theorem link_slots (h : s'.link = s.link) : s'.slots = s.slots :=
  slots_congr (congrArg Link.mode h)

theorem link_txSeq (h : s'.link = s.link) (seq : Nat) : s'.txSeq seq = s.txSeq seq := by
  rw [txSeq, txSeq, link_slots h]

theorem link_payload (h : s'.link = s.link) (seq : Nat) : s'.payload seq = s.payload seq := by
  have hslots : s'.txSlots = s.txSlots := congrArg Link.txSlots h
  have hsize : s'.txSlotSize = s.txSlotSize := by
    rw [txSlotSize, txSlotSize, show s'.nMaxlenTx = s.nMaxlenTx from congrArg Link.nMaxlenTx h]
  simp only [payload, hslots, hsize, link_txSeq h]

theorem HasSlots.link (H : s.HasSlots buf) (h : s'.link = s.link) : s'.HasSlots buf := by
  have hlen : s'.nMaxlenTx = s.nMaxlenTx := congrArg Link.nMaxlenTx h
  have hslots := link_slots h
  refine ⟨⟨(congrArg Link.txSlots h).trans H.array, hlen ▸ H.small, ?_⟩, ?_⟩
  · rw [hslots, hlen]; exact H.size
  · rw [hslots, hlen]; exact H.short

theorem Saves.link {bs : Bytes} (h : s.Saves bs buf) (hl : s'.link = s.link) : s'.Saves bs buf := by
  have hl' : { s' with txSlots := some buf }.link = { s with txSlots := some buf }.link :=
    congrArg (fun l : Link => { l with txSlots := some buf }) hl
  have hvs : s'.vs = s.vs := congrArg Link.vs hl
  refine ⟨h.slots.link hl', fun j hj => ?_⟩
  rw [link_payload hl', h.payload j (link_slots hl ▸ hj), link_txSeq hl, link_payload hl, hvs]

theorem HasSlots.vs (H : s.HasSlots buf) (vs : Nat) : { s with vs }.HasSlots buf :=
  ⟨⟨H.array, H.small, H.size⟩, H.short⟩

end Sock

/-- The socket `p` is there, with this transmitting side. -/
def Linked (p : Ptr) (l : Link) (w : World) : Prop := ∃ s, w.heap p = some s ∧ s.link = l

namespace M

variable {α : Type} {E : Fault → Prop} {w : World} {p : Ptr} {s : Sock} {l : Link} {buf : Buf}

/-! ## Rules -/

theorem Quiet.heap {m : M α} (hm : Quiet m) {a : α} {w' : World} (h : m w = .ok (a, w')) :
    w'.heap = w.heap := congrArg Core.heap (hm.core _ _ _ h)

theorem Quiet.linked {m : M α} (hm : Quiet m) : Keeps (Linked p l) (fun _ => True) m := by
  intro w hw
  refine wp_intro fun a w' h => ?_
  obtain ⟨s, hp, hs⟩ := hw
  exact ⟨s, (congrFun (hm.heap h) p).trans hp, hs⟩

theorem linked_setSock (h : s.link = l) : Linked p l (w.setSock p s) := ⟨s, heap_setSock, h⟩

theorem linked_store (h : s.link = l) : Keeps (Linked p l) E (store p s) :=
  fun _ _ => linked_setSock h

theorem linked_deref {g : Sock → M α} (hg : ∀ s, s.link = l → Keeps (Linked p l) (fun _ => True) (g s)) :
    Keeps (Linked p l) (fun _ => True) (deref p >>= g) := by
  rintro w ⟨s, hp, hl⟩
  rw [wp_bind]
  exact wp_deref_some hp (hg s hl w ⟨s, hp, hl⟩)

/-! ## Closing -/

theorem heap_sockDeleteLocal : Leaves World.heap (sockDeleteLocal s) :=
  Leaves.get.bind fun _ => .ite ((Leaves.modify (by intro; rfl)).bind fun _ => .pure) .pure

theorem heap_sockDeleteRemote : Leaves World.heap (sockDeleteRemote s) :=
  Leaves.get.bind fun _ => .ite ((Leaves.modify (by intro; rfl)).bind fun _ => .pure) .pure

theorem heap_deleteByState : Leaves World.heap (deleteByState s) := by
  unfold deleteByState
  cases s.state with
  | listening => exact heap_sockDeleteLocal
  | pendingAccept | pendingConnect | pendingDisconnect | established => exact heap_sockDeleteRemote
  | closed | promisc => exact .pure

/-- A socket that is closed is destroyed, or stays as it is. -/
theorem sockClose_spec (hp : w.heap p = some s) : wp (sockClose p)
    (fun _ w' => w'.heap p = none ∨ w'.heap p = some s) (fun _ => True) w := by
  have hstay {w' : World} (h : w'.heap = w.heap) : w'.heap p = none ∨ w'.heap p = some s :=
    .inr ((congrFun h p).trans hp)
  rw [sockClose, wp_bind]
  refine wp_deref_some hp ?_
  rw [wp_bind]
  refine heap_deleteByState.wp (fun ok w₁ h₁ => ?_) fun _ => trivial
  rw [wp_ite]
  refine ⟨fun _ => ?_, fun _ => hstay h₁⟩
  rw [wp_bind, wp_clientBySock]
  split
  · exact hstay h₁
  rw [wp_bind, wp_get]
  split
  · exact hstay h₁
  rw [sockCloseFd, wp_ite]
  refine ⟨fun _ => ?_, fun _ => hstay h₁⟩
  simp only [wp_bind, wp_modify, wp_get, wp_ite]
  refine ⟨fun _ => ?_, fun _ => hstay h₁⟩
  refine (quiet_fdClear.core.comp (g := Core.heap)).wp (fun _ w₂ h₂ => ?_) fun _ => trivial
  have hp₂ : w₂.heap p = some s := (congrFun (h₂.trans h₁) p).trans hp
  rw [sockDestroy, wp_bind]
  refine wp_deref_some hp₂ ?_
  rw [wp_bind]
  refine quiet_leavePromisc.core.wp (fun _ w₃ h₃ => ?_) fun _ => trivial
  rw [wp_bind]
  refine tame_closePty.core.wp (fun _ w₄ h₄ => ?_) fun _ => trivial
  rw [wp_freeSock]
  exact ⟨fun _ _ => .inl (Function.update_self ..), fun _ => trivial⟩

/-- An established connection that is shut down waits for the answer to DISC. -/
theorem sockShutdown_spec (hp : w.heap p = some s) (htype : s.type = .stream)
    (hstate : s.state = .established) : wp (sockShutdown p)
      (fun _ w' => ∃ s', w'.heap p = some s' ∧ s'.state = .pendingDisconnect) (fun _ => True) w := by
  rw [sockShutdown, wp_bind]
  refine wp_deref_some hp ?_
  rw [wp_bind]
  refine quiet_fdClear.core.wp (fun _ w₁ h₁ => ?_) fun _ => trivial
  rw [if_neg (by simp [htype, hstate]), wp_bind, wp_store]
  refine quiet_sendDisc.core.wp (fun _ w₂ h₂ => ?_) fun _ => trivial
  refine ⟨_, (congrFun (congrArg Core.heap h₂) p).trans heap_setSock, rfl⟩

end M

/-! ## While a connection is open -/

/-- If the socket `p` is still established, its transmitting side satisfies `P`. -/
def WhileOpen (p : Ptr) (P : Link → Prop) (w : World) : Prop :=
  ∀ s, w.heap p = some s → s.state = .established → P s.link

variable {α : Type} {w : World} {p : Ptr} {s : Sock} {buf : Buf} {P : Link → Prop}

namespace WhileOpen

open M

theorem of_heap (hp : w.heap p = some s) (h : P s.link) : WhileOpen p P w := by
  intro s' hs' _
  obtain rfl := Option.some.inj (hp.symm.trans hs')
  exact h

theorem of_state (hp : w.heap p = some s) (h : s.state ≠ .established) : WhileOpen p P w := by
  intro s' hs' hstate
  obtain rfl := Option.some.inj (hp.symm.trans hs')
  exact absurd hstate h

theorem of_none (hp : w.heap p = none) : WhileOpen p P w := by
  intro s' hs'
  rw [hp] at hs'
  cases hs'

theorem mono {P' : Link → Prop} (h : WhileOpen p P w) (hP : ∀ l, P l → P' l) : WhileOpen p P' w :=
  fun s hs hstate => hP _ (h s hs hstate)

/-- What only sends leaves it so. -/
theorem quiet {m : M α} (hm : Quiet m) (hp : w.heap p = some s) (h : P s.link) :
    wp m (fun _ w' => WhileOpen p P w') (fun _ => True) w :=
  wp_intro fun _ _ hr => of_heap ((congrFun (hm.heap hr) p).trans hp) h

theorem close (hp : w.heap p = some s) (h : P s.link) :
    wp (sockClose p) (fun _ w' => WhileOpen p P w') (fun _ => True) w := by
  refine (sockClose_spec hp).post fun _ w' hw' => ?_
  obtain hnone | hsome := hw'
  · exact of_none hnone
  · exact of_heap hsome h

theorem shutdown (hp : w.heap p = some s) (htype : s.type = .stream)
    (hstate : s.state = .established) :
    wp (sockShutdown p) (fun _ w' => WhileOpen p P w') (fun _ => True) w := by
  refine (sockShutdown_spec hp htype hstate).post fun _ w' hw' => ?_
  obtain ⟨s', hp', hs'⟩ := hw'
  exact of_state hp' (by simp [hs'])

end WhileOpen

end Patty
