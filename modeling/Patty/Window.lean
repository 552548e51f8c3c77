import Patty.Link.Step

/-! # The transmit window

`Window s a v n val` describes the transmitting side of a connection by numbers that do not wrap:
V(A) is `a`, V(S) is `v`, new data gets the number `n`, and the slots hold the payloads `val` of the
numbers from `a` up to `n`. V(S) is behind `n` after an S frame with P/F set took it back. A turn and an
acknowledgement keep this, so that over a run no more than `n_window_tx` numbers are outstanding, as
long as no turn reads new data while that many are, and no frame acknowledges a number beyond V(S)
(`outstanding_run`). -/

namespace Patty

open Prog

/-! ## The window -/

structure Window (s : Sock) (a v n : Nat) (val : Nat → Bytes) : Prop where
  mode : s.mode ≠ .dm
  slots : ∃ buf, s.HasSlots buf
  va : s.va = a % s.slots
  vs : s.vs = v % s.slots
  le_vs : a ≤ v
  vs_le : v ≤ n
  fits : n < a + s.slots
  holds : Ring.Holds s.slots s.payload val a n

namespace Window

variable {s s' : Sock} {a v n : Nat} {val : Nat → Bytes} {frame : Frame}

theorem link (W : Window s a v n val) (h : s'.link = s.link) : Window s' a v n val := by
  have hslots := Sock.link_slots h
  have hmode : s'.mode = s.mode := congrArg Link.mode h
  have hva : s'.va = s.va := congrArg Link.va h
  have hvs : s'.vs = s.vs := congrArg Link.vs h
  obtain ⟨buf, H⟩ := W.slots
  refine ⟨hmode ▸ W.mode, ⟨buf, H.link h⟩, ?_, ?_, W.le_vs, W.vs_le, hslots ▸ W.fits, ?_⟩
  · rw [hva, hslots, W.va]
  · rw [hvs, hslots, W.vs]
  · rw [hslots]
    exact W.holds.congr fun j _ => Sock.link_payload h j

theorem payload_mod (s : Sock) (i : Nat) : s.payload (i % s.slots) = s.payload i :=
  s.payload_txSeq i

/-- The numbers outstanding, (V(S) - V(A)) mod M. -/
theorem acks_vs (W : Window s a v n val) : s.acks s.vs = v - a := by
  have := W.fits
  have := W.vs_le
  rw [Sock.acks, W.va, W.vs, Ring.dist_mod s.slots_pos W.le_vs (by omega)]

/-- If nothing waits in the slot of V(S), then V(S) is the next new number. -/
theorem eq_next (W : Window s a v n val) (h : s.payload s.vs = none) : v = n :=
  W.holds.eq_next W.le_vs W.vs_le (by rwa [← W.vs])

/-- If something waits in the slot of V(S), it was sent before. -/
theorem lt_next (W : Window s a v n val) (h : s.payload s.vs ≠ none) : v < n := by
  have hle := W.vs_le
  have hfits := W.fits
  by_contra hge
  obtain rfl : v = n := by omega
  rw [W.vs] at h
  exact h (W.holds.next_empty (by omega))

theorem txSeq_vs (W : Window s a v n val) : s.txSeq (s.vs + 1) = (v + 1) % s.slots := by
  rw [W.vs, Sock.txSeq, Nat.mod_add_mod]

/-- V(S) may be anywhere in the window. -/
theorem move (W : Window s a v n val) {v' : Nat} (h1 : a ≤ v') (h2 : v' ≤ n)
    (hl : s'.link = { s.link with vs := v' % s.slots }) : Window s' a v' n val := by
  obtain ⟨buf, H⟩ := W.slots
  have W' : Window { s with vs := v' % s.slots } a v' n val :=
    ⟨W.mode, ⟨buf, H.vs _⟩, W.va, rfl, h1, h2, W.fits, W.holds⟩
  exact W'.link hl

/-- Saving new data under V(S) keeps the window, with one number more if V(S) was the next one. -/
theorem save (W : Window s a v n val) {bs : Bytes} {buf : Buf} (h : s.Saves bs buf)
    (hroom : v = n → n + 1 < a + s.slots) (hl : s'.link = { s.link with txSlots := some buf }) :
    ∃ n', v + 1 ≤ n' ∧ n ≤ n' ∧ (n' = n ∨ v = n ∧ n' = n + 1) ∧
      Window s' a v n' (Function.update val v bs) := by
  have hfits := W.fits
  have hpay : ∀ j, j < s.slots → { s with txSlots := some buf }.payload j =
      if j = v % s.slots then some bs else s.payload j := by
    intro j hj
    rw [h.payload j hj, W.vs, Sock.txSeq, Nat.mod_mod]
  obtain hlt | heq := Nat.lt_or_eq_of_le W.vs_le
  · have W' : Window { s with txSlots := some buf } a v n (Function.update val v bs) :=
      ⟨W.mode, ⟨buf, h.slots⟩, W.va, W.vs, W.le_vs, W.vs_le, W.fits,
        W.holds.overwrite W.le_vs hlt hpay⟩
    exact ⟨n, hlt, le_rfl, .inl rfl, W'.link hl⟩
  · subst heq
    have W' : Window { s with txSlots := some buf } a v (v + 1) (Function.update val v bs) :=
      ⟨W.mode, ⟨buf, h.slots⟩, W.va, W.vs, W.le_vs, Nat.le_succ v, hroom rfl,
        W.holds.push (by omega) hpay⟩
    exact ⟨v + 1, le_rfl, Nat.le_succ v, .inr ⟨rfl, rfl⟩, W'.link hl⟩

/-- An acknowledgement of numbers that wait releases them. V(S) stays if it is not passed by, and a
frame that takes V(S) back takes it to N(R). -/
theorem ack (W : Window s a v n val) (h : s.Acked frame s') (hnr : frame.nr < s.slots)
    (hpeer : ∀ k, k < s.acks frame.nr → s.payload (s.va + k) ≠ none)
    (hbound : s.acks frame.nr ≤ s.acks s.vs ∨ Patty.controlS frame.control ∧ frame.pf ≠ 0) :
    ∃ r v', a ≤ r ∧ r ≤ n ∧ Window s' r v' n val := by
  have hfits := W.fits
  have hva : s.va < s.slots := W.va ▸ Nat.mod_lt _ s.slots_pos
  have hmod (k : Nat) : s.txSeq (s.va + k) = (a + k) % s.slots := by
    rw [W.va, Sock.txSeq, Nat.mod_add_mod]
  have hpaymod (k : Nat) : s.payload ((a + k) % s.slots) = s.payload (s.va + k) := by
    rw [← hmod, Sock.payload_txSeq]
  -- the number of N(R)
  obtain ⟨r, hr⟩ : ∃ r, r = a + s.acks frame.nr := ⟨_, rfl⟩
  have hrn : r ≤ n := by
    by_contra hlt
    have han := W.holds.le
    have hnext := W.holds.next_empty hfits
    rw [show n = a + (n - a) from (Nat.add_sub_of_le han).symm, hpaymod] at hnext
    exact hpeer (n - a) (by omega) hnext
  have hnr_mod : frame.nr = r % s.slots := by
    have hdist : (s.va + s.acks frame.nr) % s.slots = frame.nr := Ring.add_dist hva hnr
    rw [← hdist, hr, W.va, Nat.mod_add_mod]
  have hva' : s'.va = r % s.slots := by
    by_cases hzero : s.acks frame.nr = 0
    · rw [h.va_same (by omega), W.va, hr, hzero, Nat.add_zero]
    · rw [h.va_last (by omega) (hpeer _ (by omega)), hnr_mod]
  have hmode : s'.mode = s.mode := congrArg Link.mode h.link
  have hslots : s'.slots = s.slots := Sock.slots_congr hmode
  have hholds : Ring.Holds s.slots s'.payload val r n := by
    refine W.holds.release (by omega) hrn (fun i h1 h2 => ?_) fun j hj hne => ?_
    · have hgone := h.releases.gone (i - a) (by omega)
      rw [← Sock.payload_txSeq, Sock.txSeq, hslots] at hgone
      rwa [← Nat.add_sub_of_le h1, ← hmod]
    · refine h.releases.kept j hj fun k hk => ?_
      rw [hmod]
      exact hne (a + k) (by omega) (by omega)
  have hwindow {v' : Nat} (h1 : r ≤ v') (h2 : v' ≤ n) (h3 : s'.vs = v' % s.slots) :
      Window s' r v' n val :=
    ⟨hmode ▸ W.mode, h.releases.slots, by rw [hva', hslots], by rw [h3, hslots], h1, h2,
      by rw [hslots]; omega, hslots ▸ hholds⟩
  have hback (h3 : s'.vs = frame.nr) : ∃ v', a ≤ r ∧ r ≤ n ∧ Window s' r v' n val :=
    ⟨r, by omega, hrn, hwindow le_rfl hrn (h3.trans hnr_mod)⟩
  refine ⟨r, ?_⟩
  obtain hle | hfinal := hbound
  · rw [W.acks_vs] at hle
    obtain hvs | ⟨-, hvs⟩ := h.vs
    · exact ⟨v, by omega, hrn, hwindow (by have := W.le_vs; omega) W.vs_le (hvs.trans W.vs)⟩
    · exact hback hvs
  · exact hback (h.final hfinal (hva'.trans hnr_mod.symm))

/-- Nothing is outstanding in a link that was cleared. -/
theorem cleared (h : s.Cleared s') (hmode : s.mode ≠ .dm) (val : Nat → Bytes) :
    Window s' 0 0 0 val where
  mode := by
    have hm : s'.mode = s.mode := congrArg Link.mode h.link
    exact hm ▸ hmode
  slots := h.slots
  va := by
    have hva : s'.va = 0 := congrArg Link.va h.link
    rw [hva, Nat.zero_mod]
  vs := by
    have hvs : s'.vs = 0 := congrArg Link.vs h.link
    rw [hvs, Nat.zero_mod]
  le_vs := le_rfl
  vs_le := le_rfl
  fits := by rw [Nat.zero_add]; exact s'.slots_pos
  holds := Ring.Holds.empty (fun j _ => h.empty j) 0

end Window

/-! ## Steps -/

/-- How many numbers are outstanding: (V(S) - V(A)) mod M. -/
def Sock.outstanding (s : Sock) : Nat := s.acks s.vs

/-- N(R) is one that the peer can send: the numbers from V(A) up to it were sent and wait to be
acknowledged. -/
def Sock.PeerAcks (s : Sock) (nr : Nat) : Prop :=
  ∀ k, k < s.acks nr → s.payload (s.va + k) ≠ none

/-- The frames that the connection receives acknowledge what they may, and no parameters are set. -/
def FromPeer (p : Ptr) (w : World) : LinkInput → Prop
  | .frame _ _ frame _ _ _ => frame.type.acks → ∀ s, w.heap p = some s → s.PeerAcks frame.nr
  | .params .. => False
  | .turn _ | .other => True

/-- No turn reads new data when the window is full, and no frame acknowledges a number beyond V(S),
unless it is an S frame with P/F set. -/
def KeepsWindow (p : Ptr) (w : World) : LinkInput → Prop
  | .turn t => ∀ s v, w.heap p = some s → s.ReadsAt (w.fdsWatch s.fd) t v → s.acks v < s.nWindowTx
  | .frame _ _ frame _ _ _ => frame.type.acks → ∀ s, w.heap p = some s →
      s.acks frame.nr ≤ s.acks s.vs ∨ Patty.controlS frame.control ∧ frame.pf ≠ 0
  | .params .. | .other => True

/-- The connection is established, nothing is outstanding, and its window is at least 1 and less than
the modulus. -/
structure Starts (p : Ptr) (w : World) (s : Sock) : Prop where
  heap : w.heap p = some s
  type : s.type = .stream
  state : s.state = .established
  mode : s.mode ≠ .dm
  slots : ∃ buf, s.HasSlots buf
  empty : ∀ j, s.payload j = none
  vs : s.vs = 0
  va : s.va = 0
  window : 1 ≤ s.nWindowTx ∧ s.nWindowTx < s.slots

/-- The connection has a window with no more than `n_window_tx` numbers. -/
def InWindow (p : Ptr) (w : World) : Prop :=
  ∃ s a v n val, w.heap p = some s ∧ s.type = .stream ∧ s.state = .established ∧
    Window s a v n val ∧ n ≤ a + s.nWindowTx ∧ s.nWindowTx < s.slots

variable {p : Ptr} {w w' : World} {s s' : Sock} {a v n : Nat} {val : Nat → Bytes} {frame : Frame}
  {l : Link}

theorem Window.connected (W : Window s a v n val) (hp : w.heap p = some s) (ht : s.type = .stream)
    (hst : s.state = .established) : Connected p w s :=
  ⟨hp, ht, hst, W.mode, W.slots, W.va ▸ Nat.mod_lt _ s.slots_pos⟩

/-- A turn keeps the window, if it does not read new data with a full one. -/
theorem Window.turn {t : Turn} {watched : Bool} (W : Window s a v n val)
    (hk : n ≤ a + s.nWindowTx) (hM : s.nWindowTx < s.slots)
    (hread : ∀ v, s.ReadsAt watched t v → s.acks v < s.nWindowTx)
    (h : TurnEffect s watched t s'.link) :
    ∃ v n val, Window s' a v n val ∧ n ≤ a + s.nWindowTx := by
  have hfits := W.fits
  have hle := W.le_vs
  have hle' := W.vs_le
  generalize hl : s'.link = l at h
  cases h with
  | idle => exact ⟨v, n, val, W.link hl, hk⟩
  | resent hpay =>
    have hlt := W.lt_next hpay
    rw [W.txSeq_vs] at hl
    exact ⟨v + 1, n, val, W.move (by omega) hlt hl, hk⟩
  | @read v' _ hat heff =>
    -- V(S) when the data is read
    obtain ⟨u, hu, hau, hun⟩ : ∃ u, v' = u % s.slots ∧ a ≤ u ∧ u ≤ n := by
      obtain ⟨-, hv'⟩ | ⟨hpay, -, hv'⟩ := hat.seq
      · exact ⟨v, hv'.trans W.vs, hle, hle'⟩
      · exact ⟨v + 1, hv'.trans W.txSeq_vs, by omega, W.lt_next hpay⟩
    have hacks : s.acks v' = u - a := by
      rw [hu, Sock.acks, W.va, Ring.dist_mod s.slots_pos hau (by omega)]
    have hroom := hread v' hat
    have W₁ : Window { s with vs := v' } a u n val := W.move hau hun (by rw [hu]; rfl)
    cases heff with
    | nothing => exact ⟨u, n, val, W₁.link hl, hk⟩
    | saved hne hsave =>
      obtain ⟨n', hu', hn', hor, W₂⟩ := W₁.save hsave (fun _ => show n + 1 < a + s.slots by omega) hl
      exact ⟨u, n', _, W₂, by omega⟩
    | @sent buf hne hsave =>
      obtain ⟨n', hu', hn', hor, W₂⟩ := W₁.save hsave
        (fun _ => show n + 1 < a + s.slots by omega)
        (show ({ s with vs := v', txSlots := some buf } : Sock).link = _ from rfl)
      refine ⟨u + 1, n', _, W₂.move (by omega) hu' ?_, by omega⟩
      rw [hl]
      have hseq : Sock.txSeq { s with vs := v' } (v' + 1) = (u + 1) % s.slots := by
        rw [hu, Sock.txSeq]
        exact Nat.mod_add_mod u s.slots 1
      exact congrArg (fun k => { s.link with txSlots := some buf, vs := k }) hseq

/-- A frame keeps the window, if it does not acknowledge a number beyond V(S). -/
theorem Window.receive (W : Window s a v n val) (hk : n ≤ a + s.nWindowTx)
    (hnr : frame.nr < s.slots) (hpeer : frame.type.acks → s.PeerAcks frame.nr)
    (hbound : frame.type.acks →
      s.acks frame.nr ≤ s.acks s.vs ∨ Patty.controlS frame.control ∧ frame.pf ≠ 0)
    (h : FrameEffect s frame s'.link) :
    ∃ a v n val, Window s' a v n val ∧ n ≤ a + s.nWindowTx := by
  generalize hl : s'.link = l at h
  cases h with
  | nothing => exact ⟨a, v, n, val, W.link hl, hk⟩
  | acked hacks hs₁ =>
    obtain ⟨r, v', har, hrn, W'⟩ := W.ack hs₁ hnr (hpeer hacks) (hbound hacks)
    exact ⟨r, v', n, val, W'.link hl, by omega⟩
  | reset _ hs₁ => exact ⟨0, 0, 0, val, (Window.cleared hs₁ W.mode val).link hl, by omega⟩

theorem inWindow_step {x : LinkInput} (hw : InWindow p w) (hx : FromPeer p w x ∧ KeepsWindow p w x)
    (h : LinkStep p w x w') : InWindow p w' := by
  obtain ⟨s, a, v, n, val, hp, ht, hst, W, hk, hM⟩ := hw
  have C := W.connected hp ht hst
  obtain ⟨hpeer, hkeep⟩ := hx
  -- the effect on the link is all that matters
  have hafter {s' : Sock} {a v n : Nat} {val : Nat → Bytes} (hp' : w'.heap p = some s')
      (hsame : s.SameKind s') (W' : Window s' a v n val) (hk' : n ≤ a + s.nWindowTx) :
      InWindow p w' := by
    refine ⟨s', a, v, n, val, hp', hsame.type.trans ht, hsame.state.trans hst, W', ?_, ?_⟩
    · rw [hsame.nWindowTx]; exact hk'
    · rw [hsame.nWindowTx, Sock.slots_congr hsame.mode]; exact hM
  cases x with
  | turn t =>
    obtain ⟨s', hp', heff⟩ := h.turn_effect C
    obtain ⟨v', n', val', W', hk'⟩ := W.turn hk hM (fun v => hkeep s v hp) heff
    exact hafter hp' heff.same W' hk'
  | frame sys i frame m offset len =>
    obtain ⟨s', hp', heff⟩ := h.frame_effect C
    have hnr : frame.nr < s.slots := by
      cases h with
      | frame hnr => exact hnr s hp
    obtain ⟨a', v', n', val', W', hk'⟩ := W.receive hk hnr (fun hacks => hpeer hacks s hp)
      (fun hacks => hkeep hacks s hp) heff
    exact hafter hp' heff.same W' hk'
  | params => exact hpeer.elim
  | other =>
    cases h with
    | other hsame => exact ⟨s, a, v, n, val, hsame.trans hp, ht, hst, W, hk, hM⟩

/-- Over every run of a connection no more than `n_window_tx` numbers are outstanding, if no turn
reads new data with a full window and no frame acknowledges a number beyond V(S). -/
theorem outstanding_run (h0 : Starts p w s)
    (h : Run (LinkStep p) (fun w x => FromPeer p w x ∧ KeepsWindow p w x) w w')
    (hp' : w'.heap p = some s') : s'.outstanding ≤ s'.nWindowTx := by
  have hstart : InWindow p w := by
    refine ⟨s, 0, 0, 0, fun _ => [], h0.heap, h0.type, h0.state, ⟨h0.mode, h0.slots, ?_, ?_, le_rfl,
      le_rfl, ?_, Ring.Holds.empty (fun j _ => h0.empty j) 0⟩, Nat.zero_le _, h0.window.2⟩
    · rw [h0.va, Nat.zero_mod]
    · rw [h0.vs, Nat.zero_mod]
    · rw [Nat.zero_add]; exact s.slots_pos
  obtain ⟨t, a, v, n, val, hp, -, -, W, hk, -⟩ :=
    h.invariant (I := InWindow p) (fun _ _ _ hI hC hs => inWindow_step hI hC hs) hstart
  obtain rfl := Option.some.inj (hp.symm.trans hp')
  rw [Sock.outstanding, W.acks_vs]
  have := W.vs_le
  omega

/-! ## A window that is exceeded -/

theorem slotLen_zero (off : Nat) : Sock.slotLen (fun _ => 0) off = 0 := by
  simp [Sock.slotLen, Mem.read, leValue]

theorem acceptedSock_slots : acceptedSock.HasSlots ⟨8 * 143, fun _ => 0⟩ where
  array := rfl
  small := by decide
  size := by decide
  short i _ := (slotLen_zero _).trans_le (Nat.zero_le _)

theorem acceptedSock_empty (j : Nat) : acceptedSock.payload j = none :=
  Sock.cell_of_slotLen (slotLen_zero _)

theorem starts_acceptedSock : Starts 0 (.withSock acceptedSock) acceptedSock where
  heap := rfl
  type := rfl
  state := rfl
  mode := by decide
  slots := ⟨_, acceptedSock_slots⟩
  empty := acceptedSock_empty
  vs := rfl
  va := rfl
  window := by decide

/-- Turns of the socket `p`, one after the other, while the connection is open. -/
def World.turns (p : Ptr) : World → List Turn → Option World
  | w, [] => some w
  | w, t :: ts => do
    let w' ← (M.handleSock p t.elapsed t.ready t.inp).after { w with sys := t.sys }
    if (w'.heap p).any (·.state = .established) then turns p w' ts else none

theorem step_turns {t : Turn} {ts : List Turn} (h : w.turns p (t :: ts) = some w') :
    ∃ w₁, LinkStep p w (.turn t) w₁ ∧ w₁.turns p ts = some w' := by
  obtain ⟨w₁, h₁, h⟩ := Option.bind_eq_some_iff.mp h
  split at h
  · rename_i hopen
    obtain ⟨s, hp, hs⟩ := Option.any_eq_true _ _ |>.mp hopen
    exact ⟨w₁, .turn h₁ ⟨s, hp, by simpa using hs⟩, h⟩
  · cases h

theorem run_turns {C : World → LinkInput → Prop} {ts : List Turn} (h : w.turns p ts = some w')
    (hC : ∀ w t, C w (.turn t)) : Run (LinkStep p) C w w' := by
  induction ts generalizing w with
  | nil => cases h; exact .refl
  | cons t ts ih =>
    obtain ⟨w₁, hstep, h⟩ := step_turns h
    exact (Run.single (hC w t) hstep).trans (ih h)

/-- The client has written one byte. -/
def byteTurn : Turn := ⟨⟨0, 0⟩, true, .ok [0x61], .allOk⟩

/-- A first turn reads with an empty window, so that one number is outstanding after it. -/
theorem outstanding_first : ∃ w' s', (World.withSock acceptedSock).turns 0 [byteTurn] = some w' ∧
    w'.heap 0 = some s' ∧ s'.outstanding ≤ s'.nWindowTx := by
  obtain ⟨w', hw'⟩ := Option.isSome_iff_exists.mp
    (show ((World.withSock acceptedSock).turns 0 [byteTurn]).isSome by decide +kernel)
  obtain ⟨w₁, hstep, hw₁⟩ := step_turns hw'
  cases hw₁
  obtain ⟨s', hp', heff⟩ := hstep.turn_effect
    ⟨rfl, rfl, rfl, by decide, ⟨_, acceptedSock_slots⟩, by decide⟩
  have hpeer : FromPeer 0 (.withSock acceptedSock) (.turn byteTurn) := trivial
  refine ⟨w', s', hw', hp', outstanding_run starts_acceptedSock (.single ⟨hpeer, ?_⟩ hstep) hp'⟩
  intro s v hp hat
  obtain rfl : acceptedSock = s := Option.some.inj hp
  obtain ⟨-, rfl⟩ | ⟨hpay, -⟩ := hat.seq
  · decide
  · exact absurd (acceptedSock_empty _) hpay

/-- With a window of four numbers, the fifth turn sends a fifth frame. -/
theorem not_outstanding_five : ¬∀ (p : Ptr) (w : World) (s : Sock) (w' : World) (s' : Sock),
    Starts p w s → Run (LinkStep p) (FromPeer p) w w' → w'.heap p = some s' →
    s'.outstanding ≤ s'.nWindowTx := by
  intro h
  have hfive : ((World.withSock acceptedSock).turns 0 (List.replicate 5 byteTurn)).any fun w' =>
      (w'.heap 0).any fun s' => s'.nWindowTx < s'.outstanding := by decide +kernel
  obtain ⟨w', hw', hs'⟩ := Option.any_eq_true _ _ |>.mp hfive
  obtain ⟨s', hp', hlt⟩ := Option.any_eq_true _ _ |>.mp hs'
  have hle := h 0 _ _ w' s' starts_acceptedSock (run_turns hw' fun _ _ => trivial) hp'
  exact absurd hle (Nat.not_le.mpr (by simpa using hlt))

end Patty
