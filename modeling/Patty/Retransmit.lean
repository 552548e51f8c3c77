import Patty.Lib.Bits
import Patty.Link.Step
import Patty.Window

/-! # Payloads until they are acknowledged

What a connection has sent, and no N(R) between V(A) and V(S) has acknowledged, is kept beside the run as
a list of `Sent` frames. Each is still in its slot, so that `patty_ax25_sock_resend` sends it again as it
was, over every run in which nothing takes it out of the slot before: `setsockopt` with new buffers, a
reset of the link, an N(R) that is not between V(A) and V(S), or new data under the same number
(`retains_run`). -/

namespace Patty

open Prog

/-! ## Frames that were sent -/

/-- An I frame that was sent: N(S), PID and payload. -/
structure Sent where
  ns : Nat
  pid : UInt8
  data : Bytes

/-- The field N(S) of a control field. -/
def Sock.nsField (s : Sock) (control : Nat) : Nat := (control >>> 1) % s.slots

/-- The frame is in its slot, unmodified and not acknowledged, and sending it again gives an I frame
with the same N(S), PID and payload. -/
structure Sock.Retains (s : Sock) (e : Sent) : Prop where
  stored : s.payload e.ns = some e.data
  resend : M.sockResend s e.ns = M.frameSend s .command (s.controlI e.ns) e.pid e.data
  control : Patty.controlI (s.controlI e.ns) ∧ s.nsField (s.controlI e.ns) = e.ns

/-- What the connection keeps for a frame that was sent. -/
structure Sock.Stores (s : Sock) (e : Sent) : Prop where
  ns : e.ns < s.slots
  pid : e.pid = UInt8.ofNat s.proto
  stored : s.payload e.ns = some e.data

/-- The number under which new data was sent in a turn that took the connection from `s` to `s'`: V(S)
has passed it, and a frame that was sent again before it. -/
def Sock.sentSeq (s s' : Sock) : Option Nat :=
  let v := if s.payload s.vs = none then s.vs else s.txSeq (s.vs + 1)
  if s'.vs = s.txSeq (v + 1) then some v else none

/-- What is sent and not acknowledged after a step that took the connection from `s` to `s'`. An N(R)
acknowledges if it is between V(A) and V(S). -/
def sentAfter (s s' : Sock) (x : LinkInput) (sent : List Sent) : List Sent :=
  match x with
  | .turn t =>
    match s.sentSeq s' with
    | some v => ⟨v, UInt8.ofNat s.proto, t.data s⟩ :: sent
    | none => sent
  | .frame _ _ frame _ _ _ =>
    if frame.type.acks ∧ s.acks frame.nr ≤ s.acks s.vs then
      sent.filter fun e => s.acks frame.nr ≤ s.acks e.ns
    else sent
  | .params .. | .other => sent

/-- A step of the connection beside what was sent and not acknowledged. -/
def SentStep (p : Ptr) (t : World × List Sent) (x : LinkInput) (t' : World × List Sent) : Prop :=
  LinkStep p t.1 x t'.1 ∧ ∃ s s', t.1.heap p = some s ∧ t'.1.heap p = some s' ∧
    t'.2 = sentAfter s s' x t.2

/-- Nothing that was sent is taken out of its slot before it is acknowledged: no new buffers and no
reset of the link while something was sent, no N(R) outside of V(A) to V(S) that covers something sent, and
no new data under the number of something sent. -/
def Spares (p : Ptr) (t : World × List Sent) : LinkInput → Prop
  | .turn turn => ∀ s v, t.1.heap p = some s → s.ReadsAt (t.1.fdsWatch s.fd) turn v →
      ∀ e ∈ t.2, e.ns ≠ v
  | .frame _ _ frame _ _ _ => (frame.type.resets → t.2 = []) ∧ ∀ s, t.1.heap p = some s →
      frame.type.acks → s.acks frame.nr ≤ s.acks s.vs ∨
        ∀ e ∈ t.2, s.acks frame.nr ≤ s.acks e.ns
  | .params _ _ m => (SetsockoptParams.ofMem m).reallocs → t.2 = []
  | .other => True

/-! ## The control field of an I frame -/

namespace Sock

variable {s : Sock} {buf : Buf} {e : Sent}

/-- The control field of an I frame is one, and holds N(S). -/
theorem controlI_fields (hmode : s.mode ≠ .dm) {ns : Nat} (hns : ns < s.slots) :
    Patty.controlI (s.controlI ns) ∧ s.nsField (s.controlI ns) = ns := by
  cases hm : s.mode with
  | dm => exact absurd hm hmode
  | sabm =>
    have hslots : s.slots = 2 ^ 3 := by simp [slots, hm]
    simp only [Patty.controlI, controlI, nsField, hm, hslots, beq_iff_eq] at hns ⊢
    exact ⟨Bits.bit_zero _ _ _ 3, Bits.low_field _ _ hns⟩
  | sabme =>
    have hslots : s.slots = 2 ^ 7 := by simp [slots, hm]
    simp only [Patty.controlI, controlI, nsField, hm, hslots, beq_iff_eq] at hns ⊢
    exact ⟨Bits.bit_zero _ _ _ 7, Bits.low_field _ _ hns⟩

/-- What waits in a slot is sent again as it was. -/
theorem HasSlots.retains (H : s.HasSlots buf) (hmode : s.mode ≠ .dm) (h : s.Stores e) :
    s.Retains e where
  stored := h.stored
  control := controlI_fields hmode h.ns
  resend := by
    have hcell := h.stored
    rw [H.payload_eq, cell] at hcell
    split at hcell
    · rename_i hpending
      have hlen := (Bool.and_eq_true_iff.mp hpending).1
      rw [decide_eq_true_eq] at hlen
      funext w
      simp only [M.sockResend, H.txSlot, bind_run, lift_ok]
      rw [if_pos hlen, h.pid, Option.some.inj hcell]
    · cases hcell

/-- V(S) moves by less than the modulus. -/
theorem txSeq_ne (s : Sock) (v : Nat) {k : Nat} (hk : 0 < k) (hk' : k < s.slots) :
    (v + k) % s.slots ≠ v := by
  intro h
  have hlt : v < s.slots := h ▸ Nat.mod_lt _ s.slots_pos
  have heq := Ring.eq_of_mod_eq (h.trans (Nat.mod_eq_of_lt hlt).symm).symm (Nat.le_add_right v k)
    (by omega)
  omega

theorem eight_le_slots (s : Sock) : 8 ≤ s.slots := by
  unfold slots
  split <;> omega

theorem Stores.link (h : s.Stores e) {s' : Sock} (hl : s'.link = s.link) : s'.Stores e where
  ns := link_slots hl ▸ h.ns
  pid := by
    have hproto : s'.proto = s.proto := congrArg Link.proto hl
    rw [hproto, h.pid]
  stored := (link_payload hl e.ns).trans h.stored

/-- Saving a payload under another number leaves the frame in its slot. -/
theorem Stores.save {bs : Bytes} (h : s.Stores e) (hsave : s.Saves bs buf)
    (hne : e.ns ≠ s.txSeq s.vs) : Stores { s with txSlots := some buf } e where
  ns := h.ns
  pid := h.pid
  stored := by rw [hsave.payload e.ns h.ns, if_neg hne, h.stored]

/-- What is saved under V(S) is stored. -/
theorem Saves.stores {bs : Bytes} (hsave : s.Saves bs buf) (hvs : s.vs < s.slots) :
    Stores { s with txSlots := some buf } ⟨s.vs, UInt8.ofNat s.proto, bs⟩ where
  ns := hvs
  pid := rfl
  stored := by rw [hsave.payload s.vs hvs, if_pos (txSeq_of_lt hvs).symm]

/-- An acknowledgement leaves the frames from N(R) on in their slots. -/
theorem Stores.ack {frame : Frame} {s' : Sock} (h : s.Stores e) (hack : s.Acked frame s')
    (hva : s.va < s.slots) (hle : s.acks frame.nr ≤ s.acks e.ns) : s'.Stores e where
  ns := by
    have hmode : s'.mode = s.mode := congrArg Link.mode hack.link
    exact slots_congr hmode ▸ h.ns
  pid := by
    have hproto : s'.proto = s.proto := congrArg Link.proto hack.link
    rw [hproto, h.pid]
  stored := by
    rw [hack.releases.kept e.ns h.ns fun k hk he => ?_, h.stored]
    -- a released number is nearer to V(A) than N(R)
    have hdist : s.acks e.ns = k := by
      rw [← he]
      exact Ring.dist_add hva (by have := s.acks_le frame.nr; omega)
    omega

end Sock

/-! ## Steps -/

/-- The connection stores all that was sent and not acknowledged. -/
def Retained (p : Ptr) (t : World × List Sent) : Prop :=
  ∃ s, Connected p t.1 s ∧ s.vs < s.slots ∧ ∀ e ∈ t.2, s.Stores e

variable {p : Ptr} {w w' : World} {s s' : Sock} {sent : List Sent} {frame : Frame}

/-- The number of new data is found from V(S) before and after the turn. -/
theorem sentSeq_eq {t : Turn} {watched : Bool} {v : Nat} (h : s.ReadsAt watched t v)
    (hvs : s'.vs = s.txSeq (v + 1)) : s.sentSeq s' = some v := by
  unfold Sock.sentSeq
  obtain ⟨hpay, rfl⟩ | ⟨hpay, -, rfl⟩ := h.seq
  · simp [hpay, hvs]
  · simp [hpay, hvs]

/-- V(S) stays, or has passed a frame that was sent again: no new data was sent. -/
theorem sentSeq_none (h : s'.vs = s.vs ∨ s.payload s.vs ≠ none ∧ s'.vs = s.txSeq (s.vs + 1)) :
    s.sentSeq s' = none := by
  have h8 := s.eight_le_slots
  have h1 : s.txSeq (s.vs + 1) ≠ s.vs := s.txSeq_ne s.vs (by omega) (by omega)
  have h2 : s.txSeq (s.txSeq (s.vs + 1) + 1) ≠ s.vs := by
    rw [Sock.txSeq, Sock.txSeq, Nat.mod_add_mod]
    exact s.txSeq_ne s.vs Nat.two_pos (by omega)
  have h3 : s.txSeq (s.txSeq (s.vs + 1) + 1) ≠ s.txSeq (s.vs + 1) :=
    s.txSeq_ne _ Nat.one_pos (by omega)
  unfold Sock.sentSeq
  obtain h | ⟨hpay, h⟩ := h
  · by_cases hpay : s.payload s.vs = none
    · simp [hpay, h, h1.symm]
    · simp [hpay, h, h2.symm]
  · simp [hpay, h, h3.symm]

/-- A turn keeps what was sent in its slot, and what it sends, if it does not use the number of
something sent. -/
theorem stores_turn {t : Turn} {watched : Bool} {buf : Buf} (H : s.HasSlots buf)
    (hvs : s.vs < s.slots) (hstores : ∀ e ∈ sent, s.Stores e)
    (hspare : ∀ v, s.ReadsAt watched t v → ∀ e ∈ sent, e.ns ≠ v)
    (h : TurnEffect s watched t s'.link) :
    (∃ buf, s'.HasSlots buf) ∧ s'.vs < s'.slots ∧ ∀ e ∈ sentAfter s s' (.turn t) sent, s'.Stores e := by
  have hslots : s'.slots = s.slots := Sock.slots_congr h.same.mode
  have hnone {r : Sock} (h₁ : s.sentSeq s' = none) (hr : ∀ e ∈ sent, r.Stores e)
      (hl : s'.link = r.link) : ∀ e ∈ sentAfter s s' (.turn t) sent, s'.Stores e := by
    intro e he
    simp only [sentAfter, h₁] at he
    exact (hr e he).link hl
  generalize hl : s'.link = l at h
  cases h with
  | idle =>
    have hvs' : s'.vs = s.vs := congrArg Link.vs hl
    refine ⟨⟨buf, H.link hl⟩, by rw [hvs', hslots]; exact hvs, ?_⟩
    exact hnone (sentSeq_none (.inl hvs')) hstores hl
  | resent hpay =>
    have hvs' : s'.vs = s.txSeq (s.vs + 1) := congrArg Link.vs hl
    refine ⟨⟨buf, (H.vs _).link hl⟩, by rw [hvs', hslots]; exact s.txSeq_lt _, ?_⟩
    refine hnone (r := { s with vs := s.txSeq (s.vs + 1) }) (sentSeq_none (.inr ⟨hpay, hvs'⟩)) ?_ hl
    exact fun e he => ⟨(hstores e he).ns, (hstores e he).pid, (hstores e he).stored⟩
  | @read v _ hat heff =>
    have hv : v < s.slots := by
      obtain ⟨-, rfl⟩ | ⟨-, -, rfl⟩ := hat.seq
      · exact hvs
      · exact s.txSeq_lt _
    have hsame : s'.vs = v → s.sentSeq s' = none := by
      intro hvs'
      refine sentSeq_none ?_
      obtain ⟨-, rfl⟩ | ⟨hpay, -, rfl⟩ := hat.seq
      · exact .inl hvs'
      · exact .inr ⟨hpay, hvs'⟩
    have hstores' : ∀ e ∈ sent, Sock.Stores { s with vs := v } e :=
      fun e he => ⟨(hstores e he).ns, (hstores e he).pid, (hstores e he).stored⟩
    have hother : ∀ e ∈ sent, e.ns ≠ Sock.txSeq { s with vs := v } v := by
      intro e he
      rw [Sock.txSeq_of_lt (s := { s with vs := v }) hv]
      exact hspare v hat e he
    cases heff with
    | nothing =>
      have hvs' : s'.vs = v := congrArg Link.vs hl
      refine ⟨⟨buf, (H.vs v).link hl⟩, by rw [hvs', hslots]; exact hv, ?_⟩
      exact hnone (hsame hvs') hstores' hl
    | @saved buf' _ hsave =>
      have hvs' : s'.vs = v := congrArg Link.vs hl
      refine ⟨⟨buf', hsave.slots.link hl⟩, by rw [hvs', hslots]; exact hv, ?_⟩
      exact hnone (hsame hvs') (fun e he => (hstores' e he).save hsave (hother e he)) hl
    | @sent buf' _ hsave =>
      have hvs' : s'.vs = s.txSeq (v + 1) := congrArg Link.vs hl
      refine ⟨⟨buf', (hsave.slots.vs _).link hl⟩, by rw [hvs', hslots]; exact s.txSeq_lt _, ?_⟩
      have hlink {e : Sent} (h : Sock.Stores { s with vs := v, txSlots := some buf' } e) : s'.Stores e :=
        Sock.Stores.link (s := { s with txSlots := some buf', vs := s.txSeq (v + 1) })
          ⟨h.ns, h.pid, h.stored⟩ hl
      intro e he
      simp only [sentAfter, sentSeq_eq hat hvs', List.mem_cons] at he
      obtain rfl | he := he
      · exact hlink (hsave.stores hv)
      · exact hlink ((hstores' e he).save hsave (hother e he))

/-- A frame leaves what it does not acknowledge in its slot. -/
theorem stores_frame (sys : Sys) (i : Nat) (m : Mem) (offset len : Nat) {buf : Buf}
    (H : s.HasSlots buf) (hvs : s.vs < s.slots) (hva : s.va < s.slots) (hnr : frame.nr < s.slots)
    (hstores : ∀ e ∈ sent, s.Stores e) (hresets : frame.type.resets → sent = [])
    (hspare : frame.type.acks → s.acks frame.nr ≤ s.acks s.vs ∨
      ∀ e ∈ sent, s.acks frame.nr ≤ s.acks e.ns)
    (h : FrameEffect s frame s'.link) :
    (∃ buf, s'.HasSlots buf) ∧ s'.vs < s'.slots ∧ s'.va < s'.slots ∧
      ∀ e ∈ sentAfter s s' (.frame sys i frame m offset len) sent, s'.Stores e := by
  have hslots : s'.slots = s.slots := Sock.slots_congr h.same.mode
  generalize hl : s'.link = l at h
  cases h with
  | nothing hacks =>
    have hvs' : s'.vs = s.vs := congrArg Link.vs hl
    have hva' : s'.va = s.va := congrArg Link.va hl
    refine ⟨⟨buf, H.link hl⟩, by rw [hvs', hslots]; exact hvs, by rw [hva', hslots]; exact hva, ?_⟩
    intro e he
    simp only [sentAfter, hacks, Bool.false_eq_true, false_and, if_false] at he
    exact (hstores e he).link hl
  | @acked s₁ hacks hack =>
    have hva' : s'.va = s₁.va := congrArg Link.va hl
    have hvs' : s'.vs = s₁.vs := congrArg Link.vs hl
    obtain ⟨buf₁, H₁⟩ := hack.releases.slots
    refine ⟨⟨buf₁, H₁.link hl⟩, ?_, by rw [hva', hslots]; exact hack.va_lt, ?_⟩
    · rw [hvs', hslots]
      obtain h | ⟨-, h⟩ := hack.vs
      · exact h.trans_lt hvs
      · exact h.trans_lt hnr
    · intro e he
      simp only [sentAfter, hacks, true_and] at he
      split at he
      · obtain ⟨he, hle⟩ := List.mem_filter.mp he
        exact ((hstores e he).ack hack hva (of_decide_eq_true hle)).link hl
      · rename_i hlt
        have hle := (hspare hacks).resolve_left hlt e he
        exact ((hstores e he).ack hack hva hle).link hl
  | @reset s₁ hres hclear =>
    have hva' : s'.va = 0 := (congrArg Link.va hl).trans (congrArg Link.va hclear.link)
    have hvs' : s'.vs = 0 := (congrArg Link.vs hl).trans (congrArg Link.vs hclear.link)
    obtain ⟨buf₁, H₁⟩ := hclear.slots
    refine ⟨⟨buf₁, H₁.link hl⟩, hvs' ▸ s'.slots_pos, hva' ▸ s'.slots_pos, fun e he => ?_⟩
    have hmem : e ∈ sent := by
      simp only [sentAfter] at he
      split at he
      · exact (List.mem_filter.mp he).1
      · exact he
    rw [hresets hres] at hmem
    cases hmem

/-- New parameters leave what was sent in its slot, if they come without new buffers. -/
theorem stores_params {data : SetsockoptParams} {buf : Buf} (H : s.HasSlots buf)
    (hvs : s.vs < s.slots) (hva : s.va < s.slots) (hstores : ∀ e ∈ sent, s.Stores e)
    (hspare : data.reallocs → sent = []) (h : ParamsEffect s data s'.link) :
    (∃ buf, s'.HasSlots buf) ∧ s'.vs < s'.slots ∧ s'.va < s'.slots ∧ s'.type = s.type ∧
      s'.mode = s.mode ∧ ∀ e ∈ sent, s'.Stores e := by
  generalize hl : s'.link = l at h
  cases h with
  | same =>
    have hslots := Sock.link_slots hl
    have hva' : s'.va = s.va := congrArg Link.va hl
    have hvs' : s'.vs = s.vs := congrArg Link.vs hl
    exact ⟨⟨buf, H.link hl⟩, by rw [hvs', hslots]; exact hvs, by rw [hva', hslots]; exact hva,
      congrArg Link.type hl, congrArg Link.mode hl, fun e he => (hstores e he).link hl⟩
  | @renewed s₁ buf₁ hre H₁ hempty hl₁ =>
    have hl' := hl.trans hl₁
    have hmode : s'.mode = s.mode := congrArg Link.mode hl'
    have hslots := Sock.slots_congr hmode
    have hva' : s'.va = s.va := congrArg Link.va hl'
    have hvs' : s'.vs = s.vs := congrArg Link.vs hl'
    refine ⟨⟨buf₁, H₁.link hl⟩, by rw [hvs', hslots]; exact hvs, by rw [hva', hslots]; exact hva,
      congrArg Link.type hl', hmode, ?_⟩
    rw [hspare hre]
    nofun

/-- A step keeps all that was sent and not acknowledged in its slot. -/
theorem retained_step {t t' : World × List Sent} {x : LinkInput} (hR : Retained p t)
    (hC : Spares p t x) (h : SentStep p t x t') : Retained p t' := by
  obtain ⟨s, C, hvs, hstores⟩ := hR
  obtain ⟨hlink, s₀, s', hp₀, hp', hsent⟩ := h
  obtain rfl : s = s₀ := Option.some.inj (C.heap.symm.trans hp₀)
  obtain ⟨buf, H⟩ := C.slots
  have hfind {s₁ : Sock} (h₁ : t'.1.heap p = some s₁) : s₁ = s' := Option.some.inj (h₁.symm.trans hp')
  cases x with
  | turn turn =>
    obtain ⟨s₁, hp₁, heff⟩ := hlink.turn_effect C
    obtain rfl := hfind hp₁
    obtain ⟨hbuf, hvs', hstores'⟩ := stores_turn H hvs hstores (fun v hv => hC s v C.heap hv) heff
    have hsame := heff.same
    have hslots : s₁.slots = s.slots := Sock.slots_congr hsame.mode
    have hva' : s₁.va < s₁.slots := by
      rw [heff.va, hslots]
      exact C.va
    exact ⟨s₁, ⟨hp', hsame.type.trans C.type, hsame.state.trans C.state, hsame.mode ▸ C.mode, hbuf, hva'⟩,
      hvs', hsent ▸ hstores'⟩
  | frame sys i frame m offset len =>
    have hnr : frame.nr < s.slots := by
      cases hlink with
      | frame hnr => exact hnr s C.heap
    obtain ⟨s₁, hp₁, heff⟩ := hlink.frame_effect C
    obtain rfl := hfind hp₁
    obtain ⟨hbuf, hvs', hva', hstores'⟩ := stores_frame sys i m offset len H hvs C.va hnr
      hstores hC.1 (hC.2 s C.heap) heff
    have hsame := heff.same
    exact ⟨s₁, ⟨hp', hsame.type.trans C.type, hsame.state.trans C.state, hsame.mode ▸ C.mode, hbuf, hva'⟩,
      hvs', hsent ▸ hstores'⟩
  | params sys client m =>
    have hopen : t'.1.IsOpen p := by
      cases hlink with
      | params _ _ hopen => exact hopen
    obtain ⟨s₁, hp₁, heff⟩ := hlink.params_effect C
    obtain rfl := hfind hp₁
    obtain ⟨hbuf, hvs', hva', htype, hmode, hstores'⟩ := stores_params H hvs C.va hstores hC heff
    obtain ⟨s₂, hp₂, hstate⟩ := hopen
    obtain rfl := hfind hp₂
    exact ⟨s₂, ⟨hp', htype.trans C.type, hstate, hmode ▸ C.mode, hbuf, hva'⟩, hvs', hsent ▸ hstores'⟩
  | other =>
    cases hlink with
    | other hheap =>
      obtain rfl := hfind (hheap.trans C.heap)
      exact ⟨s, ⟨hp', C.type, C.state, C.mode, C.slots, C.va⟩, hvs, hsent ▸ hstores⟩

/-- What a connection has sent and no N(R) between V(A) and V(S) has acknowledged is sent again as it
was, over every run in which nothing takes it out of its slot. -/
theorem retains_run {t : World × List Sent} (C : Connected p w s) (hvs : s.vs < s.slots)
    (h : Run (SentStep p) (Spares p) (w, []) t) (hp' : t.1.heap p = some s') {e : Sent}
    (he : e ∈ t.2) : s'.Retains e := by
  have hstart : Retained p (w, []) := ⟨s, C, hvs, nofun⟩
  obtain ⟨s₁, C₁, -, hstores⟩ :=
    h.invariant (I := Retained p) (fun _ _ _ hR hC hs => retained_step hR hC hs) hstart
  obtain rfl := Option.some.inj (C₁.heap.symm.trans hp')
  obtain ⟨buf, H⟩ := C₁.slots
  exact H.retains C₁.mode (hstores e he)

/-! ## A payload that is lost -/

theorem connected_acceptedSock : Connected 0 (.withSock acceptedSock) acceptedSock :=
  ⟨rfl, rfl, rfl, by decide, ⟨_, acceptedSock_slots⟩, by decide⟩

/-- The first byte that the client has written is sent under number 0. -/
theorem sentStep_first {w' : World} (h : (World.withSock acceptedSock).turns 0 [byteTurn] = some w') :
    SentStep 0 (.withSock acceptedSock, []) (.turn byteTurn) (w', [⟨0, 0xf0, [0x61]⟩]) := by
  have hsent : ((World.withSock acceptedSock).turns 0 [byteTurn]).any fun w' =>
      (w'.heap 0).any fun s' => acceptedSock.sentSeq s' = some 0 := by decide
  rw [h, Option.any_some] at hsent
  obtain ⟨s', hp', hseq⟩ := Option.any_eq_true _ _ |>.mp hsent
  rw [decide_eq_true_eq] at hseq
  obtain ⟨w₁, hstep, hw₁⟩ := step_turns h
  cases hw₁
  refine ⟨hstep, acceptedSock, s', rfl, hp', ?_⟩
  simp only [sentAfter, hseq]
  rfl

/-- After it, the frame is sent again as it was. -/
theorem retains_first : ∃ w' s', (World.withSock acceptedSock).turns 0 [byteTurn] = some w' ∧
    w'.heap 0 = some s' ∧ s'.Retains ⟨0, 0xf0, [0x61]⟩ := by
  obtain ⟨w', hw'⟩ := Option.isSome_iff_exists.mp
    (show ((World.withSock acceptedSock).turns 0 [byteTurn]).isSome by decide)
  have hstep := sentStep_first hw'
  obtain ⟨-, s, s', -, hp', -⟩ := hstep
  refine ⟨w', s', hw', hp', retains_run connected_acceptedSock (by decide)
    (.single ?_ (sentStep_first hw')) hp' (List.mem_singleton.mpr rfl)⟩
  intro s v _ _ e he
  cases he

/-- The option with which a client sets the window to 4. -/
def windowOption : Mem :=
  Mem.ofBytes (leBytes 8 PATTY_AX25_SOCK_PARAM_WINDOW ++ leBytes 8 0 ++ leBytes 8 4) fun _ => 0

/-- Setting the window empties the slots. -/
theorem not_retains_option : ¬∀ (p : Ptr) (w : World) (s : Sock) (t : World × List Sent) (s' : Sock)
    (e : Sent), Connected p w s → s.vs < s.slots → Run (SentStep p) (fun _ _ => True) (w, []) t →
    t.1.heap p = some s' → e ∈ t.2 → s'.Retains e := by
  intro h
  have hlost : ((World.withSock acceptedSock).turns 0 [byteTurn]).any fun w₁ =>
      match M.paramsOption 5 0 windowOption { w₁ with sys := .allOk } with
      | .ok (r, w₂) => decide (0 ≤ r) && (w₂.heap 0).any fun s₂ =>
          decide (s₂.state = .established) && decide (s₂.payload 0 = none)
      | .error _ => false := by decide
  obtain ⟨w₁, hw₁, hlost⟩ := Option.any_eq_true _ _ |>.mp hlost
  split at hlost
  · rename_i r w₂ hrun
    rw [Bool.and_eq_true, decide_eq_true_eq] at hlost
    obtain ⟨hr, hlost⟩ := hlost
    obtain ⟨s₂, hp₂, hs₂⟩ := Option.any_eq_true _ _ |>.mp hlost
    rw [Bool.and_eq_true, decide_eq_true_eq, decide_eq_true_eq] at hs₂
    obtain ⟨hstate, hnone⟩ := hs₂
    have hfirst := sentStep_first hw₁
    obtain ⟨-, s, s₁, -, hp₁, -⟩ := hfirst
    have hstep : SentStep 0 (w₁, [⟨0, 0xf0, [0x61]⟩]) (.params .allOk 5 windowOption)
        (w₂, [⟨0, 0xf0, [0x61]⟩]) := ⟨.params hrun hr ⟨s₂, hp₂, hstate⟩, s₁, s₂, hp₁, hp₂, rfl⟩
    have hretains := h 0 _ _ _ s₂ _ connected_acceptedSock (by decide)
      ((Run.single trivial (sentStep_first hw₁)).trans (.single trivial hstep)) hp₂
      (List.mem_singleton.mpr rfl)
    exact nomatch hnone.symm.trans hretains.stored
  · cases hlost

end Patty
