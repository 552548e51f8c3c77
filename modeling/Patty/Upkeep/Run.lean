import Patty.Upkeep.Handle
import Patty.Upkeep.Socks

/-! # A step keeps what can be kept

Each event keeps all sockets good, or it fails and ends the run (`kept_step`). What a turn, a request of
`connect` and a frame need is left open. -/

namespace Patty

open Prog

/-- What a frame that keeps all sockets good may lead to. -/
structure Leads (Good : Ptr → Sock → Prop) (A : List (Nat × Nat) → Prop) (n : Ptr) (Z : World → Prop) :
    Prop where
  kept : ∀ w, Kept Good A n w → Z w
  left : ∀ w, Z w → Left A n w
  quiet : ∀ {α : Type} {m : M α}, M.Quiet m → M.Keeping Z m

theorem Leads.refl {Good : Ptr → Sock → Prop} {A : List (Nat × Nat) → Prop} {n : Ptr} :
    Leads Good A n (Kept Good A n) := ⟨fun _ h => h, fun _ h => h.left, fun h => h.still.kept⟩

/-- What the event needs of the server to keep all sockets good. -/
structure Allows (Good : Ptr → Sock → Prop) (A : List (Nat × Nat) → Prop) (n : Ptr) (Z : World → Prop)
    (w : World) (e : Event) : Prop where
  turn : ∀ fd elapsed ready inp p, e = .sock fd elapsed ready inp → w.socksByFd.lookup fd = some p →
    ∃ V R, Held V R p ∧ WritesWell Good V p inp ∧ V w
  connect : ∀ c m w', e = .client c → w.asks c = some (PATTY_CLIENT_CONNECT, m, w') → Kept Good A n w' →
    wp (M.connectRequest c m) (fun r w'' => Kept Good A n w'' ∨ Left A n w'' ∧ r < 0) (fun _ => True) w'
  frame : ∀ i buf len, e = .frame i buf len → wp (M.handleFrame i buf len)
    (fun r w' => Z w' ∨ Left A n w' ∧ r < 0 ∧ w'.errno ≠ .eio) (fun _ => True) w

namespace M

variable {Good : Ptr → Sock → Prop} {A : List (Nat × Nat) → Prop} {n : Ptr} {Z : World → Prop} {w w' : World}
  {e : Event}

/-- The result of a frame that failed without `EIO` is passed on. -/
theorem lasts_frameResult {i : Nat} {r : Int} (hz : Leads Good A n Z)
    (h : Z w ∨ Left A n w ∧ r < 0 ∧ w.errno ≠ .eio) :
    wp (frameResult i r) (fun r w' => Z w' ∨ Left A n w' ∧ r < 0) (fun _ => True) w := by
  rw [frameResult, wp_bind, wp_get, wp_ite]
  refine ⟨fun ⟨_, heio⟩ => ?_, fun _ => h.imp_right fun h => ⟨h.1, h.2.1⟩⟩
  have hw : Z w := h.resolve_right fun h => h.2.2 heio
  have hdown : Quiet (do
      let iface ← getIface i
      setIface i fun iface => { iface with status := .down }
      fdClear iface.fd
      pure 0 : M Int) := quiet_getIface.bind fun _ => quiet_setIface.bind fun _ =>
    quiet_fdClear.bind fun _ => .pure
  exact (hz.quiet hdown w hw).post fun _ _ h => .inl h

theorem lasts_handleEvent (L : Lasting Good n) (hz : Leads Good A n Z) (hw : Kept Good A n w)
    (he : Allows Good A n Z w e) :
    wp (handleEvent e) (fun r w' => Z w' ∨ Left A n w' ∧ r < 0) (fun _ => True) w := by
  have hlasts {m : M Int} (h : wp m (fun r w' => Kept Good A n w' ∨ Left A n w' ∧ r < 0) (fun _ => True) w) :
      wp m (fun r w' => Z w' ∨ Left A n w' ∧ r < 0) (fun _ => True) w :=
    h.post fun _ w' h => h.imp_left (hz.kept w')
  cases e with
  | sock fd elapsed ready inp =>
    rw [handleEvent, wp_bind, wp_sockByFd]
    cases hfd : w.socksByFd.lookup fd with
    | none => exact .inl (hz.kept w hw)
    | some p =>
      obtain ⟨V, R, H, hwrite, hv⟩ := he.turn fd elapsed ready inp p rfl hfd
      exact (kept_handleSock L H hwrite hw hv).post fun _ w' h => .inl (hz.kept w' h)
  | client c =>
    rw [handleEvent, wp_bind, wp_get, wp_ite]
    exact ⟨fun _ => hlasts (lasts_handleClient L hw fun m w' h hw' => he.connect c m w' rfl h hw'),
      fun _ => .inl (hz.kept w hw)⟩
  | write c bs =>
    have hinbox : Still (Prog.modify fun w : World =>
        { w with inbox := Function.update w.inbox c (w.inbox c ++ bs) }) := .modify fun _ => rfl
    exact hlasts (Keeping.lasts (hinbox.kept.bind fun _ => .pure) w hw)
  | accept fd => exact hlasts (kept_acceptClient.lasts w hw)
  | frame i buf len =>
    rw [handleEvent, wp_bind, wp_get]
    split
    · exact .inl (hz.kept w hw)
    · rw [wp_ite]
      refine ⟨fun _ => .inl (hz.kept w hw), fun _ => ?_⟩
      rw [wp_bind]
      exact (he.frame i buf len rfl).post fun _ _ h => lasts_frameResult hz h

/-- A step keeps all sockets good as long as the server runs. -/
theorem kept_step {inp : Input} (L : Lasting Good n) (hz : Leads Good A n Z) (h : w.Step inp w')
    (hw : Kept Good A n w) (he : Allows Good A n Z { w with sys := inp.sys } inp.event) :
    Left A n w' ∧ (w'.running → Z w') := by
  obtain ⟨-, r, w₁, hrun, rfl⟩ := step_handles h
  have hw₀ : Kept Good A n { w with sys := inp.sys } := ⟨hw.socks, hw.next, hw.accepts⟩
  have hstop (h : Left A n w₁) : Left A n { w₁ with running := false } := ⟨h.socks, h.next, h.accepts⟩
  rcases (lasts_handleEvent L hz hw₀ he).ok hrun with hw₁ | ⟨hleft, hr⟩
  · have hleft := hz.left w₁ hw₁
    split_ifs
    · exact ⟨hstop hleft, fun h => nomatch h⟩
    · exact ⟨hleft, fun _ => hw₁⟩
  · rw [if_pos hr]
    exact ⟨hstop hleft, fun h => nomatch h⟩

end M

end Patty
