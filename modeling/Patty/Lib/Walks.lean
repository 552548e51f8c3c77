import Patty.Lib.Prog

/-! # The steps that a program takes

Many invariants are about a few small steps, and a program that takes only such steps keeps them all. `Walks E C m`
says this of a program once: started where `C` holds, what `m` does is a sequence of steps of `E`. A condition on
the state lets a step say what it changes, which a program may know from what it has read before. -/

namespace Prog

open Relation

variable {σ ε α β τ : Type}

/-- Started where `C` holds, `m` takes only steps of `E`. -/
def Walks (E : σ → σ → Prop) (C : σ → Prop) (m : Prog σ ε α) : Prop :=
  ∀ s a s', C s → m s = .ok (a, s') → ReflTransGen E s s'

namespace Walks

variable {E : σ → σ → Prop} {C C' : σ → Prop} {m : Prog σ ε α}

/-- The rule for a single step. -/
theorem one (h : ∀ s a s', C s → m s = .ok (a, s') → E s s') : Walks E C m :=
  fun s a s' hC hm => .single (h s a s' hC hm)

/-- The rule for a single step by what `m` leaves. -/
theorem one_wp (h : ∀ s, C s → wp m (fun _ s' => E s s') (fun _ => True) s) : Walks E C m :=
  one fun s _ _ hC hm => (h s hC).ok hm

theorem pure {a : α} : Walks E C (Pure.pure a : Prog σ ε α) := by
  intro s b s' _ h
  cases h
  exact .refl

theorem get : Walks E C (Prog.get : Prog σ ε σ) := by
  intro s b s' _ h
  cases h
  exact .refl

theorem gets {f : σ → α} : Walks E C (Prog.gets f : Prog σ ε α) := by
  intro s b s' _ h
  cases h
  exact .refl

theorem fault {e : ε} : Walks E C (Prog.fault e : Prog σ ε α) := by
  intro s a s' _ h
  cases h

theorem lift {x : Except ε α} : Walks E C (Prog.lift x) := by
  intro s a s' _ h
  cases x with
  | ok b =>
    cases h
    exact .refl
  | error e => cases h

theorem modify {g : σ → σ} (h : ∀ s, C s → E s (g s)) : Walks E C (Prog.modify g : Prog σ ε Unit) := by
  apply one
  intro s a s' hC hm
  cases hm
  exact h s hC

theorem ite {c : Prop} [Decidable c] {m' : Prog σ ε α} (h : Walks E C m) (h' : Walks E C m') :
    Walks E C (if c then m else m') := by
  split
  · exact h
  · exact h'

/-- The rule where something is known after `m`. -/
theorem bind_of {D : α → σ → Prop} {g : α → Prog σ ε β} (hm : Walks E C m)
    (hD : ∀ s, C s → wp m D (fun _ => True) s) (hg : ∀ a, Walks E (D a) (g a)) : Walks E C (m >>= g) := by
  intro s b s' hC h
  obtain ⟨a, t, h₁, h₂⟩ := bind_eq_ok.mp h
  exact (hm s a t hC h₁).trans (hg a t b s' ((hD s hC).ok h₁) h₂)

theorem weaken (hC : ∀ s, C' s → C s) (h : Walks E C m) : Walks E C' m :=
  fun s a s' hs hm => h s a s' (hC s hs) hm

theorem anywhere (h : Walks E (fun _ => True) m) : Walks E C m := h.weaken fun _ _ => trivial

theorem bind {g : α → Prog σ ε β} (hm : Walks E C m) (hg : ∀ a, Walks E (fun _ => True) (g a)) :
    Walks E C (m >>= g) := hm.bind_of (fun _ _ => wp_trivial.post fun _ _ _ => trivial) hg

/-- The rule where `m` leaves alone what the condition is about. -/
theorem bind_leaves {f : σ → τ} {g : α → Prog σ ε β} (hm : Walks E C m) (hl : Leaves f m)
    (hC : ∀ s s', f s' = f s → C s → C s') (hg : ∀ a, Walks E C (g a)) : Walks E C (m >>= g) :=
  hm.bind_of (fun s hs => hl.wp (fun _ s' h => hC s s' h hs) fun _ => trivial) hg

theorem forEach {l : List β} {m : β → Prog σ ε Int} (hm : ∀ b ∈ l, Walks E (fun _ => True) (m b)) :
    Walks E C (Prog.forEach l m) := by
  induction l generalizing C with
  | nil => exact pure
  | cons b l ih =>
    exact (hm b List.mem_cons_self).anywhere.bind fun r => ite pure (ih fun c hc => hm c (List.mem_cons_of_mem b hc))

end Walks

end Prog
