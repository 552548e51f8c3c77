import Mathlib.Logic.Function.Basic
import Mathlib.Logic.Relation

/-! # Stateful programs that may fault

A program over a state either returns a value with a next state, or faults: a fault stands for
behaviour the language leaves undefined, after which nothing is known. `wp m Q E s` is the weakest
precondition of `m`: run from `s`, it returns a value and state satisfying `Q` or faults as `E`
allows. The rules for `wp` rewrite it along the program, so that a specification is proved by
`simp` down to the tests the program makes. `Leaves f m` is the frame property: `m` does not
change the part `f` of the state. -/

/-- A program over states `σ`: it returns a value and the next state, or faults. -/
def Prog (σ ε α : Type) : Type := σ → Except ε (α × σ)

namespace Prog

variable {σ ε α β γ τ : Type}

@[inline] protected def pure (a : α) : Prog σ ε α := fun s => .ok (a, s)

@[inline] protected def bind (m : Prog σ ε α) (f : α → Prog σ ε β) : Prog σ ε β := fun s =>
  match m s with
  | .ok (a, s') => f a s'
  | .error e => .error e

instance : Monad (Prog σ ε) where
  pure := Prog.pure
  bind := Prog.bind

/-- The state. -/
def get : Prog σ ε σ := fun s => .ok (s, s)

/-- A part of the state. -/
def gets (f : σ → α) : Prog σ ε α := fun s => .ok (f s, s)

def modify (f : σ → σ) : Prog σ ε Unit := fun s => .ok ((), f s)

def fault (e : ε) : Prog σ ε α := fun _ => .error e

/-- A computation that does not use the state. -/
def lift (x : Except ε α) : Prog σ ε α := fun s =>
  match x with
  | .ok a => .ok (a, s)
  | .error e => .error e

/-- Run `m` for each element in order, as long as it returns a value that `go` accepts. -/
def forEach (l : List α) (m : α → Prog σ ε Int) : Prog σ ε Int :=
  match l with
  | [] => pure 0
  | a :: l => do
    let r ← m a
    if r < 0 then pure (-1) else forEach l m

/-! ## Running -/

@[simp] theorem pure_run (a : α) (s : σ) : (pure a : Prog σ ε α) s = .ok (a, s) := rfl

theorem bind_run (m : Prog σ ε α) (f : α → Prog σ ε β) (s : σ) :
    (m >>= f) s = match m s with
      | .ok (a, s') => f a s'
      | .error e => .error e := rfl

theorem bind_ok {m : Prog σ ε α} {f : α → Prog σ ε β} {s s' : σ} {a : α}
    (h : m s = .ok (a, s')) : (m >>= f) s = f a s' := by
  rw [bind_run, h]

theorem bind_error {m : Prog σ ε α} {f : α → Prog σ ε β} {s : σ} {e : ε}
    (h : m s = .error e) : (m >>= f) s = .error e := by
  rw [bind_run, h]

/-- A sequence that returns went through a return of its first half. -/
theorem bind_eq_ok {m : Prog σ ε α} {f : α → Prog σ ε β} {s s' : σ} {b : β} :
    (m >>= f) s = .ok (b, s') ↔ ∃ a t, m s = .ok (a, t) ∧ f a t = .ok (b, s') := by
  rw [bind_run]
  rcases m s with e | ⟨a, t⟩
  · simp
  · constructor
    · exact fun h => ⟨a, t, rfl, h⟩
    · rintro ⟨a', t', h, h'⟩
      cases h
      exact h'

@[simp] theorem get_run (s : σ) : (get : Prog σ ε σ) s = .ok (s, s) := rfl
@[simp] theorem gets_run (f : σ → α) (s : σ) : (gets f : Prog σ ε α) s = .ok (f s, s) := rfl
@[simp] theorem modify_run (f : σ → σ) (s : σ) : (modify f : Prog σ ε Unit) s = .ok ((), f s) := rfl
@[simp] theorem fault_run (e : ε) (s : σ) : (fault e : Prog σ ε α) s = .error e := rfl
@[simp] theorem lift_ok (a : α) (s : σ) : (lift (.ok a) : Prog σ ε α) s = .ok (a, s) := rfl
@[simp] theorem lift_error (e : ε) (s : σ) : (lift (.error e) : Prog σ ε α) s = .error e := rfl

/-- The state after `m`, if it returns. -/
def after (m : Prog σ ε α) (s : σ) : Option σ :=
  match m s with
  | .ok (_, s') => some s'
  | .error _ => none

theorem after_eq_some {m : Prog σ ε α} {s s' : σ} : m.after s = some s' ↔ ∃ a, m s = .ok (a, s') := by
  unfold after
  rcases m s with e | ⟨a, t⟩ <;> simp

theorem after_getD {m : Prog σ ε α} {s d : σ} (h : (m.after s).isSome) :
    ∃ a, m s = .ok (a, (m.after s).getD d) := by
  obtain ⟨s', hs'⟩ := Option.isSome_iff_exists.mp h
  rw [hs', Option.getD_some]
  exact after_eq_some.mp hs'

/-- Running `m` for what comes after goes on where it did not fail. -/
theorem forEach_append {l l' : List α} {m : α → Prog σ ε Int} : forEach (l ++ l') m = (do
    let r ← forEach l m
    if r < 0 then pure (-1) else forEach l' m) := by
  induction l with
  | nil => rfl
  | cons a l ih =>
    funext s
    rw [List.cons_append, forEach, forEach, bind_run, bind_run, bind_run]
    rcases m a s with e | ⟨r, s'⟩
    · rfl
    · by_cases hr : r < 0
      · simp only [if_pos hr]
        rfl
      · simp only [if_neg hr, ih]
        rfl

theorem forEach_flatMap {l : List α} {f : α → List β} {m : β → Prog σ ε Int} :
    forEach (l.flatMap f) m = forEach l fun a => forEach (f a) m := by
  induction l with
  | nil => rfl
  | cons a l ih => rw [List.flatMap_cons, forEach_append, forEach, ih]

/-! ## Weakest preconditions -/

/-- From `s`, `m` returns with `Q`, or faults as `E` allows. -/
def wp (m : Prog σ ε α) (Q : α → σ → Prop) (E : ε → Prop) (s : σ) : Prop :=
  match m s with
  | .ok (a, s') => Q a s'
  | .error e => E e

variable {Q Q' : α → σ → Prop} {E E' : ε → Prop} {s s' : σ}

theorem wp_of_ok {m : Prog σ ε α} {a : α} (h : m s = .ok (a, s')) (hQ : Q a s') :
    wp m Q E s := by rw [wp, h]; exact hQ

theorem wp.ok {m : Prog σ ε α} {a : α} (H : wp m Q E s) (h : m s = .ok (a, s')) : Q a s' := by
  rw [wp, h] at H; exact H

theorem wp.after {m : Prog σ ε α} {Q : σ → Prop} (H : wp m (fun _ s' => Q s') E s)
    (h : m.after s = some s') : Q s' := by
  obtain ⟨a, ha⟩ := after_eq_some.mp h
  exact H.ok ha

theorem wp.error {m : Prog σ ε α} {e : ε} (H : wp m Q E s) (h : m s = .error e) : E e := by
  rw [wp, h] at H; exact H

theorem wp_iff {m : Prog σ ε α} : wp m Q E s ↔
    (∀ a s', m s = .ok (a, s') → Q a s') ∧ ∀ e, m s = .error e → E e := by
  unfold wp
  rcases m s with e | ⟨a, s'⟩ <;> simp

/-- The rule where nothing is known of `m`, and it may fault. -/
theorem wp_intro {m : Prog σ ε α} (h : ∀ a s', m s = .ok (a, s') → Q a s') :
    wp m Q (fun _ => True) s := wp_iff.mpr ⟨h, fun _ _ => trivial⟩

theorem wp.mono {m : Prog σ ε α} (H : wp m Q E s) (hQ : ∀ a s', Q a s' → Q' a s')
    (hE : ∀ e, E e → E' e) : wp m Q' E' s := by
  rw [wp_iff] at H ⊢
  exact ⟨fun a s' h => hQ a s' (H.1 a s' h), fun e h => hE e (H.2 e h)⟩

theorem wp.post {m : Prog σ ε α} (H : wp m Q E s) (hQ : ∀ a s', Q a s' → Q' a s') :
    wp m Q' E s := H.mono hQ fun _ h => h

theorem wp.and {m : Prog σ ε α} (H : wp m Q E s) (H' : wp m Q' E' s) :
    wp m (fun a s' => Q a s' ∧ Q' a s') E s := by
  rw [wp_iff] at H H' ⊢
  exact ⟨fun a s' h => ⟨H.1 a s' h, H'.1 a s' h⟩, H.2⟩

@[simp] theorem wp_pure (a : α) : wp (pure a : Prog σ ε α) Q E s ↔ Q a s := Iff.rfl

@[simp] theorem wp_bind {m : Prog σ ε β} {f : β → Prog σ ε α} :
    wp (m >>= f) Q E s ↔ wp m (fun b t => wp (f b) Q E t) E s := by
  unfold wp
  rw [bind_run]
  rcases m s with e | ⟨a, s'⟩ <;> rfl

@[simp] theorem wp_map {m : Prog σ ε β} {f : β → α} :
    wp (f <$> m) Q E s ↔ wp m (fun b t => Q (f b) t) E s := wp_bind

@[simp] theorem wp_get {Q : σ → σ → Prop} : wp (get : Prog σ ε σ) Q E s ↔ Q s s := Iff.rfl

@[simp] theorem wp_gets {f : σ → α} : wp (gets f : Prog σ ε α) Q E s ↔ Q (f s) s := Iff.rfl

@[simp] theorem wp_modify {f : σ → σ} {Q : Unit → σ → Prop} :
    wp (modify f : Prog σ ε Unit) Q E s ↔ Q () (f s) := Iff.rfl

@[simp] theorem wp_fault {e : ε} : wp (fault e : Prog σ ε α) Q E s ↔ E e := Iff.rfl

theorem wp_lift {x : Except ε α} : wp (lift x : Prog σ ε α) Q E s ↔
    (∀ a, x = .ok a → Q a s) ∧ ∀ e, x = .error e → E e := by
  cases x <;> simp [wp, lift]

@[simp] theorem wp_lift_ok {a : α} : wp (lift (.ok a) : Prog σ ε α) Q E s ↔ Q a s := Iff.rfl

theorem wp_ite {c : Prop} [Decidable c] {m m' : Prog σ ε α} :
    wp (if c then m else m') Q E s ↔ (c → wp m Q E s) ∧ (¬c → wp m' Q E s) := by
  split <;> simp_all

theorem wp_trivial {m : Prog σ ε α} : wp m (fun _ _ => True) (fun _ => True) s := by
  rw [wp_iff]; exact ⟨fun _ _ _ => trivial, fun _ _ => trivial⟩

/-- The rule for a loop: an invariant every turn keeps. -/
theorem wp_forEach {I : σ → Prop} {l : List α} {m : α → Prog σ ε Int}
    (hm : ∀ a ∈ l, ∀ s, I s → wp (m a) (fun _ s' => I s') E s) (hs : I s) :
    wp (forEach l m) (fun _ s' => I s') E s := by
  induction l generalizing s with
  | nil => exact hs
  | cons a l ih =>
    rw [forEach, wp_bind]
    refine (hm a (by simp) s hs).post fun r t ht => ?_
    rw [wp_ite]
    exact ⟨fun _ => ht, fun _ => ih (fun b hb => hm b (by simp [hb])) ht⟩

/-! ## Invariants -/

/-- `m` keeps the invariant `I`, and faults only as `E` allows. -/
def Keeps (I : σ → Prop) (E : ε → Prop) (m : Prog σ ε α) : Prop :=
  ∀ s, I s → wp m (fun _ s' => I s') E s

namespace Keeps

variable {I : σ → Prop} {m : Prog σ ε α}

theorem pure {a : α} : Keeps I E (Pure.pure a : Prog σ ε α) := fun _ h => h

theorem bind {g : α → Prog σ ε β} (hm : Keeps I E m) (hg : ∀ a, Keeps I E (g a)) :
    Keeps I E (m >>= g) := fun s hs => wp_bind.mpr ((hm s hs).post fun a t ht => hg a t ht)

/-- The rule where something is known of the value of `m`. -/
theorem bind_of {P : α → Prop} {g : α → Prog σ ε β} (hm : Keeps I E m)
    (hP : ∀ s, Prog.wp m (fun a _ => P a) (fun _ => True) s) (hg : ∀ a, P a → Keeps I E (g a)) :
    Keeps I E (m >>= g) := by
  intro s hs
  rw [wp_bind]
  exact ((hm s hs).and (hP s)).post fun a t h => hg a h.2 t h.1

theorem get_bind {g : σ → Prog σ ε α} (hg : ∀ s, I s → Keeps I E (g s)) :
    Keeps I E (Prog.get >>= g) := fun s hs => hg s hs s hs

/-- What leaves alone what the invariant is about keeps it. -/
theorem of_leaves {f : σ → τ} (hm : ∀ s a s', m s = .ok (a, s') → f s' = f s)
    (hI : ∀ s s', f s' = f s → I s → I s') : Keeps I (fun _ => True) m := by
  intro s hs
  exact wp_intro fun a s' h => hI s s' (hm s a s' h) hs

theorem gets {f : σ → α} : Keeps I E (Prog.gets f) := fun _ h => h

theorem modify {g : σ → σ} (h : ∀ s, I s → I (g s)) : Keeps I E (Prog.modify g) := h

theorem fault {e : ε} (h : E e) : Keeps I E (Prog.fault e : Prog σ ε α) := fun _ _ => h

theorem lift_bind {x : Except ε α} {g : α → Prog σ ε β} (hx : ∀ e, x = .error e → E e)
    (hg : ∀ a, x = .ok a → Keeps I E (g a)) : Keeps I E (Prog.lift x >>= g) := by
  intro s hs
  rw [wp_bind, wp_lift]
  exact ⟨fun a ha => hg a ha s hs, hx⟩

theorem ite {c : Prop} [Decidable c] {m' : Prog σ ε α} (h : c → Keeps I E m)
    (h' : ¬c → Keeps I E m') : Keeps I E (if c then m else m') := by
  split
  · exact h ‹_›
  · exact h' ‹_›

theorem forEach {l : List β} {m : β → Prog σ ε Int} (hm : ∀ b ∈ l, Keeps I E (m b)) :
    Keeps I E (Prog.forEach l m) := fun _ hs => wp_forEach (fun b hb s hI => hm b hb s hI) hs

end Keeps

/-! ## Frames -/

/-- `m` does not change the part `f` of the state. -/
def Leaves (f : σ → τ) (m : Prog σ ε α) : Prop :=
  ∀ s a s', m s = .ok (a, s') → f s' = f s

namespace Leaves

variable {f : σ → τ} {m : Prog σ ε α}

theorem pure {a : α} : Leaves f (Pure.pure a : Prog σ ε α) := by
  intro s b s' h; cases h; rfl

theorem bind {g : α → Prog σ ε β} (hm : Leaves f m) (hg : ∀ a, Leaves f (g a)) :
    Leaves f (m >>= g) := by
  intro s b s' h
  obtain ⟨a, t, h1, h2⟩ := bind_eq_ok.mp h
  exact (hg a t b s' h2).trans (hm s a t h1)

theorem get : Leaves f (Prog.get : Prog σ ε σ) := by
  intro s b s' h; cases h; rfl

theorem gets {g : σ → α} : Leaves f (Prog.gets g : Prog σ ε α) := by
  intro s b s' h; cases h; rfl

theorem modify {g : σ → σ} (h : ∀ s, f (g s) = f s) : Leaves f (Prog.modify g : Prog σ ε Unit) := by
  intro s b s' h'; cases h'; exact h s

theorem fault {e : ε} : Leaves f (Prog.fault e : Prog σ ε α) := fun _ _ _ h => nomatch h

theorem lift {x : Except ε α} : Leaves f (Prog.lift x : Prog σ ε α) := by
  intro s b s' h
  cases x with
  | ok a => cases h; rfl
  | error e => cases h

theorem ite {c : Prop} [Decidable c] {m' : Prog σ ε α} (h : Leaves f m) (h' : Leaves f m') :
    Leaves f (if c then m else m') := by
  split <;> assumption

theorem forEach {l : List β} {m : β → Prog σ ε Int} (hm : ∀ b ∈ l, Leaves f (m b)) :
    Leaves f (Prog.forEach l m) := by
  induction l with
  | nil => exact pure
  | cons b l ih =>
    exact (hm b (by simp)).bind fun r => ite pure (ih fun c hc => hm c (by simp [hc]))

/-- What `f` determines is not changed. -/
theorem comp {g : τ → γ} (h : Leaves f m) : Leaves (fun s => g (f s)) m :=
  fun s a s' hm => congrArg g (h s a s' hm)

theorem prod {g : σ → γ} (h : Leaves f m) (h' : Leaves g m) : Leaves (fun s => (f s, g s)) m :=
  fun s a s' hm => Prod.ext (h s a s' hm) (h' s a s' hm)

/-- What holds of every state with the same `f` holds after `m`. -/
theorem wp (h : Leaves f m) {Q : α → σ → Prop} {E : ε → Prop} {s : σ}
    (hQ : ∀ a s', f s' = f s → Q a s') (hE : ∀ e, E e) : wp m Q E s :=
  wp_iff.mpr ⟨fun a s' hm => hQ a s' (h s a s' hm), fun e _ => hE e⟩

end Leaves

end Prog
