import Mathlib.Logic.Relation

/-! # Runs of a system that takes inputs

A system is a relation between a state, an input and the next state. `Run step C` relates a state to
the states that inputs lead to from it, each input meeting the condition `C` in the state where it is
taken. An invariant of a run is proved once for a step (`Run.invariant`), also one that needs a ghost
value that follows the run (`Run.ghost`). -/

variable {σ ι γ : Type}

/-- A run whose inputs meet `C` where they are taken. -/
inductive Run (step : σ → ι → σ → Prop) (C : σ → ι → Prop) (s : σ) : σ → Prop
  | refl : Run step C s s
  | tail {t u : σ} {i : ι} : Run step C s t → C t i → step t i u → Run step C s u

namespace Run

variable {step : σ → ι → σ → Prop} {C C' : σ → ι → Prop} {s t u : σ}

theorem single {i : ι} (hC : C s i) (h : step s i t) : Run step C s t := .tail .refl hC h

theorem trans (h : Run step C s t) (h' : Run step C t u) : Run step C s u := by
  induction h' with
  | refl => exact h
  | tail _ hC hs ih => exact .tail ih hC hs

theorem mono (hC : ∀ s i, C s i → C' s i) (h : Run step C s t) : Run step C' s t := by
  induction h with
  | refl => exact .refl
  | tail _ hc hs ih => exact .tail ih (hC _ _ hc) hs

/-- What a step keeps, a run keeps. -/
theorem invariant {I : σ → Prop} (hstep : ∀ s i t, I s → C s i → step s i t → I t) (hs : I s)
    (h : Run step C s t) : I t := by
  induction h with
  | refl => exact hs
  | tail _ hC hs ih => exact hstep _ _ _ ih hC hs

/-- The rule for an invariant that a ghost value carries. -/
theorem ghost {I : γ → σ → Prop}
    (hstep : ∀ g s i t, I g s → C s i → step s i t → ∃ g', I g' t) {g : γ} (hs : I g s)
    (h : Run step C s t) : ∃ g', I g' t := by
  induction h with
  | refl => exact ⟨g, hs⟩
  | tail _ hC hst ih =>
    obtain ⟨g', hg⟩ := ih
    exact hstep g' _ _ _ hg hC hst

end Run

/-! ## Runs with their states -/

/-- The inputs and states of a run from `s`, in order. -/
inductive Trace (step : σ → ι → σ → Prop) : σ → List (ι × σ) → Prop
  | nil {s : σ} : Trace step s []
  | cons {s t : σ} {i : ι} {l : List (ι × σ)} : step s i t → Trace step t l → Trace step s ((i, t) :: l)

/-- Each input of the run from `s` meets `C` in the state where it is taken. -/
def Meets (C : σ → ι → Prop) : σ → List (ι × σ) → Prop
  | _, [] => True
  | s, (i, t) :: l => C s i ∧ Meets C t l

/-- Each step of the run from `s` has the property `P`. -/
def Each (P : σ → ι → σ → Prop) : σ → List (ι × σ) → Prop
  | _, [] => True
  | s, (i, t) :: l => P s i t ∧ Each P t l

namespace Trace

variable {step : σ → ι → σ → Prop} {C : σ → ι → Prop} {s : σ} {l : List (ι × σ)}

/-- The rule for a property that a step keeps exactly when its input meets `C`, where as long as it holds
so does the invariant `J`. -/
theorem invariant_iff_of {I J : σ → Prop} (hkeep : ∀ s i t, J s → I s → step s i t → J t)
    (hstep : ∀ s i t, J s → I s → step s i t → (I t ↔ C s i)) (hJ : J s) (hs : I s) (h : Trace step s l) :
    (∀ x ∈ l, I x.2) ↔ Meets C s l := by
  induction h with
  | nil => simp [Meets]
  | @cons s t i l hst _ ih =>
    have hiff := hstep s i t hJ hs hst
    have hJ' := hkeep s i t hJ hs hst
    rw [List.forall_mem_cons, Meets, hiff]
    constructor
    · rintro ⟨hC, hl⟩
      exact ⟨hC, (ih hJ' (hiff.mpr hC)).mp hl⟩
    · rintro ⟨hC, hl⟩
      exact ⟨hC, (ih hJ' (hiff.mpr hC)).mpr hl⟩

/-- The rule for a property that a step keeps exactly when its input meets `C`. -/
theorem invariant_iff {I : σ → Prop} (hstep : ∀ s i t, I s → step s i t → (I t ↔ C s i))
    (hs : I s) (h : Trace step s l) : (∀ x ∈ l, I x.2) ↔ Meets C s l :=
  h.invariant_iff_of (J := fun _ => True) (fun _ _ _ _ _ _ => trivial) (fun s i t _ => hstep s i t) trivial hs

/-- The rule for a property that the steps of a run have whose inputs meet `C`. -/
theorem each {I : σ → Prop} {P : σ → ι → σ → Prop}
    (hstep : ∀ s i t, I s → C s i → step s i t → I t ∧ P s i t) (hs : I s)
    (h : Trace step s l) (hC : Meets C s l) : Each P s l := by
  induction h with
  | nil => trivial
  | cons hst _ ih =>
    obtain ⟨ht, hP⟩ := hstep _ _ _ hs hC.1 hst
    exact ⟨hP, ih ht hC.2⟩

/-- The rule for a property that the steps of a run have exactly when their inputs meet `C`. -/
theorem each_iff {I : σ → Prop} {P : σ → ι → σ → Prop}
    (hstep : ∀ s i t, I s → step s i t → I t ∧ (P s i t ↔ C s i)) (hs : I s)
    (h : Trace step s l) : Each P s l ↔ Meets C s l := by
  induction h with
  | nil => exact Iff.rfl
  | cons hst _ ih =>
    obtain ⟨ht, hiff⟩ := hstep _ _ _ hs hst
    exact and_congr hiff (ih ht)

end Trace
