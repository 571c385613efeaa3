/-
# Runs of a labelled step relation

A system is a relation `step s a t`: in the state `s` the call or event `a`
can lead to `t`. A run is a finite sequence of such steps, with the list of
its labels in the order they happened; it grows at its end, so a proof by
induction on it says what the last step adds to the history so far.

Key definitions: `Run`, `EveryStep`.
Key theorems: `Run.invariant`, `Run.history`, `Run.eq_foldl`, `Run.simulate`,
`Run.mono`, `Run.invariant_of_everyStep`, `EveryStep.congr`.
-/
import Mathlib.Data.List.Basic

namespace Runs

variable {σ τ α : Type}

/-- The runs from the state `s`, with their labels. -/
inductive Run (step : σ → α → σ → Prop) (s : σ) : List α → σ → Prop
  | nil : Run step s [] s
  | snoc {as : List α} {a : α} {t u : σ} : Run step s as t → step t a u →
    Run step s (as ++ [a]) u

namespace Run

variable {step : σ → α → σ → Prop} {step' : τ → α → τ → Prop} {s t : σ}
    {as : List α}

/-- What holds at the start and is kept by every step holds after every run. -/
theorem invariant (h : Run step s as t) {I : σ → Prop} (h0 : I s)
    (hstep : ∀ t a u, I t → step t a u → I u) : I t := by
  induction h with
  | nil => exact h0
  | snoc _ hs ih => exact hstep _ _ _ ih hs

/-- The same for what relates a state to the labels that led to it. -/
theorem history (h : Run step s as t) {I : List α → σ → Prop} (h0 : I [] s)
    (hstep : ∀ as t a u, I as t → step t a u → I (as ++ [a]) u) : I as t := by
  induction h with
  | nil => exact h0
  | snoc _ hs ih => exact hstep _ _ _ _ ih hs

/-- Steps that under an invariant are those of a function lead where the fold of
the function leads. -/
theorem eq_foldl (h : Run step s as t) {I : σ → Prop} {f : σ → α → σ} (h0 : I s)
    (hstep : ∀ t, ∀ a ∈ as, ∀ u, I t → step t a u → u = f t a ∧ I u) :
    I t ∧ t = as.foldl f s := by
  induction h with
  | nil => exact ⟨h0, rfl⟩
  | snoc _ hs ih =>
    obtain ⟨hI, ht⟩ := ih fun t a ha => hstep t a (List.mem_append_left _ ha)
    obtain ⟨hu, hIu⟩ := hstep _ _ (by simp) _ hI hs
    refine ⟨hIu, ?_⟩
    rw [List.foldl_append, ← ht]
    exact hu

/-- A system that can follow every step of another from related states can
follow its runs, with the same labels. -/
theorem simulate (h : Run step s as t) {R : σ → τ → Prop} {s' : τ} (h0 : R s s')
    (hstep : ∀ t t' a u, R t t' → step t a u → ∃ u', step' t' a u' ∧ R u u') :
    ∃ t', Run step' s' as t' ∧ R t t' := by
  induction h with
  | nil => exact ⟨s', .nil, h0⟩
  | snoc _ hs ih =>
    obtain ⟨t', hr, hR⟩ := ih
    obtain ⟨u', hs', hR'⟩ := hstep _ _ _ _ hR hs
    exact ⟨u', .snoc hr hs', hR'⟩

theorem one {a : α} (h : step s a t) : Run step s [a] t := by
  simpa using Run.snoc .nil h

theorem append {bs : List α} {u : σ} (h : Run step s as t) (h' : Run step t bs u) :
    Run step s (as ++ bs) u := by
  induction h' with
  | nil => simpa using h
  | snoc _ hs ih =>
    rw [← List.append_assoc]
    exact ih.snoc hs

/-- A run whose steps another relation has too is a run of that one. -/
theorem mono {other : σ → α → σ → Prop} (h : Run step s as t)
    (hstep : ∀ t, ∀ a ∈ as, ∀ u, step t a u → other t a u) : Run other s as t := by
  induction h with
  | nil => exact .nil
  | snoc _ hs ih =>
    have hrun := ih fun t a ha => hstep t a (List.mem_append_left _ ha)
    exact hrun.snoc (hstep _ _ (by simp) _ hs)

end Run

/-- Every step of the run with the labels `as`, from the state before it, has
the property `P`. -/
def EveryStep (step : σ → α → σ → Prop) (s : σ) (as : List α) (P : σ → α → Prop) :
    Prop :=
  ∀ pre a t, pre ++ [a] <+: as → Run step s pre t → P t a

/-- An invariant that needs a property of the step is kept by the runs whose
steps all have it. -/
theorem Run.invariant_of_everyStep {step : σ → α → σ → Prop} {s t : σ} {as : List α}
    {P : σ → α → Prop} {I : σ → Prop} (h : Run step s as t) (hP : EveryStep step s as P)
    (h0 : I s) (hstep : ∀ t a u, I t → P t a → step t a u → I u) : I t := by
  induction h with
  | nil => exact h0
  | snoc hr hs ih =>
    have hlast := hP _ _ _ (List.prefix_refl _) hr
    exact hstep _ _ _ (ih fun pre a t hpre => hP pre a t (hpre.trans (List.prefix_append _ _)))
      hlast hs

/-- Two properties of a step that agree under an invariant hold along the same runs. -/
theorem EveryStep.congr {step : σ → α → σ → Prop} {s : σ} {as : List α}
    {P Q : σ → α → Prop} {I : σ → Prop} (h0 : I s)
    (hstep : ∀ t a u, I t → step t a u → I u)
    (h : ∀ t a, a ∈ as → I t → (P t a ↔ Q t a)) :
    EveryStep step s as P ↔ EveryStep step s as Q := by
  have hmem : ∀ {pre : List α} {a : α}, pre ++ [a] <+: as → a ∈ as :=
    fun hp => hp.subset (by simp)
  constructor
  · intro hP pre a t hp hr
    exact (h t a (hmem hp) (hr.invariant h0 hstep)).mp (hP pre a t hp hr)
  · intro hQ pre a t hp hr
    exact (h t a (hmem hp) (hr.invariant h0 hstep)).mpr (hQ pre a t hp hr)

end Runs
