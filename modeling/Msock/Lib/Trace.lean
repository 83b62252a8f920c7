import Mathlib

/-!
# What a run lets be seen

A machine whose steps carry labels: each lets a few events be seen, most of them none. A
trace is what a run lets be seen from its first step to its last. One machine implements
another if each of its traces is a trace of the other; it is enough to match every single
step.
-/

namespace Lib

universe u v w
variable {σ : Type u} {τ : Type v} {ε : Type w}

/-- A run, and all that it lets be seen. -/
inductive Traced (step : σ → List ε → σ → Prop) (s : σ) : List ε → σ → Prop
  | refl : Traced step s [] s
  | tail {es es' : List ε} {s' s'' : σ} :
      Traced step s es s' → step s' es' s'' → Traced step s (es ++ es') s''

variable {step : σ → List ε → σ → Prop} {step' : τ → List ε → τ → Prop} {s s' s'' : σ}
  {es es' : List ε}

theorem Traced.single (h : step s es s') : Traced step s es s' := by
  have hrefl : Traced step s [] s := .refl
  have htail := hrefl.tail h
  rwa [List.nil_append] at htail

theorem Traced.trans (h : Traced step s es s') (h' : Traced step s' es' s'') :
    Traced step s (es ++ es') s'' := by
  induction h' with
  | refl => rwa [List.append_nil]
  | tail _ hstep ih =>
      rw [← List.append_assoc]
      exact ih.tail hstep

/-- What every step preserves. -/
theorem Traced.invariant {I : List ε → σ → Prop} (h : Traced step s es s') (h0 : I [] s)
    (hstep : ∀ es es' t t', I es t → step t es' t' → I (es ++ es') t') : I es s' := by
  induction h with
  | refl => exact h0
  | tail _ hs ih => exact hstep _ _ _ _ ih hs

/-- **Matching single steps matches runs.** -/
theorem Traced.simulates {R : σ → τ → Prop}
    (hsim : ∀ s es s' t, R s t → step s es s' → ∃ t', Traced step' t es t' ∧ R s' t')
    (h : Traced step s es s') {t : τ} (hR : R s t) : ∃ t', Traced step' t es t' ∧ R s' t' := by
  induction h with
  | refl => exact ⟨t, .refl, hR⟩
  | tail _ hstep ih =>
      obtain ⟨t', htraced, hR'⟩ := ih
      obtain ⟨t'', htraced', hR''⟩ := hsim _ _ _ _ hR' hstep
      exact ⟨t'', htraced.trans htraced', hR''⟩

end Lib
