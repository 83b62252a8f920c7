import Mathlib

/-!
# Runs of a machine

A machine is a partial step function: given a state and an act it answers the next
state, or why there is none. A run is a sequence of acts each of which the machine
takes; a *guarded* run is one whose acts all meet a condition on the state they are
taken in. An invariant of a guarded run needs to be preserved only by acts that
meet the condition, which is how "the property holds in every run that avoids this
situation" is proved.
-/

namespace Lib

universe u v w
variable {σ : Type u} {ι : Type v} {ε : Type w}

/-- One act that meets the condition `ok`, taken by the machine. -/
def Guarded (step : ι → σ → Except ε σ) (ok : σ → ι → Prop) (s s' : σ) : Prop :=
  ∃ a, ok s a ∧ step a s = .ok s'

/-- A guarded run. -/
abbrev Runs (step : ι → σ → Except ε σ) (ok : σ → ι → Prop) : σ → σ → Prop :=
  Relation.ReflTransGen (Guarded step ok)

/-- The condition every act meets. -/
def anyAct : σ → ι → Prop := fun _ _ => True

variable {step : ι → σ → Except ε σ} {ok ok' : σ → ι → Prop} {s s' s'' : σ}

/-- What every act that meets the condition preserves, a whole guarded run preserves. -/
theorem Runs.invariant {I : σ → Prop} (hr : Runs step ok s s')
    (hstep : ∀ a t t', I t → ok t a → step a t = .ok t' → I t') (h0 : I s) : I s' := by
  induction hr with
  | refl => exact h0
  | tail _ hs ih =>
      obtain ⟨a, hok, hact⟩ := hs
      exact hstep a _ _ ih hok hact

/-- A run whose acts meet a stronger condition is a run for the weaker one. -/
theorem Runs.weaken (hr : Runs step ok s s') (h : ∀ t a, ok t a → ok' t a) :
    Runs step ok' s s' := by
  induction hr with
  | refl => exact Relation.ReflTransGen.refl
  | tail _ hs ih =>
      obtain ⟨a, hok, hact⟩ := hs
      exact ih.tail ⟨a, h _ a hok, hact⟩

/-- An act that meets the condition is a run. -/
theorem Runs.single {a : ι} (hok : ok s a) (hact : step a s = .ok s') : Runs step ok s s' :=
  Relation.ReflTransGen.single ⟨a, hok, hact⟩

section Execution
variable (step) (ok) [∀ s a, Decidable (ok s a)]

/-- The state after a list of acts, if each meets the condition and the machine takes it. -/
def runActs : List ι → σ → Option σ
  | [], s => some s
  | a :: as, s =>
      if ok s a then
        match step a s with
        | .ok s => runActs as s
        | .error _ => none
      else none

end Execution

instance (s : σ) (a : ι) : Decidable (anyAct s a) := isTrue trivial

/-- A list of acts that goes through is a guarded run. -/
theorem runs_of_runActs [∀ s a, Decidable (ok s a)] : ∀ {as : List ι} {s s' : σ},
    runActs step ok as s = some s' → Runs step ok s s'
  | [], s, s', h => by
      rw [Option.some.inj h]
  | a :: as, s, s', h => by
      rw [runActs] at h
      split at h
      · rename_i hok
        split at h
        · rename_i t hact
          exact (Runs.single hok hact).trans (runs_of_runActs h)
        · cases h
      · cases h

/-- What a list of acts leads to, checked by running it. -/
theorem exists_run [∀ s a, Decidable (ok s a)] {p : σ → Bool} {as : List ι}
    (h : (runActs step ok as s).any p = true) : ∃ s', Runs step ok s s' ∧ p s' = true := by
  cases hrun : runActs step ok as s with
  | none => simp [hrun] at h
  | some s' => exact ⟨s', runs_of_runActs hrun, by simpa [hrun] using h⟩

/-! ## Reading a computation backwards -/

/-- A sequence of two computations that succeeds, step by step. -/
theorem bind_eq_ok {β γ : Type u} {x : Except ε β} {f : β → Except ε γ} {c : γ} :
    x >>= f = .ok c ↔ ∃ b, x = .ok b ∧ f b = .ok c := by
  cases x with
  | error e => simp [bind, Except.bind]
  | ok b => simp [bind, Except.bind]

end Lib
