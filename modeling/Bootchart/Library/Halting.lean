import Mathlib.Logic.Function.Iterate

/-!
# Loops that may not end

A loop makes the same step again and again until its state is one of those in which it is over.
Whether it comes to an end in a state with a property follows step by step.
-/

namespace Library

variable {σ : Type*}

/-- The loop comes to an end in a state with a property. -/
def Halts (step : σ → σ) (ended holds : σ → Prop) (start : σ) : Prop :=
  ∃ count, ended (step^[count] start) ∧ holds (step^[count] start)

section Halts

variable {step : σ → σ} {ended holds : σ → Prop} {start : σ}

/-- A loop that is not over makes a step. -/
theorem halts_step_iff (running : ¬ended start) :
    Halts step ended holds start ↔ Halts step ended holds (step start) := by
  constructor
  · rintro ⟨count, hasEnded, isHolding⟩
    cases count with
    | zero => exact absurd hasEnded running
    | succ count => exact ⟨count, hasEnded, isHolding⟩
  · rintro ⟨count, hasEnded, isHolding⟩
    exact ⟨count + 1, hasEnded, isHolding⟩

/-- A loop that is over stays where it is. -/
theorem halts_ended_iff (hasEnded : ended start) (stays : step start = start) :
    Halts step ended holds start ↔ holds start := by
  constructor
  · rintro ⟨count, _, isHolding⟩
    rwa [Function.iterate_fixed stays] at isHolding
  · exact fun isHolding => ⟨0, hasEnded, isHolding⟩

/-- If the loop stays where it is over, steps change nothing about its end. -/
theorem halts_iterate_iff (stays : ∀ state, ended state → step state = state) (count : ℕ) :
    Halts step ended holds start ↔ Halts step ended holds (step^[count] start) := by
  induction count with
  | zero => rfl
  | succ count inductionHypothesis =>
      rw [inductionHypothesis, Function.iterate_succ_apply']
      by_cases hasEnded : ended (step^[count] start)
      · rw [stays _ hasEnded]
      · exact halts_step_iff hasEnded

/-- A loop that ends with a property ends with what follows from it. -/
theorem Halts.mono {weaker : σ → Prop} (halts : Halts step ended holds start)
    (implies : ∀ state, holds state → weaker state) : Halts step ended weaker start := by
  obtain ⟨count, hasEnded, isHolding⟩ := halts
  exact ⟨count, hasEnded, implies _ isHolding⟩

/-- What each step preserves holds after any number of steps. -/
theorem iterate_invariant (invariant : σ → Prop) (initially : invariant start)
    (preserved : ∀ state, invariant state → invariant (step state)) (count : ℕ) :
    invariant (step^[count] start) := by
  induction count with
  | zero => exact initially
  | succ count inductionHypothesis =>
      rw [Function.iterate_succ_apply']
      exact preserved _ inductionHypothesis

/-- An invariant that excludes the property at the end excludes such an end. -/
theorem not_halts (invariant : σ → Prop) (initially : invariant start)
    (preserved : ∀ state, invariant state → invariant (step state))
    (excluded : ∀ state, invariant state → ended state → ¬holds state) :
    ¬Halts step ended holds start := by
  rintro ⟨count, hasEnded, isHolding⟩
  exact excluded _ (iterate_invariant invariant initially preserved count) hasEnded isHolding

end Halts

end Library
