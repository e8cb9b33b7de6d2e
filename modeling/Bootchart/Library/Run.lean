import Mathlib.Data.List.Induction
import Mathlib.Tactic.Common

/-!
# Runs of guarded transition functions

A transition function takes a state and an action and returns the next state,
or nothing when the action is not enabled. A run is the fold of the function
over a list of actions; it fails as soon as one action is not enabled. The
rules below carry an invariant, possibly one that mentions the actions executed
so far, from one step to a whole run, and say when two runs are the same.
-/

namespace Library

variable {σ α : Type*}

/-- Execute a list of actions from a state. -/
def run (step : σ → α → Option σ) : σ → List α → Option σ
  | state, [] => some state
  | state, action :: actions =>
      (step state action).bind fun next => run step next actions

@[simp] theorem run_nil (step : σ → α → Option σ) (state : σ) :
    run step state [] = some state := rfl

@[simp] theorem run_cons
    (step : σ → α → Option σ)
    (state : σ)
    (action : α)
    (actions : List α) :
    run step state (action :: actions) =
      (step state action).bind fun next => run step next actions := rfl

/-- A run over an appended list runs the first part, then the second. -/
theorem run_append
    (step : σ → α → Option σ)
    (state : σ)
    (first second : List α) :
    run step state (first ++ second) =
      (run step state first).bind fun middle => run step middle second := by
  induction first generalizing state with
  | nil => rfl
  | cons action first inductionHypothesis =>
      simp only [List.cons_append, run_cons, Option.bind_assoc]
      congr 1
      funext next
      exact inductionHypothesis next

/-- The last action of a run starts from the state the earlier ones reach. -/
theorem run_snoc_eq_some
    {step : σ → α → Option σ}
    {start finish : σ}
    {actions : List α}
    {action : α} :
    run step start (actions ++ [action]) = some finish ↔
      ∃ middle, run step start actions = some middle ∧
        step middle action = some finish := by
  rw [run_append, Option.bind_eq_some_iff]
  simp

/-- Induction rule for runs: a property of the executed actions and the state
that holds initially and is kept by every enabled action holds after every
run. -/
theorem run_induction
    {step : σ → α → Option σ}
    {start : σ}
    (holds : List α → σ → Prop)
    (initially : holds [] start)
    (preserved : ∀ done state action next,
      run step start done = some state → holds done state →
      step state action = some next → holds (done ++ [action]) next)
    {actions : List α}
    {finish : σ}
    (ran : run step start actions = some finish) :
    holds actions finish := by
  induction actions using List.reverseRecOn generalizing finish with
  | nil =>
      obtain rfl : start = finish := by simpa using ran
      exact initially
  | append_singleton done action inductionHypothesis =>
      obtain ⟨middle, ranDone, stepped⟩ := run_snoc_eq_some.mp ran
      exact preserved done middle action finish ranDone
        (inductionHypothesis ranDone) stepped

/-- Two transition functions that agree under an invariant have the same runs. -/
theorem run_congr
    {first second : σ → α → Option σ}
    (invariant : σ → Prop)
    {actions : List α}
    (agree : ∀ action ∈ actions, ∀ state, invariant state →
      first state action = second state action)
    (preserved : ∀ action ∈ actions, ∀ state next, invariant state →
      first state action = some next → invariant next)
    {start : σ}
    (initially : invariant start) :
    run first start actions = run second start actions := by
  induction actions generalizing start with
  | nil => rfl
  | cons action actions inductionHypothesis =>
      rw [List.forall_mem_cons] at agree preserved
      rw [run_cons, run_cons, ← agree.1 start initially]
      cases stepped : first start action with
      | none => rfl
      | some next =>
          exact inductionHypothesis agree.2 preserved.2
            (preserved.1 start next initially stepped)

/-- A run with an action that is enabled in no state fails. -/
theorem run_eq_none
    {step : σ → α → Option σ}
    {actions : List α}
    {action : α}
    (member : action ∈ actions)
    (disabled : ∀ state, step state action = none)
    (start : σ) :
    run step start actions = none := by
  obtain ⟨before, behind, rfl⟩ := List.append_of_mem member
  rw [run_append, Option.bind_eq_none_iff]
  intro middle _
  rw [run_cons, disabled, Option.bind_none]

/-- Actions that commute can be executed in any order. -/
theorem run_perm
    {step : σ → α → Option σ}
    {first second : List α}
    (commute : ∀ x ∈ first, ∀ y ∈ first, x ≠ y → ∀ state,
      (step state x).bind (step · y) = (step state y).bind (step · x))
    (perm : first.Perm second)
    (start : σ) :
    run step start first = run step start second := by
  induction perm generalizing start with
  | nil => rfl
  | cons action _ inductionHypothesis =>
      rw [run_cons, run_cons]
      congr 1
      funext next
      exact inductionHypothesis (fun x isX y isY => commute x (List.mem_cons_of_mem _ isX)
        y (List.mem_cons_of_mem _ isY)) next
  | swap x y actions =>
      by_cases same : y = x
      · rw [same]
      · have swapped := commute y (by simp) x (by simp) same start
        simp only [run_cons]
        rw [← Option.bind_assoc, swapped, Option.bind_assoc]
  | trans perm _ firstHypothesis secondHypothesis =>
      refine (firstHypothesis commute start).trans (secondHypothesis ?_ start)
      intro x isX y isY
      exact commute x (perm.mem_iff.mpr isX) y (perm.mem_iff.mpr isY)

/-- Two functions lead to the same states all along some actions if and only if each action does
the same with the state that one of them has led to. -/
theorem forall_foldl_eq_iff {first second : σ → α → σ} (start : σ) (actions : List α) :
    (∀ done, done <+: actions → done.foldl first start = done.foldl second start) ↔
      ∀ done action, done ++ [action] <+: actions →
        first (done.foldl second start) action = second (done.foldl second start) action := by
  constructor
  · intro same done action isPrefix
    have before := same done ((List.prefix_append done [action]).trans isPrefix)
    have after := same (done ++ [action]) isPrefix
    rwa [List.foldl_append, List.foldl_append, before] at after
  · intro steps done
    induction done using List.reverseRecOn with
    | nil => exact fun _ => rfl
    | append_singleton done action inductionHypothesis =>
        intro isPrefix
        have before := inductionHypothesis ((List.prefix_append done [action]).trans isPrefix)
        rw [List.foldl_append, List.foldl_append, before]
        exact steps done action isPrefix

/-- What holds of all steps of a run holds of those before the last and of the last. -/
theorem forall_steps_append_singleton (actions : List α) (action : α)
    {holds : List α → α → Prop} :
    (∀ done other, done ++ [other] <+: actions ++ [action] → holds done other) ↔
      (∀ done other, done ++ [other] <+: actions → holds done other) ∧ holds actions action := by
  constructor
  · intro all
    exact ⟨fun done other isPrefix => all done other (isPrefix.trans (List.prefix_append _ _)),
      all actions action (List.prefix_refl _)⟩
  · rintro ⟨before, here⟩ done other isPrefix
    rcases List.prefix_concat_iff.mp isPrefix with same | isPrefix
    · obtain ⟨rfl, isAction⟩ := List.append_inj' same rfl
      exact (List.singleton_inj.mp isAction) ▸ here
    · exact before done other isPrefix

/-- If, under an invariant, a property holds after a step if and only if it held
before and the step was allowed, it holds at the end of a run if and only if it
held at the start and all steps were allowed. -/
theorem foldl_iff
    {next : σ → α → σ}
    {invariant holds : σ → Prop}
    {allowed : σ → α → Prop}
    (preserved : ∀ state action, invariant state → invariant (next state action))
    (stepIff : ∀ state action, invariant state →
      (holds (next state action) ↔ holds state ∧ allowed state action))
    {start : σ}
    (initially : invariant start)
    (actions : List α) :
    holds (actions.foldl next start) ↔ holds start ∧
      ∀ done action, done ++ [action] <+: actions →
        allowed (done.foldl next start) action := by
  have reached : ∀ done : List α, invariant (done.foldl next start) := by
    intro done
    induction done using List.reverseRecOn with
    | nil => exact initially
    | append_singleton done action inductionHypothesis =>
        rw [List.foldl_append]
        exact preserved _ action inductionHypothesis
  induction actions using List.reverseRecOn with
  | nil => simp
  | append_singleton actions action inductionHypothesis =>
      rw [List.foldl_append, List.foldl_cons, List.foldl_nil,
        stepIff _ _ (reached actions)]
      apply (and_congr_left' inductionHypothesis).trans
      rw [forall_steps_append_singleton, and_assoc]

end Library
