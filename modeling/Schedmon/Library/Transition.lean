import Mathlib.Data.List.Induction

/-!
# Runs of a partial transition function

A system is given by a function that takes an action and a state and answers
the next state, or `none` where the action is not enabled.  A state is
reachable when some list of actions leads to it from the initial state.
-/

namespace Library
namespace Transition

/-- Take a list of actions one after the other. -/
def runActions (step : α → σ → Option σ) : List α → σ → Option σ
  | [], state => some state
  | action :: rest, state => (step action state).bind (runActions step rest)

@[simp] theorem runActions_nil
    (step : α → σ → Option σ)
    (state : σ) :
    runActions step [] state = some state := rfl

@[simp] theorem runActions_cons
    (step : α → σ → Option σ)
    (action : α)
    (rest : List α)
    (state : σ) :
    runActions step (action :: rest) state =
      (step action state).bind (runActions step rest) := rfl

theorem runActions_append
    (step : α → σ → Option σ)
    (first second : List α)
    (state : σ) :
    runActions step (first ++ second) state =
      (runActions step first state).bind (runActions step second) := by
  induction first generalizing state with
  | nil => rfl
  | cons action rest inductionHypothesis =>
      cases taken : step action state with
      | none => simp [taken]
      | some next => simp [taken, inductionHypothesis]

/-- The last action of a run is taken after the others. -/
theorem runActions_snoc
    {step : α → σ → Option σ}
    {actions : List α}
    {action : α}
    {state final : σ} :
    runActions step (actions ++ [action]) state = some final ↔
      ∃ before, runActions step actions state = some before ∧
        step action before = some final := by
  have single (before : σ) :
      runActions step [action] before = step action before := by
    rw [runActions_cons]
    cases step action before <;> rfl
  rw [runActions_append, Option.bind_eq_some_iff]
  simp only [single]

/-- A property that every enabled action keeps is kept by a whole run. -/
theorem runActions_invariant
    {step : α → σ → Option σ}
    (invariant : σ → Prop)
    (preserved : ∀ action state next,
      invariant state → step action state = some next → invariant next)
    {actions : List α}
    {state final : σ}
    (holds : invariant state)
    (run : runActions step actions state = some final) :
    invariant final := by
  induction actions generalizing state with
  | nil =>
      cases run
      exact holds
  | cons action rest inductionHypothesis =>
      obtain ⟨next, taken, remaining⟩ := Option.bind_eq_some_iff.mp run
      exact inductionHypothesis (preserved action state next holds taken) remaining

/-- A property of the actions so far and the state they lead to, which every
enabled action keeps, holds after a whole run. -/
theorem runActions_history
    {step : α → σ → Option σ}
    (property : List α → σ → Prop)
    (preserved : ∀ earlier action state next,
      property earlier state → step action state = some next →
        property (earlier ++ [action]) next)
    {actions : List α}
    {state final : σ}
    (holds : property [] state)
    (run : runActions step actions state = some final) :
    property actions final := by
  induction actions using List.reverseRecOn generalizing final with
  | nil =>
      cases run
      exact holds
  | append_singleton earlier action inductionHypothesis =>
      obtain ⟨before, reached, taken⟩ := runActions_snoc.mp run
      exact preserved earlier action before final (inductionHypothesis reached) taken

/-- A place in a list that is one element longer is the last one or an old one. -/
theorem split_snoc
    {log before after : List α}
    {e last : α}
    (split : log ++ [last] = before ++ e :: after) :
    (after = [] ∧ before = log ∧ e = last) ∨
      ∃ earlier, after = earlier ++ [last] ∧ log = before ++ e :: earlier := by
  rcases List.eq_nil_or_concat after with rfl | ⟨earlier, other, rfl⟩
  · obtain ⟨same, single⟩ := List.append_inj' split rfl
    exact .inl ⟨rfl, same.symm, (List.cons.inj single).1.symm⟩
  · have parts : log ++ [last] = (before ++ e :: earlier) ++ [other] := by
      rw [split]
      simp
    obtain ⟨same, single⟩ := List.append_inj' parts rfl
    cases single
    exact .inr ⟨earlier, by simp, same⟩

/-- The states that some run reaches. -/
def Reachable (step : α → σ → Option σ) (initial state : σ) : Prop :=
  ∃ actions, runActions step actions initial = some state

theorem Reachable.initial
    (step : α → σ → Option σ)
    (initial : σ) :
    Reachable step initial initial :=
  ⟨[], rfl⟩

theorem Reachable.next
    {step : α → σ → Option σ}
    {initial state following : σ}
    (reached : Reachable step initial state)
    {action : α}
    (taken : step action state = some following) :
    Reachable step initial following := by
  obtain ⟨actions, run⟩ := reached
  refine ⟨actions ++ [action], ?_⟩
  rw [runActions_append, run]
  simp [taken]

/-- Invariants hold in every reachable state. -/
theorem Reachable.invariant
    {step : α → σ → Option σ}
    {initial state : σ}
    {invariant : σ → Prop}
    (reached : Reachable step initial state)
    (holds : invariant initial)
    (preserved : ∀ action state next,
      invariant state → step action state = some next → invariant next) :
    invariant state := by
  obtain ⟨actions, run⟩ := reached
  exact runActions_invariant invariant preserved holds run

/-! ## Repeating one step -/

/-- Take the same step a number of times. -/
def repeatStep (step : σ → Option σ) : Nat → σ → Option σ
  | 0, state => some state
  | count + 1, state => (step state).bind (repeatStep step count)

@[simp] theorem repeatStep_zero
    (step : σ → Option σ)
    (state : σ) :
    repeatStep step 0 state = some state := rfl

theorem repeatStep_succ
    (step : σ → Option σ)
    (count : Nat)
    (state : σ) :
    repeatStep step (count + 1) state = (step state).bind (repeatStep step count) := rfl

/-- A property that the step keeps is kept by every number of steps. -/
theorem repeatStep_invariant
    {step : σ → Option σ}
    (invariant : σ → Prop)
    (preserved : ∀ state next,
      invariant state → step state = some next → invariant next)
    {count : Nat}
    {state final : σ}
    (holds : invariant state)
    (run : repeatStep step count state = some final) :
    invariant final := by
  induction count generalizing state with
  | zero =>
      cases run
      exact holds
  | succ count inductionHypothesis =>
      obtain ⟨next, taken, remaining⟩ := Option.bind_eq_some_iff.mp run
      exact inductionHypothesis (preserved state next holds taken) remaining

/-- Two systems that take related steps from related states, or none, are
related after any number of steps. -/
theorem repeatStep_simulates
    {step : σ → Option σ}
    {other : τ → Option τ}
    {related : σ → τ → Prop}
    (simulates : ∀ state mirror, related state mirror →
      Option.Rel related (step state) (other mirror))
    (count : Nat)
    {state : σ}
    {mirror : τ}
    (start : related state mirror) :
    Option.Rel related (repeatStep step count state) (repeatStep other count mirror) := by
  induction count generalizing state mirror with
  | zero => exact .some start
  | succ count inductionHypothesis =>
      have related := simulates state mirror start
      rw [repeatStep_succ, repeatStep_succ]
      generalize step state = next, other mirror = mirrored at related ⊢
      cases related with
      | none => exact .none
      | some both => exact inductionHypothesis both

end Transition
end Library
