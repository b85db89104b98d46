import Mathlib

/-
  Runs of a partial, deterministic step function.

  A run is a list of actions, each of which meets a condition
  on the state before it.

  Key definitions include:
    * `Transition.Run`
    * `Transition.execute`

  The induction rule is:
    * `Transition.Run.invariant`
-/

------------------------------------------------------------
-- Runs
------------------------------------------------------------

namespace Transition

variable {σ α : Type}

/-
  Some run from `start` to `finish` all of whose steps meet
  the condition `Allowed` on the state before the step.
-/
inductive Run
    (step : σ → α → Option σ)
    (Allowed : σ → α → Prop)
    (start : σ) : List α → σ → Prop where
| start : Run step Allowed start [] start
| step {actions : List α} {state next : σ} {action : α} :
    Run step Allowed start actions state →
      Allowed state action →
        step state action = some next →
          Run step Allowed start
            (actions ++ [action]) next

variable {step : σ → α → Option σ}
variable {Allowed : σ → α → Prop}
variable {start state : σ}

/- What every allowed step keeps holds along a run. -/
theorem Run.invariant
    {Inv : σ → Prop}
    (hStart : Inv start)
    (hStep :
      ∀ {state next action},
        Inv state → Allowed state action →
          step state action = some next → Inv next)
    {actions : List α}
    (hRun : Run step Allowed start actions state) :
    Inv state := by
  induction hRun with
  | start => exact hStart
  | step _ hAllowed hNext ih =>
      exact hStep ih hAllowed hNext

/- The actions determine where a run ends. -/
theorem Run.unique
    {actions : List α}
    {left right : σ}
    (hLeft : Run step Allowed start actions left)
    (hRight : Run step Allowed start actions right) :
    left = right := by
  induction hLeft generalizing right with
  | start =>
      generalize hNil : ([] : List α) = actions at hRight
      cases hRight with
      | start => rfl
      | step _ _ _ => simp at hNil
  | @step front state next action _ _ hNext ih =>
      generalize hSnoc :
        front ++ [action] = actions at hRight
      cases hRight with
      | start => simp at hSnoc
      | step hRun _ hOther =>
          rcases List.append_inj' hSnoc rfl with
            ⟨rfl, hAction⟩
          rw [List.cons.injEq] at hAction
          rw [ih hRun, hAction.1, hOther,
            Option.some.injEq] at hNext
          exact hNext.symm

/- The last step of a run. -/
theorem Run.of_append_singleton
    {actions : List α}
    {action : α}
    (hRun :
      Run step Allowed start (actions ++ [action]) state) :
    ∃ before,
      Run step Allowed start actions before ∧
        Allowed before action ∧
        step before action = some state := by
  generalize hSnoc : actions ++ [action] = whole at hRun
  cases hRun with
  | start => simp at hSnoc
  | step hFront hAllowed hNext =>
      rcases List.append_inj' hSnoc rfl with ⟨rfl, hLast⟩
      rw [List.cons.injEq] at hLast
      rw [hLast.1]
      exact ⟨_, hFront, hAllowed, hNext⟩

/- A run passes through the end of each of its prefixes. -/
theorem Run.split
    {front back : List α}
    (hRun : Run step Allowed start (front ++ back) state) :
    ∃ middle,
      Run step Allowed start front middle ∧
        Run step Allowed middle back state := by
  induction back using List.reverseRecOn
    generalizing state with
  | nil =>
      rw [List.append_nil] at hRun
      exact ⟨state, hRun, .start⟩
  | append_singleton back action ih =>
      rw [← List.append_assoc] at hRun
      rcases hRun.of_append_singleton with
        ⟨before, hBefore, hAllowed, hNext⟩
      rcases ih hBefore with ⟨middle, hFront, hBack⟩
      exact ⟨middle, hFront, hBack.step hAllowed hNext⟩

/- A run is also a run of any more permissive system. -/
theorem Run.mono
    {other : σ → α → Option σ}
    {Permitted : σ → α → Prop}
    (hStep :
      ∀ {state next action},
        Allowed state action →
          step state action = some next →
            Permitted state action ∧
              other state action = some next)
    {actions : List α}
    (hRun : Run step Allowed start actions state) :
    Run other Permitted start actions state := by
  induction hRun with
  | start => exact .start
  | step _ hAllowed hNext ih =>
      rcases hStep hAllowed hNext with
        ⟨hPermitted, hOther⟩
      exact ih.step hPermitted hOther

/- The state after a list of actions, if all are enabled. -/
def execute
    (step : σ → α → Option σ) :
    List α → σ → Option σ
| [], state => some state
| action :: actions, state =>
    match step state action with
    | none => none
    | some next => execute step actions next

/- A run can be extended by enabled, allowed actions. -/
theorem Run.append_execute
    {front back : List α}
    {middle : σ}
    (hRun : Run step Allowed start front middle)
    (hAllowed :
      ∀ state, ∀ action ∈ back, Allowed state action)
    (hExecute : execute step back middle = some state) :
    Run step Allowed start (front ++ back) state := by
  induction back generalizing front middle with
  | nil =>
      rw [execute, Option.some.injEq] at hExecute
      rw [List.append_nil, ← hExecute]
      exact hRun
  | cons action back ih =>
      rw [execute] at hExecute
      split at hExecute
      · simp at hExecute
      · next next hNext =>
          have hFirst : Allowed middle action :=
            hAllowed middle action (by simp)
          have hRest :
              ∀ state, ∀ action ∈ back,
                Allowed state action := by
            intro state other hOther
            exact hAllowed state other (by simp [hOther])
          have hLonger :=
            ih (hRun.step hFirst hNext) hRest hExecute
          rwa [List.append_assoc] at hLonger

theorem execute_append_singleton
    (actions : List α)
    (action : α)
    (state : σ) :
    execute step (actions ++ [action]) state =
      (execute step actions state).bind
        (fun next => step next action) := by
  induction actions generalizing state with
  | nil =>
      simp only [List.nil_append, execute, Option.bind_some]
      cases step state action <;> rfl
  | cons head actions ih =>
      simp only [List.cons_append, execute]
      cases step state head with
      | none => rfl
      | some next => exact ih next

/- A run can be executed. -/
theorem Run.execute_eq
    {actions : List α}
    (hRun : Run step Allowed start actions state) :
    execute step actions start = some state := by
  induction hRun with
  | start => rfl
  | step _ _ hNext ih =>
      rw [execute_append_singleton, ih, Option.bind_some,
        hNext]

/-
  Actions that execute, and end in a state with a decidable
  property, are a run to such a state.
-/
theorem exists_run_of_execute
    {actions : List α}
    {p : σ → Bool}
    (hAllowed :
      ∀ state, ∀ action ∈ actions, Allowed state action)
    (hEnd : (execute step actions start).any p = true) :
    ∃ state,
      Run step Allowed start actions state ∧
        p state = true := by
  rcases (Option.any_eq_true p _).mp hEnd with
    ⟨state, hState, hProperty⟩
  have hRun :=
    Run.append_execute
      (Run.start : Run step Allowed start [] start)
      hAllowed hState
  rw [List.nil_append] at hRun
  exact ⟨state, hRun, hProperty⟩

/- A step function that tests a condition first. -/
def checkedStep
    (step : σ → α → Option σ)
    (allowed : σ → α → Bool)
    (state : σ)
    (action : α) : Option σ :=
  if allowed state action then step state action else none

/- Checked actions that end somewhere are a run. -/
theorem exists_run_of_checked
    {allowed : σ → α → Bool}
    (hAllowed :
      ∀ state action, allowed state action = true →
        Allowed state action)
    {actions : List α}
    {p : σ → Bool}
    (hEnd :
      (execute (checkedStep step allowed) actions
        start).any p = true) :
    ∃ state,
      Run step Allowed start actions state ∧
        p state = true := by
  rcases exists_run_of_execute
    (fun (_ : σ) (_ : α) _ => trivial) hEnd with
    ⟨state, hRun, hProperty⟩
  refine ⟨state, hRun.mono ?_, hProperty⟩
  intro state next action _ hStep
  unfold checkedStep at hStep
  split at hStep
  · next hAction =>
      exact ⟨hAllowed state action hAction, hStep⟩
  · simp at hStep

end Transition
