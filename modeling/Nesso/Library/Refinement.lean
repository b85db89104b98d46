import Mathlib

/-
  Refinement of machines that answer their callers.

  A machine answers some of its actions.  The actions of a
  concrete machine that are calls of an abstract one must be
  answered alike, the others not at all.  A simulation keeps
  the two states related, so that whole runs are answered
  alike.

  Key definitions include:
    * `Refinement.answers`
    * `Refinement.final`
    * `Refinement.Admits`
    * `Refinement.viewed`
    * `Refinement.recorded`
    * `Refinement.Simulation`

  The run rules are:
    * `Refinement.answers_viewed`
    * `Refinement.answers_recorded`
    * `Refinement.final_recorded`
    * `Refinement.Simulation.answers_eq`
    * `Refinement.Simulation.related_final`
-/

------------------------------------------------------------
-- Machines
------------------------------------------------------------

namespace Refinement

variable {σ τ α γ β : Type}

/- The answers to a list of actions, in order. -/
def answers
    (step : σ → α → Option β × σ) :
    σ → List α → List β
| _, [] => []
| state, action :: actions =>
    (step state action).1.toList ++
      answers step (step state action).2 actions

/- The state after a list of actions. -/
def final
    (step : σ → α → Option β × σ) :
    σ → List α → σ
| state, [] => state
| state, action :: actions =>
    final step (step state action).2 actions

/- Every action meets the condition on the state before it. -/
def Admits
    (step : σ → α → Option β × σ)
    (Allowed : σ → α → Prop) :
    σ → List α → Prop
| _, [] => True
| state, action :: actions =>
    Allowed state action ∧
      Admits step Allowed (step state action).2 actions

instance
    (step : σ → α → Option β × σ)
    (Allowed : σ → α → Prop)
    [∀ state action, Decidable (Allowed state action)]
    (state : σ)
    (actions : List α) :
    Decidable (Admits step Allowed state actions) :=
  match actions with
  | [] => inferInstanceAs (Decidable True)
  | action :: actions =>
      have : Decidable
          (Admits step Allowed (step state action).2
            actions) :=
        instDecidableAdmits step Allowed _ actions
      inferInstanceAs (Decidable (_ ∧ _))

/- Conditions may be weakened. -/
theorem Admits.imp
    {step : σ → α → Option β × σ}
    {Allowed Permitted : σ → α → Prop}
    (hImp :
      ∀ state action,
        Allowed state action → Permitted state action)
    {state : σ}
    {actions : List α}
    (hAdmits : Admits step Allowed state actions) :
    Admits step Permitted state actions := by
  induction actions generalizing state with
  | nil => trivial
  | cons action actions ih =>
      exact ⟨hImp state action hAdmits.1, ih hAdmits.2⟩

/- A condition on the actions alone. -/
theorem admits_of_forall
    (step : σ → α → Option β × σ)
    {Allowed : α → Prop}
    {actions : List α}
    (hAllowed : ∀ action ∈ actions, Allowed action)
    (state : σ) :
    Admits step (fun _ => Allowed) state actions := by
  induction actions generalizing state with
  | nil => trivial
  | cons action actions ih =>
      refine ⟨hAllowed action (by simp), ih ?_ _⟩
      intro other hOther
      exact hAllowed other (by simp [hOther])

end Refinement

------------------------------------------------------------
-- Views of the Answers
------------------------------------------------------------

namespace Refinement

variable {σ α β γ : Type}

/- A machine that shows its callers a view of its answers. -/
def viewed
    (step : σ → α → Option β × σ)
    (view : β → γ)
    (state : σ)
    (action : α) : Option γ × σ :=
  ((step state action).1.map view, (step state action).2)

theorem answers_viewed
    (step : σ → α → Option β × σ)
    (view : β → γ)
    (actions : List α)
    (state : σ) :
    answers (viewed step view) state actions =
      (answers step state actions).map view := by
  induction actions generalizing state with
  | nil => rfl
  | cons action actions ih =>
      simp [answers, viewed, ih, Option.toList_map]

/- The states are the same, and so are the conditions. -/
theorem Admits.viewed
    {step : σ → α → Option β × σ}
    {Allowed : σ → α → Prop}
    {actions : List α}
    {state : σ}
    (hAdmits : Admits step Allowed state actions)
    (view : β → γ) :
    Admits (Refinement.viewed step view) Allowed state
      actions := by
  induction actions generalizing state with
  | nil => trivial
  | cons action actions ih =>
      exact ⟨hAdmits.1, ih hAdmits.2⟩

end Refinement

------------------------------------------------------------
-- Recorded Answers
------------------------------------------------------------

namespace Refinement

variable {σ α β γ : Type}

/-
  A machine that remembers its answers and shows its callers
  a view of them.
-/
def recorded
    (step : σ → α → Option β × σ)
    (view : β → γ)
    (state : σ × List β)
    (action : α) : Option γ × (σ × List β) :=
  ((step state.1 action).1.map view,
    ((step state.1 action).2,
      state.2 ++ (step state.1 action).1.toList))

theorem answers_recorded
    (step : σ → α → Option β × σ)
    (view : β → γ)
    (actions : List α)
    (state : σ × List β) :
    answers (recorded step view) state actions =
      (answers step state.1 actions).map view := by
  induction actions generalizing state with
  | nil => simp [answers]
  | cons action actions ih =>
      simp [answers, recorded, ih, Option.toList_map]

theorem final_recorded
    (step : σ → α → Option β × σ)
    (view : β → γ)
    (actions : List α)
    (state : σ × List β) :
    final (recorded step view) state actions =
      (final step state.1 actions,
        state.2 ++ answers step state.1 actions) := by
  induction actions generalizing state with
  | nil => simp [answers, final]
  | cons action actions ih =>
      simp [answers, final, recorded, ih]

end Refinement

------------------------------------------------------------
-- Simulation
------------------------------------------------------------

namespace Refinement

variable {σ τ α γ β : Type}

/-
  Calls are answered as the abstract machine answers them,
  and silent actions leave its state alone.
-/
structure Simulation
    (step : σ → α → Option β × σ)
    (spec : τ → γ → Option β × τ)
    (call : α → Option γ)
    (Allowed : σ → α → Prop)
    (Related : σ → τ → Prop) : Prop where
  visible :
    ∀ {state abstract action called},
      Related state abstract → Allowed state action →
        call action = some called →
          (step state action).1 =
              (spec abstract called).1 ∧
            Related (step state action).2
              (spec abstract called).2
  silent :
    ∀ {state abstract action},
      Related state abstract → Allowed state action →
        call action = none →
          (step state action).1 = none ∧
            Related (step state action).2 abstract

namespace Simulation

variable {step : σ → α → Option β × σ}
variable {spec : τ → γ → Option β × τ}
variable {call : α → Option γ}
variable {Allowed : σ → α → Prop}
variable {Related : σ → τ → Prop}

/- Related states stay related along a run. -/
theorem related_final
    (hSimulation :
      Simulation step spec call Allowed Related)
    {actions : List α}
    {state : σ}
    {abstract : τ}
    (hRelated : Related state abstract)
    (hAdmits : Admits step Allowed state actions) :
    Related (final step state actions)
      (final spec abstract (actions.filterMap call)) := by
  induction actions generalizing state abstract with
  | nil => exact hRelated
  | cons action actions ih =>
      rcases hAdmits with ⟨hAllowed, hRest⟩
      cases hCall : call action with
      | some called =>
          rw [List.filterMap_cons_some hCall]
          have hNext :=
            hSimulation.visible hRelated hAllowed hCall
          exact ih hNext.2 hRest
      | none =>
          rw [List.filterMap_cons_none hCall]
          have hNext :=
            hSimulation.silent hRelated hAllowed hCall
          exact ih hNext.2 hRest

/- A run is answered as the abstract machine answers it. -/
theorem answers_eq
    (hSimulation :
      Simulation step spec call Allowed Related)
    {actions : List α}
    {state : σ}
    {abstract : τ}
    (hRelated : Related state abstract)
    (hAdmits : Admits step Allowed state actions) :
    answers step state actions =
      answers spec abstract (actions.filterMap call) := by
  induction actions generalizing state abstract with
  | nil => rfl
  | cons action actions ih =>
      rcases hAdmits with ⟨hAllowed, hRest⟩
      cases hCall : call action with
      | some called =>
          rw [List.filterMap_cons_some hCall]
          rcases hSimulation.visible hRelated hAllowed hCall
            with ⟨hAnswer, hNext⟩
          rw [answers, answers, hAnswer, ih hNext hRest]
      | none =>
          rw [List.filterMap_cons_none hCall]
          rcases hSimulation.silent hRelated hAllowed hCall
            with ⟨hAnswer, hNext⟩
          rw [answers, hAnswer, ih hNext hRest]
          rfl

end Simulation

end Refinement
