import Mathlib.Logic.Relation

/-! # Transition systems

A machine takes one step per action; an action that is not enabled in a state gives no
next state.  The two rules every safety proof of this development goes through are
`Machine.invariant` (what one step preserves, every run preserves) and
`Machine.steps_invariant` (the same from an arbitrary starting state). -/

namespace Oveo.Lib

universe u v

structure Machine (State : Type u) (Action : Type v) where
  init : State → Prop
  step : State → Action → Option State

namespace Machine

variable {State : Type u} {Action : Type v} (machine : Machine State Action)

/-- Execute a list of actions; `none` as soon as one of them is not enabled. -/
def run : State → List Action → Option State
  | state, [] => some state
  | state, action :: actions =>
    match machine.step state action with
    | some next => run next actions
    | none => none

/-- Execute a list of actions, each of which must also satisfy `allowed`. -/
def runVia (allowed : State → Action → Prop) [∀ state action, Decidable (allowed state action)] :
    State → List Action → Option State
  | state, [] => some state
  | state, action :: actions =>
    if allowed state action then
      match machine.step state action with
      | some next => runVia allowed next actions
      | none => none
    else none

/-- States reached from an initial one by steps that all satisfy `allowed`, a condition on
the state before the step and on the action taken there. -/
inductive ReachableVia (allowed : State → Action → Prop) : State → Prop where
  | init {state} : machine.init state → ReachableVia allowed state
  | step {state action next} : ReachableVia allowed state → allowed state action →
      machine.step state action = some next → ReachableVia allowed next

def Reachable : State → Prop := machine.ReachableVia fun _ _ => True

/-- One state follows another by any one action. -/
def Next (state next : State) : Prop := ∃ action, machine.step state action = some next

/-- One state follows another by any number of steps. -/
def Steps : State → State → Prop := Relation.ReflTransGen machine.Next

variable {machine}

theorem invariant {allowed : State → Action → Prop} (property : State → Prop)
    (initially : ∀ state, machine.init state → property state)
    (preserved : ∀ state action next, property state → allowed state action →
      machine.step state action = some next → property next)
    {state : State} (reachable : machine.ReachableVia allowed state) : property state := by
  induction reachable with
  | init start => exact initially _ start
  | step _ permitted taken inductionHypothesis =>
    exact preserved _ _ _ inductionHypothesis permitted taken

theorem reachable_step {state next : State} {action : Action}
    (reachable : machine.Reachable state) (taken : machine.step state action = some next) :
    machine.Reachable next :=
  .step reachable trivial taken

theorem reachable_of_steps {state next : State} (reachable : machine.Reachable state)
    (steps : machine.Steps state next) : machine.Reachable next := by
  induction steps with
  | refl => exact reachable
  | tail _ last inductionHypothesis =>
    obtain ⟨action, taken⟩ := last
    exact reachable_step inductionHypothesis taken

/-- A property of two states that one more step keeps holds from a state to all later ones. -/
theorem steps_invariant {start : State} (property : State → Prop) (holds : property start)
    (reachable : machine.Reachable start)
    (preserved : ∀ state action next, machine.Reachable state → property state →
      machine.step state action = some next → property next)
    {finish : State} (steps : machine.Steps start finish) : property finish := by
  have general : machine.Reachable finish ∧ property finish := by
    induction steps with
    | refl => exact ⟨reachable, holds⟩
    | tail _ last inductionHypothesis =>
      obtain ⟨action, taken⟩ := last
      exact ⟨reachable_step inductionHypothesis.1 taken,
        preserved _ _ _ inductionHypothesis.1 inductionHypothesis.2 taken⟩
  exact general.2

theorem reachable_of_run {actions : List Action} {state finish : State}
    (reachable : machine.Reachable state) (ran : machine.run state actions = some finish) :
    machine.Reachable finish := by
  induction actions generalizing state with
  | nil =>
    simp only [run, Option.some.injEq] at ran
    exact ran ▸ reachable
  | cons action actions inductionHypothesis =>
    simp only [run] at ran
    split at ran
    next next taken => exact inductionHypothesis (reachable_step reachable taken) ran
    next => cases ran

theorem steps_of_run {actions : List Action} {state finish : State} (ran : machine.run state actions = some finish) :
    machine.Steps state finish := by
  induction actions generalizing state with
  | nil =>
    simp only [run, Option.some.injEq] at ran
    exact ran ▸ .refl
  | cons action actions inductionHypothesis =>
    simp only [run] at ran
    split at ran
    next next taken => exact (inductionHypothesis ran).head ⟨action, taken⟩
    next => cases ran

theorem reachableVia_of_runVia {allowed : State → Action → Prop} [∀ state action, Decidable (allowed state action)]
    {actions : List Action} {state finish : State} (reachable : machine.ReachableVia allowed state)
    (ran : machine.runVia allowed state actions = some finish) : machine.ReachableVia allowed finish := by
  induction actions generalizing state with
  | nil =>
    simp only [runVia, Option.some.injEq] at ran
    exact ran ▸ reachable
  | cons action actions inductionHypothesis =>
    simp only [runVia] at ran
    split at ran
    next permitted =>
      split at ran
      next next taken => exact inductionHypothesis (.step reachable permitted taken) ran
      next => cases ran
    next => cases ran

end Machine

end Oveo.Lib
