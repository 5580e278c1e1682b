import Oveo.Lib.Machine

/-! # Traces of a transition system

What the steps of a run let be observed, one after the other.  `Trace.simulates` is the rule that
relates a run to an abstract state that only sees its trace. -/

namespace Oveo.Lib

universe u v w x

namespace Machine

variable {State : Type u} {Action : Type v} {Event : Type w} {View : Type x}

/-- A run from one state to another by steps that all satisfy `allowed`, and what can be observed of it. -/
inductive Trace (machine : Machine State Action) (allowed : State → Action → Prop) (observe : State → Action → List Event) :
    State → List Event → State → Prop where
  | refl {state} : Trace machine allowed observe state [] state
  | step {start events state action next} : Trace machine allowed observe start events state → allowed state action →
      machine.step state action = some next → Trace machine allowed observe start (events ++ observe state action) next

/-- Execute a list of actions, each of which must satisfy `allowed`, and collect what is observed. -/
def traceVia (machine : Machine State Action) (allowed : State → Action → Prop) [∀ state action, Decidable (allowed state action)]
    (observe : State → Action → List Event) : State → List Action → Option (List Event × State)
  | state, [] => some ([], state)
  | state, action :: actions =>
    if allowed state action then
      match machine.step state action with
      | some next => (traceVia machine allowed observe next actions).map fun (events, finish) => (observe state action ++ events, finish)
      | none => none
    else none

variable {machine : Machine State Action} {allowed : State → Action → Prop} {observe : State → Action → List Event}
  {start state finish : State} {events later : List Event}

theorem Trace.trans (first : Trace machine allowed observe start events state)
    (second : Trace machine allowed observe state later finish) : Trace machine allowed observe start (events ++ later) finish := by
  induction second with
  | refl => simpa using first
  | step _ permitted taken inductionHypothesis =>
    rw [← List.append_assoc]
    exact inductionHypothesis.step permitted taken

theorem Trace.head {action : Action} {next : State} (permitted : allowed state action) (taken : machine.step state action = some next)
    (run : Trace machine allowed observe next events finish) :
    Trace machine allowed observe state (observe state action ++ events) finish :=
  Trace.trans (by simpa using Trace.refl.step permitted taken) run

theorem Trace.mono {permitted : State → Action → Prop} (weaker : ∀ state action, allowed state action → permitted state action)
    (run : Trace machine allowed observe start events finish) : Trace machine permitted observe start events finish := by
  induction run with
  | refl => exact .refl
  | step _ isAllowed taken inductionHypothesis => exact inductionHypothesis.step (weaker _ _ isAllowed) taken

theorem Trace.reachable (run : Trace machine allowed observe start events finish) (reachable : machine.ReachableVia allowed start) :
    machine.ReachableVia allowed finish := by
  induction run with
  | refl => exact reachable
  | step _ permitted taken inductionHypothesis => exact .step inductionHypothesis permitted taken

/-- A relation to what an abstract state makes of the trace holds along every run, if every step keeps it. -/
theorem Trace.simulates {replay : View → Event → View} {first : View} (related : State → View → Prop)
    (run : Trace machine allowed observe start events finish) (initially : related start first)
    (preserved : ∀ state action next view, related state view → allowed state action → machine.step state action = some next →
      related next ((observe state action).foldl replay view)) : related finish (events.foldl replay first) := by
  induction run with
  | refl => exact initially
  | step _ permitted taken inductionHypothesis =>
    rw [List.foldl_append]
    exact preserved _ _ _ _ inductionHypothesis permitted taken

theorem trace_of_traceVia [∀ state action, Decidable (allowed state action)] {actions : List Action}
    (ran : machine.traceVia allowed observe state actions = some (events, finish)) :
    Trace machine allowed observe state events finish := by
  induction actions generalizing state events with
  | nil =>
    simp only [traceVia, Option.some.injEq, Prod.mk.injEq] at ran
    obtain ⟨rfl, rfl⟩ := ran
    exact .refl
  | cons action actions inductionHypothesis =>
    simp only [traceVia] at ran
    split at ran
    next permitted =>
      split at ran
      next next taken =>
        simp only [Option.map_eq_some_iff, Prod.mk.injEq, Prod.exists] at ran
        obtain ⟨observed, last, rest, rfl, rfl⟩ := ran
        exact .head permitted taken (inductionHypothesis rest)
      next => cases ran
    next => cases ran

end Machine

end Oveo.Lib
