import Mathlib.Data.List.Basic
import Mathlib.Data.List.Induction
import Mathlib.Logic.Function.Basic

/-! # Grants that can be withdrawn

Somebody requests a grant and is issued one under a key.  A key can be withdrawn, and everything a
holder has can be reset; a reset also overtakes what the holder has requested and not been issued
yet.  `replay` is the state such a history leads to, and `mem_held_replay` says what that means in
terms of the history alone. -/

namespace Oveo.Lib

variable {Holder Key Basis Info : Type}

structure Grant (Holder Key Basis Info : Type) where
  holder : Holder
  key : Key
  /-- What the request was made with. -/
  basis : Basis
  info : Info
deriving DecidableEq, Repr

inductive GrantEvent (Holder Key Basis Info : Type) where
  | requested (request : Nat) (holder : Holder) (basis : Basis)
  | issued (request : Nat) (key : Key) (info : Info)
  | withdrawn (key : Key)
  | reset (holder : Holder)
deriving DecidableEq, Repr

structure Grants (Holder Key Basis Info : Type) where
  pending : Nat → Option (Holder × Basis)
  held : List (Grant Holder Key Basis Info)

namespace GrantEvent

/-- Does it use the request? -/
def Uses (request : Nat) : GrantEvent Holder Key Basis Info → Prop
  | .requested other _ _ | .issued other _ _ => other = request
  | .withdrawn _ | .reset _ => False

end GrantEvent

namespace Grants

section

variable [DecidableEq Holder] [DecidableEq Key]

def none : Grants Holder Key Basis Info := { pending := fun _ => .none, held := [] }

def apply (grants : Grants Holder Key Basis Info) : GrantEvent Holder Key Basis Info → Grants Holder Key Basis Info
  | .requested request holder basis => { grants with pending := Function.update grants.pending request (some (holder, basis)) }
  | .issued request key info =>
    match grants.pending request with
    | some (holder, basis) =>
      { pending := Function.update grants.pending request .none, held := grants.held ++ [⟨holder, key, basis, info⟩] }
    | .none => grants
  | .withdrawn key => { grants with held := grants.held.filter fun grant => grant.key ≠ key }
  | .reset holder =>
    { pending := fun request => (grants.pending request).filter fun pending => pending.1 ≠ holder
      held := grants.held.filter fun grant => grant.holder ≠ holder }

def replay (events : List (GrantEvent Holder Key Basis Info)) : Grants Holder Key Basis Info := events.foldl apply none

end

/-! ## In terms of the history -/

variable {events : List (GrantEvent Holder Key Basis Info)} {event : GrantEvent Holder Key Basis Info} {request : Nat}
  {holder : Holder} {basis : Basis} {grant : Grant Holder Key Basis Info}

/-- The holder made the request, which has not been used since, and was not reset since. -/
def Pends (events : List (GrantEvent Holder Key Basis Info)) (request : Nat) (holder : Holder) (basis : Basis) : Prop :=
  ∃ before since, events = before ++ .requested request holder basis :: since ∧
    ∀ event ∈ since, ¬ event.Uses request ∧ event ≠ .reset holder

/-- The grant was issued for a request that was pending, and since then neither was its key withdrawn nor its holder reset. -/
def Stands (events : List (GrantEvent Holder Key Basis Info)) (grant : Grant Holder Key Basis Info) : Prop :=
  ∃ request before since, events = before ++ .issued request grant.key grant.info :: since ∧
    Pends before request grant.holder grant.basis ∧ ∀ event ∈ since, event ≠ .withdrawn grant.key ∧ event ≠ .reset grant.holder

theorem not_pends_nil : ¬ Pends ([] : List (GrantEvent Holder Key Basis Info)) request holder basis := by
  intro pends
  obtain ⟨before, since, split, -⟩ := pends
  simp at split

theorem not_stands_nil : ¬ Stands [] grant := by
  intro stands
  obtain ⟨request, before, since, split, -⟩ := stands
  simp at split

theorem pends_append : Pends (events ++ [event]) request holder basis ↔
    event = .requested request holder basis ∨ Pends events request holder basis ∧ ¬ event.Uses request ∧ event ≠ .reset holder := by
  constructor
  · intro pends
    obtain ⟨before, since, split, untouched⟩ := pends
    cases since using List.reverseRecOn with
    | nil => exact .inl (List.append_inj_right' split rfl |> List.singleton_inj.mp)
    | append_singleton since last =>
      -- What comes last in the history comes last since the request.
      rw [← List.cons_append, ← List.append_assoc] at split
      obtain rfl : event = last := List.singleton_inj.mp (List.append_inj_right' split rfl)
      refine .inr ⟨⟨before, since, List.append_inj_left' split rfl, fun other listed => ?_⟩, untouched event (by simp)⟩
      exact untouched other (List.mem_append_left _ listed)
  · intro cases
    obtain rfl | ⟨⟨before, since, rfl, untouched⟩, isOther⟩ := cases
    · exact ⟨events, [], rfl, List.forall_mem_nil _⟩
    · refine ⟨before, since ++ [event], by simp, ?_⟩
      simpa [or_imp, forall_and] using ⟨⟨fun other listed => (untouched other listed).1, isOther.1⟩,
        fun other listed => (untouched other listed).2, isOther.2⟩

theorem stands_append : Stands (events ++ [event]) grant ↔
    (∃ request, event = .issued request grant.key grant.info ∧ Pends events request grant.holder grant.basis) ∨
      Stands events grant ∧ event ≠ .withdrawn grant.key ∧ event ≠ .reset grant.holder := by
  constructor
  · intro stands
    obtain ⟨request, before, since, split, pends, untouched⟩ := stands
    cases since using List.reverseRecOn with
    | nil =>
      obtain rfl := List.append_inj_left' split rfl
      exact .inl ⟨request, List.singleton_inj.mp (List.append_inj_right' split rfl), pends⟩
    | append_singleton since last =>
      rw [← List.cons_append, ← List.append_assoc] at split
      obtain rfl : event = last := List.singleton_inj.mp (List.append_inj_right' split rfl)
      refine .inr ⟨⟨request, before, since, List.append_inj_left' split rfl, pends, fun other listed => ?_⟩, untouched event (by simp)⟩
      exact untouched other (List.mem_append_left _ listed)
  · intro cases
    obtain ⟨request, rfl, pends⟩ | ⟨⟨request, before, since, rfl, pends, untouched⟩, isOther⟩ := cases
    · exact ⟨request, events, [], rfl, pends, List.forall_mem_nil _⟩
    · refine ⟨request, before, since ++ [event], by simp, pends, ?_⟩
      simpa [or_imp, forall_and] using ⟨⟨fun other listed => (untouched other listed).1, isOther.1⟩,
        fun other listed => (untouched other listed).2, isOther.2⟩

section

variable [DecidableEq Holder] [DecidableEq Key]

@[simp] theorem replay_append : replay (events ++ [event]) = (replay events).apply event := by
  simp [replay]

theorem apply_pending (grants : Grants Holder Key Basis Info) : (grants.apply event).pending request = some (holder, basis) ↔
    event = .requested request holder basis ∨
      grants.pending request = some (holder, basis) ∧ ¬ event.Uses request ∧ event ≠ .reset holder := by
  cases event with
  | requested other holder' basis' =>
    by_cases same : request = other
    · subst same
      simp [apply, GrantEvent.Uses]
    · simp [apply, GrantEvent.Uses, Function.update_of_ne same, Ne.symm same]
  | issued other key info =>
    simp only [apply]
    split
    next holder' basis' pends =>
      by_cases same : request = other
      · subst same
        simp [GrantEvent.Uses]
      · simp [GrantEvent.Uses, Function.update_of_ne same, Ne.symm same]
    next idle =>
      simp only [GrantEvent.Uses, reduceCtorEq, false_or, ne_eq, not_false_eq_true, and_true, iff_self_and]
      intro pends same
      subst same
      simp [idle] at pends
  | withdrawn key => simp [apply, GrantEvent.Uses]
  | reset other =>
    simp only [apply, GrantEvent.Uses, Option.filter_eq_some_iff, decide_eq_true_eq, reduceCtorEq, false_or, not_false_eq_true,
      true_and, ne_eq, GrantEvent.reset.injEq]
    rw [@eq_comm _ other]

theorem mem_held_apply (grants : Grants Holder Key Basis Info) : grant ∈ (grants.apply event).held ↔
    (∃ request, event = .issued request grant.key grant.info ∧ grants.pending request = some (grant.holder, grant.basis)) ∨
      grant ∈ grants.held ∧ event ≠ .withdrawn grant.key ∧ event ≠ .reset grant.holder := by
  cases event with
  | requested request holder basis => simp [apply]
  | issued request key info =>
    simp only [apply]
    split
    next holder basis pends =>
      obtain ⟨holder', key', basis', info'⟩ := grant
      simp [pends]
      grind
    next idle => simp [idle]
  | withdrawn key =>
    simp only [apply, List.mem_filter, decide_eq_true_eq, reduceCtorEq, false_and, exists_false, false_or, ne_eq,
      GrantEvent.withdrawn.injEq, not_false_eq_true, and_true]
    rw [@eq_comm _ key]
  | reset holder =>
    simp only [apply, List.mem_filter, decide_eq_true_eq, reduceCtorEq, false_and, exists_false, false_or, ne_eq,
      GrantEvent.reset.injEq, not_false_eq_true, true_and]
    rw [@eq_comm _ holder]

theorem pending_replay : (replay events).pending request = some (holder, basis) ↔ Pends events request holder basis := by
  induction events using List.reverseRecOn with
  | nil => simp [replay, none, not_pends_nil]
  | append_singleton events event inductionHypothesis =>
    rw [replay_append, apply_pending, pends_append, inductionHypothesis]

/-- The grants a history leads to are those that stand in it. -/
theorem mem_held_replay : grant ∈ (replay events).held ↔ Stands events grant := by
  induction events using List.reverseRecOn with
  | nil => simp [replay, none, not_stands_nil]
  | append_singleton events event inductionHypothesis =>
    rw [replay_append, mem_held_apply, stands_append, inductionHypothesis]
    simp only [pending_replay]

end

end Grants

end Oveo.Lib
