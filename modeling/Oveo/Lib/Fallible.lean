import Mathlib.Data.List.Forall2

/-! # Computations that may raise

What a successful result of an `Except` computation says about its parts.  With these rules a
`do` block that succeeded is taken apart by `simp` and `obtain`, without unfolding the monad. -/

namespace Oveo.Lib

universe u v w

variable {ε : Type u} {α β : Type v}

@[simp] theorem ok_bind_iff {first : Except ε α} {rest : α → Except ε β} {result : β} :
    (first >>= rest) = .ok result ↔ ∃ value, first = .ok value ∧ rest value = .ok result := by
  cases first <;> simp [bind, Except.bind]

@[simp] theorem throw_bind (error : ε) (rest : α → Except ε β) :
    ((throw error : Except ε α) >>= rest) = .error error := rfl

@[simp] theorem throw_eq_error (error : ε) : (throw error : Except ε α) = .error error := rfl

@[simp] theorem pure_eq_ok (value : α) : (pure value : Except ε α) = .ok value := rfl

/-- A guard that raises: the computation succeeds when the guard passes and the rest succeeds. -/
@[simp] theorem ite_error_eq_ok {condition : Prop} [Decidable condition] {error : ε}
    {rest : Except ε α} {result : α} :
    (if condition then .error error else rest) = .ok result ↔ ¬ condition ∧ rest = .ok result := by
  split <;> simp_all

theorem error_bind_eq (error : ε) (rest : α → Except ε β) :
    ((.error error : Except ε α) >>= rest) = .error error := rfl

theorem ok_bind_eq (value : α) (rest : α → Except ε β) :
    ((.ok value : Except ε α) >>= rest) = rest value := rfl

theorem map_eq_ok_iff {outcome : Except ε α} {f : α → β} {result : β} :
    outcome.map f = .ok result ↔ ∃ value, outcome = .ok value ∧ f value = result := by
  cases outcome <;> simp [Except.map]

/-- A step for each element succeeds with what each of them gives. -/
theorem mapM_eq_ok {f : α → Except ε β} {first : List α} {second : List β} :
    first.mapM f = .ok second ↔ List.Forall₂ (fun a b => f a = .ok b) first second := by
  induction first generalizing second with
  | nil =>
    rw [List.mapM_nil, pure_eq_ok, Except.ok.injEq, List.forall₂_nil_left_iff]
    exact eq_comm
  | cons a first inductionHypothesis =>
    rw [List.mapM_cons, ok_bind_iff]
    constructor
    · rintro ⟨b, isFirst, rest⟩
      rw [ok_bind_iff] at rest
      obtain ⟨others, isRest, same⟩ := rest
      cases same
      exact .cons isFirst (inductionHypothesis.mp isRest)
    · intro related
      cases related with
      | cons isFirst isRest =>
        refine ⟨_, isFirst, ?_⟩
        rw [ok_bind_iff]
        exact ⟨_, inductionHypothesis.mpr isRest, rfl⟩

theorem exists_ok_bind {first : Except ε α} {rest : α → Except ε β} (isFirst : ∃ value, first = .ok value)
    (isRest : ∀ value, ∃ result, rest value = .ok result) : ∃ result, (first >>= rest) = .ok result := by
  obtain ⟨value, rfl⟩ := isFirst
  exact isRest value

theorem exists_mapM_eq_ok {f : α → Except ε β} {elements : List α} (each : ∀ a ∈ elements, ∃ b, f a = .ok b) :
    ∃ results, elements.mapM f = .ok results := by
  induction elements with
  | nil => exact ⟨[], rfl⟩
  | cons a elements inductionHypothesis =>
    obtain ⟨isFirst, each⟩ := List.forall_mem_cons.mp each
    rw [List.mapM_cons]
    apply exists_ok_bind isFirst
    intro b
    exact exists_ok_bind (inductionHypothesis each) fun others => ⟨_, rfl⟩

theorem exists_of_isOk {computed : Except ε α} (isOk : computed.isOk = true) : ∃ value, computed = .ok value := by
  cases computed with
  | error error => cases isOk
  | ok value => exact ⟨value, rfl⟩

end Oveo.Lib
