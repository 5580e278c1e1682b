import Mathlib.Data.List.Chain

/-! # Greedy grouping

A list is cut into consecutive groups.  Each group takes elements as long as the group with the next
one passes a test; the element that does not pass starts the next group, untested. -/

namespace Oveo.Lib

universe u v

section

variable {α : Type u} {β : Type v} (fits : List α → Bool)

/-- The groups from a current one on; `none` where there is no current one and the next element alone does not pass. -/
def greedyFrom (current : List α) : List α → Option (List (List α))
  | [] => some (if current.isEmpty then [] else [current])
  | item :: items =>
    if fits (current ++ [item]) then greedyFrom (current ++ [item]) items
    else if current.isEmpty then none
    else (greedyFrom [item] items).map fun groups => current :: groups

/-- The groups of a list behind a current group. -/
inductive Grouped : List α → List α → List (List α) → Prop where
  | done : Grouped [] [] []
  | last {current : List α} (isNonempty : current ≠ []) : Grouped current [] [current]
  | taken {current items : List α} {item : α} {groups : List (List α)} (isPassing : fits (current ++ [item]) = true)
      (isRest : Grouped (current ++ [item]) items groups) : Grouped current (item :: items) groups
  | restarted {current items : List α} {item : α} {groups : List (List α)} (isNonempty : current ≠ [])
      (isRefused : fits (current ++ [item]) = false) (isRest : Grouped [item] items groups) :
      Grouped current (item :: items) (current :: groups)

/-- No two neighbours pass together. -/
def Apart (items : List α) : Prop := items.IsChain fun first second => fits [first, second] = false

end

section

variable {α : Type u} {β : Type v} {fits : List α → Bool} {current items : List α} {groups : List (List α)}

theorem grouped_of_greedyFrom (isGreedy : greedyFrom fits current items = some groups) : Grouped fits current items groups := by
  induction items generalizing current groups with
  | nil =>
    cases isGreedy
    cases current with
    | nil => exact .done
    | cons => exact .last (List.cons_ne_nil _ _)
  | cons item items inductionHypothesis =>
    rw [greedyFrom] at isGreedy
    split at isGreedy
    next isPassing => exact .taken isPassing (inductionHypothesis isGreedy)
    next isRefused =>
      split at isGreedy
      next => cases isGreedy
      next isNonempty =>
        obtain ⟨others, isRest, rfl⟩ := Option.map_eq_some_iff.mp isGreedy
        exact .restarted (by simpa using isNonempty) (by simpa using isRefused) (inductionHypothesis isRest)

theorem Grouped.flatten (grouped : Grouped fits current items groups) : groups.flatten = current ++ items := by
  induction grouped with
  | done => rfl
  | last => simp
  | taken _ _ inductionHypothesis => rw [inductionHypothesis, List.append_assoc, List.singleton_append]
  | restarted _ _ _ inductionHypothesis => rw [List.flatten_cons, inductionHypothesis, List.singleton_append]

theorem Grouped.nonempty (grouped : Grouped fits current items groups) : ∀ group ∈ groups, group ≠ [] := by
  induction grouped with
  | done => exact fun _ listed => nomatch listed
  | last isNonempty => simpa using isNonempty
  | taken _ _ inductionHypothesis => exact inductionHypothesis
  | restarted isNonempty _ _ inductionHypothesis => exact List.forall_mem_cons.mpr ⟨isNonempty, inductionHypothesis⟩

/-- An element adds at most one group. -/
theorem Grouped.length (grouped : Grouped fits current items groups) : groups.length ≤ items.length + min current.length 1 := by
  induction grouped with
  | done => exact Nat.le_refl _
  | last isNonempty =>
    have := List.length_pos_iff.mpr isNonempty
    simp only [List.length_singleton, List.length_nil]
    omega
  | taken _ _ inductionHypothesis =>
    simp only [List.length_append, List.length_cons] at inductionHypothesis ⊢
    omega
  | restarted isNonempty _ _ inductionHypothesis =>
    have := List.length_pos_iff.mpr isNonempty
    simp only [List.length_cons] at inductionHypothesis ⊢
    omega

/-- Where each element passes alone, each group passes. -/
theorem Grouped.passing (grouped : Grouped fits current items groups) (each : ∀ item ∈ items, fits [item] = true)
    (isCurrent : current ≠ [] → fits current = true) : ∀ group ∈ groups, fits group = true := by
  induction grouped with
  | done => exact fun _ listed => nomatch listed
  | last isNonempty => simpa using isCurrent isNonempty
  | taken isPassing _ inductionHypothesis =>
    exact inductionHypothesis (List.forall_mem_cons.mp each).2 fun _ => isPassing
  | restarted isNonempty _ _ inductionHypothesis =>
    obtain ⟨isPassing, each⟩ := List.forall_mem_cons.mp each
    exact List.forall_mem_cons.mpr ⟨isCurrent isNonempty, inductionHypothesis each fun _ => isPassing⟩

/-- There are as many groups as elements just where no two neighbours pass together. -/
theorem Grouped.length_iff {first : α} (grouped : Grouped fits [first] items groups) :
    groups.length = items.length + 1 ↔ Apart fits (first :: items) := by
  generalize isCurrent : [first] = current at grouped
  induction grouped generalizing first with
  | done => cases isCurrent
  | last => simp [Apart]
  | taken isPassing isRest _ =>
    subst isCurrent
    have shorter := isRest.length
    simp only [List.singleton_append, List.length_cons, List.length_nil] at isPassing shorter ⊢
    rw [Apart, List.isChain_cons_cons, isPassing]
    simp only [Bool.true_eq_false, false_and, iff_false]
    omega
  | restarted _ isRefused _ inductionHypothesis =>
    subst isCurrent
    rw [List.length_cons, List.length_cons, Nat.succ_inj, inductionHypothesis rfl, Apart, Apart, List.isChain_cons_cons]
    exact (and_iff_right isRefused).symm

/-- Once there is a current group, nothing is refused. -/
theorem greedyFrom_isSome (nonempty : current ≠ []) : ∃ groups, greedyFrom fits current items = some groups := by
  induction items generalizing current with
  | nil => exact ⟨_, rfl⟩
  | cons item items inductionHypothesis =>
    rw [greedyFrom]
    split
    next => exact inductionHypothesis (by simp)
    next =>
      rw [if_neg (by simpa using nonempty)]
      obtain ⟨groups, grouped⟩ := inductionHypothesis (List.cons_ne_nil item [])
      exact ⟨_, by rw [grouped]; rfl⟩

/-- A test on images groups the images. -/
theorem greedyFrom_map {f : β → α} {current items : List β} :
    greedyFrom fits (current.map f) (items.map f) =
      (greedyFrom (fun group => fits (group.map f)) current items).map fun groups => groups.map fun group => group.map f := by
  induction items generalizing current with
  | nil =>
    rw [List.map_nil, greedyFrom, greedyFrom, List.isEmpty_map]
    split <;> rfl
  | cons item items inductionHypothesis =>
    rw [List.map_cons, greedyFrom, greedyFrom, List.isEmpty_map]
    have isTaken := @inductionHypothesis (current ++ [item])
    have isRestarted := @inductionHypothesis [item]
    rw [List.map_append, List.map_singleton] at isTaken ⊢
    rw [List.map_singleton] at isRestarted
    split
    next => exact isTaken
    next =>
      split
      next => rfl
      next =>
        rw [isRestarted, Option.map_map, Option.map_map]
        rfl

end

end Oveo.Lib
