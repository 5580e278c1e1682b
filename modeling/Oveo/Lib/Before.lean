import Mathlib.Data.List.Nodup

/-! # One entry before another

`Before first second list` says that some occurrence of the one stands before some occurrence of the other.
It is what is left of the order of a list when entries are dropped, renamed or replaced by several. -/

namespace Oveo.Lib

universe u v

variable {α : Type u} {β : Type v}

def Before (first second : α) : List α → Prop
  | [] => False
  | entry :: rest => entry = first ∧ second ∈ rest ∨ Before first second rest

variable {first second : α} {left right list : List α}

theorem Before.mem (before : Before first second list) : first ∈ list ∧ second ∈ list := by
  induction list with
  | nil => cases before
  | cons entry rest inductionHypothesis =>
    rcases before with ⟨rfl, later⟩ | later
    · exact ⟨List.mem_cons_self, List.mem_cons_of_mem _ later⟩
    · obtain ⟨isFirst, isSecond⟩ := inductionHypothesis later
      exact ⟨List.mem_cons_of_mem _ isFirst, List.mem_cons_of_mem _ isSecond⟩

theorem before_append : Before first second (left ++ right) ↔
    Before first second left ∨ first ∈ left ∧ second ∈ right ∨ Before first second right := by
  induction left with
  | nil => simp [Before]
  | cons entry left inductionHypothesis =>
    simp only [List.cons_append, Before, inductionHypothesis, List.mem_append, List.mem_cons, eq_comm (a := first)]
    tauto

theorem before_iff_split : Before first second list ↔ ∃ left right, list = left ++ first :: right ∧ second ∈ right := by
  induction list with
  | nil => simp [Before]
  | cons entry rest inductionHypothesis =>
    rw [Before, inductionHypothesis]
    constructor
    · rintro (⟨rfl, later⟩ | ⟨left, right, rfl, later⟩)
      · exact ⟨[], rest, rfl, later⟩
      · exact ⟨entry :: left, right, rfl, later⟩
    · rintro ⟨left, right, same, later⟩
      cases left with
      | nil =>
        cases same
        exact .inl ⟨rfl, later⟩
      | cons _ left =>
        cases same
        exact .inr ⟨left, right, rfl, later⟩

/-- Entries that are dropped or renamed leave the order of the others. -/
theorem before_filterMap {f : α → Option β} {list : List α} {first second : β} : Before first second (list.filterMap f) ↔
    ∃ a b, Before a b list ∧ f a = some first ∧ f b = some second := by
  induction list with
  | nil => simp [Before]
  | cons entry rest inductionHypothesis =>
    cases renamed : f entry with
    | none =>
      rw [List.filterMap_cons_none renamed, inductionHypothesis]
      constructor
      · rintro ⟨a, b, before, isFirst, isSecond⟩
        exact ⟨a, b, .inr before, isFirst, isSecond⟩
      · rintro ⟨a, b, ⟨rfl, -⟩ | before, isFirst, isSecond⟩
        · rw [renamed] at isFirst
          cases isFirst
        · exact ⟨a, b, before, isFirst, isSecond⟩
    | some name =>
      rw [List.filterMap_cons_some renamed, Before, inductionHypothesis, List.mem_filterMap]
      constructor
      · rintro (⟨rfl, b, listed, isSecond⟩ | ⟨a, b, before, isFirst, isSecond⟩)
        · exact ⟨entry, b, .inl ⟨rfl, listed⟩, renamed, isSecond⟩
        · exact ⟨a, b, .inr before, isFirst, isSecond⟩
      · rintro ⟨a, b, ⟨rfl, listed⟩ | before, isFirst, isSecond⟩
        · exact .inl ⟨Option.some.inj (renamed.symm.trans isFirst), b, listed, isSecond⟩
        · exact .inr ⟨a, b, before, isFirst, isSecond⟩

/-- What comes of an earlier entry comes before what comes of a later one. -/
theorem before_flatMap {f : α → List β} {list : List α} {first second : β} : Before first second (list.flatMap f) ↔
    (∃ a ∈ list, Before first second (f a)) ∨ ∃ a b, Before a b list ∧ first ∈ f a ∧ second ∈ f b := by
  induction list with
  | nil => simp [Before]
  | cons entry rest inductionHypothesis =>
    rw [List.flatMap_cons, before_append, inductionHypothesis, List.mem_flatMap]
    simp only [Before, List.mem_cons]
    constructor
    · rintro (here | ⟨isFirst, b, listed, isSecond⟩ | ⟨a, listed, here⟩ | ⟨a, b, before, isFirst, isSecond⟩)
      · exact .inl ⟨entry, .inl rfl, here⟩
      · exact .inr ⟨entry, b, .inl ⟨rfl, listed⟩, isFirst, isSecond⟩
      · exact .inl ⟨a, .inr listed, here⟩
      · exact .inr ⟨a, b, .inr before, isFirst, isSecond⟩
    · rintro (⟨a, rfl | listed, here⟩ | ⟨a, b, ⟨rfl, listed⟩ | before, isFirst, isSecond⟩)
      · exact .inl here
      · exact .inr (.inr (.inl ⟨a, listed, here⟩))
      · exact .inr (.inl ⟨isFirst, b, listed, isSecond⟩)
      · exact .inr (.inr (.inr ⟨a, b, before, isFirst, isSecond⟩))

/-- Where entries have different keys, what stands before and what stands behind a key is on two sides of one entry. -/
theorem split_of_before {key : α → β} {list : List α} {first middle middle' last : α} (distinct : (list.map key).Nodup)
    (isBefore : Before first middle list) (isBehind : Before middle' last list) (same : key middle = key middle') :
    ∃ left right, list = left ++ middle :: right ∧ first ∈ left ∧ last ∈ right := by
  induction list with
  | nil => cases isBefore
  | cons entry rest inductionHypothesis =>
    obtain ⟨absent, distinct⟩ := List.nodup_cons.mp distinct
    have isMiddle : middle ∈ rest := by
      rcases isBefore with ⟨-, later⟩ | before
      · exact later
      · exact before.mem.2
    -- the middle is not the first entry, so what stands behind it does so among the others
    have isBehind : Before middle' last rest := by
      rcases isBehind with ⟨rfl, -⟩ | behind
      · exact absurd (List.mem_map.mpr ⟨middle, isMiddle, same⟩) absent
      · exact behind
    rcases isBefore with ⟨rfl, -⟩ | before
    · obtain ⟨left, right, rfl⟩ := List.append_of_mem isMiddle
      refine ⟨entry :: left, right, rfl, List.mem_cons_self, ?_⟩
      rw [List.map_append, List.map_cons] at distinct
      obtain ⟨-, distinctRight, apart⟩ := List.nodup_append.mp distinct
      rcases before_append.mp isBehind with inLeft | ⟨inLeft, -⟩ | ⟨-, inRight⟩ | inRight
      · exact absurd same.symm (apart _ (List.mem_map_of_mem inLeft.mem.1) _ List.mem_cons_self)
      · exact absurd same.symm (apart _ (List.mem_map_of_mem inLeft) _ List.mem_cons_self)
      · exact inRight
      · exact inRight.mem.2
    · obtain ⟨left, right, rfl, isFirst, isLast⟩ := inductionHypothesis distinct before isBehind
      exact ⟨entry :: left, right, rfl, List.mem_cons_of_mem _ isFirst, isLast⟩

end Oveo.Lib
