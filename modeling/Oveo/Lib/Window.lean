import Mathlib.Data.List.Nodup
import Mathlib.Data.List.Sort

/-! # Selecting from an order

Sorting and selecting commute.  Reading a window and selecting do not: a query that reads the first
`size` entries of an order and only then drops the ones it does not want finds less than one that
drops them first, exactly where a wanted entry stands behind the window. -/

namespace Oveo.Lib

universe u

variable {α : Type u} {wanted : α → Bool}

section

variable {ahead : α → α → Prop} [DecidableRel ahead] [IsTrans α ahead]

theorem orderedInsert_filter {entries : List α} (sorted : entries.Pairwise ahead) (entry : α) :
    (entries.orderedInsert ahead entry).filter wanted =
      if wanted entry = true then (entries.filter wanted).orderedInsert ahead entry else entries.filter wanted := by
  induction entries with
  | nil => by_cases isWanted : wanted entry = true <;> simp [isWanted]
  | cons first rest inductionHypothesis =>
    obtain ⟨leads, sorted⟩ := List.pairwise_cons.mp sorted
    by_cases here : ahead entry first
    · rw [List.orderedInsert_cons, if_pos here, List.filter_cons]
      refine ite_congr rfl (fun _ => ?_) fun _ => rfl
      -- Whatever is left first, the entry stands ahead of it.
      rw [List.filter_cons]
      split
      next => rw [List.orderedInsert_cons, if_pos here]
      next =>
        cases isRest : rest.filter wanted with
        | nil => rfl
        | cons second others =>
          have inRest : second ∈ rest := (List.mem_filter.mp (isRest ▸ List.mem_cons_self : second ∈ rest.filter wanted)).1
          rw [List.orderedInsert_cons, if_pos (trans_of ahead here (leads second inRest))]
    · rw [List.orderedInsert_cons, if_neg here, List.filter_cons, List.filter_cons, inductionHypothesis sorted]
      by_cases isFirst : wanted first = true
      · rw [if_pos isFirst, if_pos isFirst]
        split
        next => rw [List.orderedInsert_cons, if_neg here]
        next => rfl
      · rw [if_neg isFirst, if_neg isFirst]

/-- Sorting a selection is selecting from the sorted list. -/
theorem insertionSort_filter [Std.Total ahead] (entries : List α) :
    (entries.filter wanted).insertionSort ahead = (entries.insertionSort ahead).filter wanted := by
  induction entries with
  | nil => rfl
  | cons first rest inductionHypothesis =>
    rw [List.insertionSort_cons, orderedInsert_filter (List.pairwise_insertionSort ahead rest), ← inductionHypothesis, List.filter_cons]
    split
    next => rw [List.insertionSort_cons]
    next => rfl

end

/-- A window in front of the selection makes no difference where the first `batch` wanted entries lie in it. -/
theorem take_filter_take_iff {entries : List α} (nodup : entries.Nodup) (size batch : Nat) :
    ((entries.take size).filter wanted).take batch = (entries.filter wanted).take batch ↔
      ∀ entry ∈ (entries.filter wanted).take batch, entry ∈ entries.take size := by
  constructor
  · intro same entry listed
    rw [← same] at listed
    exact (List.mem_filter.mp (List.mem_of_mem_take listed)).1
  · intro inWindow
    induction entries generalizing size batch with
    | nil => simp
    | cons first rest inductionHypothesis =>
      obtain ⟨absent, nodup⟩ := List.nodup_cons.mp nodup
      cases size with
      | zero =>
        have none : ((first :: rest).filter wanted).take batch = [] := List.eq_nil_iff_forall_not_mem.mpr fun entry listed =>
          absurd (inWindow entry listed) (by simp)
        rw [none, List.take_zero, List.filter_nil, List.take_nil]
      | succ size =>
        -- What is left of the selection lies in what is left of the window.
        have behind {batch : Nat} (sub : ∀ entry ∈ (rest.filter wanted).take batch, entry ∈ (first :: rest).take (size + 1)) :
            ∀ entry ∈ (rest.filter wanted).take batch, entry ∈ rest.take size := by
          intro entry listed
          have inRest : entry ∈ rest := (List.mem_filter.mp (List.mem_of_mem_take listed)).1
          rcases List.mem_cons.mp (sub entry listed) with rfl | tail
          · exact absurd inRest absent
          · exact tail
        rw [List.take_succ_cons]
        by_cases isWanted : wanted first = true
        · rw [List.filter_cons_of_pos isWanted, List.filter_cons_of_pos isWanted]
          rw [List.filter_cons_of_pos isWanted] at inWindow
          cases batch with
          | zero => rfl
          | succ batch =>
            rw [List.take_succ_cons, List.take_succ_cons]
            refine congrArg (first :: ·) (inductionHypothesis nodup size batch (behind fun entry listed => inWindow entry ?_))
            rw [List.take_succ_cons]
            exact List.mem_cons_of_mem first listed
        · rw [List.filter_cons_of_neg isWanted, List.filter_cons_of_neg isWanted]
          rw [List.filter_cons_of_neg isWanted] at inWindow
          exact inductionHypothesis nodup size batch (behind inWindow)

section

variable {before : α → α → Prop} [DecidableRel before]

/-- In an order, an entry lies in the window when fewer entries than its size come before it. -/
theorem mem_take_iff {entries : List α} (asymmetric : ∀ first second, before first second → ¬ before second first)
    (ordered : entries.Pairwise before) {entry : α} (listed : entry ∈ entries) (size : Nat) :
    entry ∈ entries.take size ↔ (entries.filter fun other => before other entry).length < size := by
  induction entries generalizing size with
  | nil => cases listed
  | cons first rest inductionHypothesis =>
    obtain ⟨leads, ordered⟩ := List.pairwise_cons.mp ordered
    have irreflexive : ¬ before entry entry := fun self => asymmetric entry entry self self
    rcases List.mem_cons.mp listed with rfl | inRest
    · -- Nothing comes before the first entry.
      have none : ((entry :: rest).filter fun other => before other entry) = [] := by
        rw [List.filter_eq_nil_iff]
        intro other member
        rcases List.mem_cons.mp member with rfl | later
        · simpa using irreflexive
        · simpa using asymmetric _ _ (leads other later)
      rw [none]
      cases size <;> simp
    · have earlier := leads entry inRest
      rw [List.filter_cons_of_pos (by simpa using earlier), List.length_cons]
      cases size with
      | zero => simp
      | succ size =>
        rw [List.take_succ_cons, List.mem_cons, Nat.succ_lt_succ_iff, inductionHypothesis ordered inRest size]
        exact or_iff_right fun same => irreflexive (by rwa [← same] at earlier)

/-- The two together: which wanted entries a window hides. -/
theorem take_filter_take_iff_length {entries : List α} (asymmetric : ∀ first second, before first second → ¬ before second first)
    (ordered : entries.Pairwise before) (size batch : Nat) :
    ((entries.take size).filter wanted).take batch = (entries.filter wanted).take batch ↔
      ∀ entry ∈ (entries.filter wanted).take batch, (entries.filter fun other => before other entry).length < size := by
  have nodup : entries.Nodup := by
    refine ordered.imp fun {first second} leads same => ?_
    rw [same] at leads
    exact asymmetric second second leads leads
  rw [take_filter_take_iff nodup]
  refine forall₂_congr fun entry listed => ?_
  exact mem_take_iff asymmetric ordered (List.mem_filter.mp (List.mem_of_mem_take listed)).1 size

end

end Oveo.Lib
