import Mathlib.Algebra.BigOperators.Group.List.Basic
import Mathlib.Algebra.GroupWithZero.Nat
import Mathlib.Algebra.Order.Group.Nat

/-! # Totals over a list

The sum of a weight over a list whose entries change one at a time.  A quantity that moves
between an entry and the rest of a state is conserved as soon as `total_set` balances. -/

namespace Oveo.Lib

universe u

variable {α : Type u} {weight other : α → Nat} {entries : List α} {index : Nat} {old new : α}

def total (weight : α → Nat) (entries : List α) : Nat := (entries.map weight).sum

@[simp] theorem total_nil : total weight [] = 0 := rfl

@[simp] theorem total_cons (entry : α) : total weight (entry :: entries) = weight entry + total weight entries := by
  simp [total]

@[simp] theorem total_append (more : List α) :
    total weight (entries ++ more) = total weight entries + total weight more := by
  simp [total]

theorem total_set (weight : α → Nat) (new : α) (found : entries[index]? = some old) :
    total weight (entries.set index new) + weight old = total weight entries + weight new := by
  induction entries generalizing index with
  | nil => cases found
  | cons entry entries inductionHypothesis =>
    cases index with
    | zero =>
      simp only [List.getElem?_cons_zero, Option.some.injEq] at found
      subst found
      simp only [List.set_cons_zero, total_cons]
      omega
    | succ index =>
      have rest := @inductionHypothesis index (by simpa using found)
      simp only [List.set_cons_succ, total_cons]
      omega

theorem weight_le_total (weight : α → Nat) (found : entries[index]? = some old) : weight old ≤ total weight entries := by
  induction entries generalizing index with
  | nil => cases found
  | cons entry entries inductionHypothesis =>
    cases index with
    | zero =>
      have same : entry = old := by simpa using found
      simp [same]
    | succ index =>
      have rest := @inductionHypothesis index (by simpa using found)
      simp only [total_cons]
      omega

/-- Where one entry has all the weight, the others have none. -/
theorem eq_or_weight_zero (found : entries[index]? = some old) (sole : total weight entries ≤ weight old) {entry : α}
    (member : entry ∈ entries.set index new) : entry = new ∨ weight entry = 0 := by
  induction entries generalizing index with
  | nil => cases found
  | cons first rest inductionHypothesis =>
    simp only [total_cons] at sole
    cases index with
    | zero =>
      have same : first = old := by simpa using found
      rcases List.mem_cons.mp member with changed | kept
      · exact .inl changed
      · obtain ⟨place, isThere⟩ := List.getElem?_of_mem kept
        have part := weight_le_total weight isThere
        rw [same] at sole
        exact .inr (by omega)
    | succ index =>
      have found : rest[index]? = some old := by simpa using found
      have part := weight_le_total weight found
      rcases List.mem_cons.mp member with isFirst | kept
      · exact .inr (by rw [isFirst]; omega)
      · exact inductionHypothesis found (by omega) kept

theorem total_le_total (le : ∀ entry ∈ entries, weight entry ≤ other entry) :
    total weight entries ≤ total other entries := by
  induction entries with
  | nil => exact Nat.le_refl _
  | cons entry entries inductionHypothesis =>
    have rest := inductionHypothesis fun entry member => le entry (List.mem_cons_of_mem _ member)
    have first := le entry List.mem_cons_self
    simp only [total_cons]
    omega

theorem total_eq_zero (zero : ∀ entry ∈ entries, weight entry = 0) : total weight entries = 0 := by
  have bound : total weight entries ≤ total (fun _ => 0) entries := total_le_total fun entry member => Nat.le_of_eq (zero entry member)
  have none : total (fun _ : α => 0) entries = 0 := by simp [total]
  omega

/-- Where the total is positive some entry has weight. -/
theorem exists_of_total_pos (weight : α → Nat) (pos : 0 < total weight entries) : ∃ (index : Nat) (entry : α), entries[index]? = some entry ∧ 0 < weight entry := by
  by_contra none
  have zero : total weight entries = 0 := by
    refine total_eq_zero fun entry member => ?_
    obtain ⟨index, found⟩ := List.getElem?_of_mem member
    by_contra weighs
    exact none ⟨index, entry, found, by omega⟩
  omega

end Oveo.Lib
