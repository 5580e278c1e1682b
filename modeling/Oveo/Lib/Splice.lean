import Mathlib.Data.List.Basic
import Mathlib.Data.List.Pairwise

/-! # Splices

Replacing several spans of a list at once: what stands at each place afterwards depends on that place
alone, and rewriting disjoint spans one after the other from the right gives the same list. -/

namespace Oveo.Lib

universe u

/-- A span of a list and what replaces it. -/
structure Splice (α : Type u) where
  start : Nat
  stop : Nat
  replacement : List α

namespace Splice

variable {α : Type u} {text : List α} {splice other : Splice α} {splices others : List (Splice α)} {place : Nat}

def apply (splice : Splice α) (text : List α) : List α := text.take splice.start ++ splice.replacement ++ text.drop splice.stop

def covers (splice : Splice α) (place : Nat) : Bool := splice.start < place && place < splice.stop

/-- What stands for one place of the text when all spans are replaced at once. -/
def pieceAt (text : List α) (splices : List (Splice α)) (place : Nat) : List α :=
  match splices.find? fun splice => splice.start == place with
  | some splice => splice.replacement
  | none => if splices.any fun splice => splice.covers place then [] else text[place]?.toList

def simultaneous (text : List α) (splices : List (Splice α)) : List α := (List.range text.length).flatMap (pieceAt text splices)

/-- A span that is not empty and lies in the text. -/
structure Within (text : List α) (splice : Splice α) : Prop where
  nonempty : splice.start < splice.stop
  inside : splice.stop ≤ text.length

def Apart (splice other : Splice α) : Prop := splice.stop ≤ other.start ∨ other.stop ≤ splice.start

/-! ## Pieces -/

theorem find?_start_eq_none : (splices.find? fun splice => splice.start == place) = none ↔ ∀ splice ∈ splices, splice.start ≠ place := by
  simp

theorem pieceAt_of_clear (clear : ∀ splice ∈ splices, splice.stop ≤ place ∨ place < splice.start)
    (within : ∀ splice ∈ splices, splice.Within text) : pieceAt text splices place = text[place]?.toList := by
  have noStart : ∀ splice ∈ splices, splice.start ≠ place := by
    intro splice member same
    have := (within splice member).nonempty
    have := clear splice member
    omega
  have noCover : splices.any (fun splice => splice.covers place) = false := by
    refine List.any_eq_false.mpr fun splice member => ?_
    have := clear splice member
    simp only [covers, Bool.and_eq_true, decide_eq_true_eq, not_and]
    omega
  rw [pieceAt, find?_start_eq_none.mpr noStart, noCover]
  rfl

/-- A splice that does not reach a place says nothing about it. -/
theorem pieceAt_cons_of_clear (clear : splice.stop ≤ place ∨ place < splice.start) (nonempty : splice.start < splice.stop) :
    pieceAt text (splice :: splices) place = pieceAt text splices place := by
  have notStart : (splice.start == place) = false := by
    rw [beq_eq_false_iff_ne]
    omega
  have notCovered : splice.covers place = false := by
    rw [covers, Bool.and_eq_false_iff, decide_eq_false_iff_not, decide_eq_false_iff_not]
    omega
  rw [pieceAt, pieceAt, List.find?_cons_of_neg (by simp [notStart]), List.any_cons, notCovered, Bool.false_or]

theorem pieceAt_cons_start : pieceAt text (splice :: splices) splice.start = splice.replacement := by
  rw [pieceAt, List.find?_cons_of_pos (by simp)]

theorem pieceAt_cons_covered (covered : splice.covers place = true) (after : ∀ other ∈ splices, splice.stop ≤ other.start) :
    pieceAt text (splice :: splices) place = [] := by
  have bounds : splice.start < place ∧ place < splice.stop := by simpa [covers] using covered
  have noStart : ∀ other ∈ splice :: splices, other.start ≠ place := by
    refine List.forall_mem_cons.mpr ⟨by omega, fun other member => ?_⟩
    have := after other member
    omega
  rw [pieceAt, find?_start_eq_none.mpr noStart, List.any_cons, covered]
  rfl

/-! ## From the right -/

/-- The pieces of a stretch of the text. -/
def pieces (text : List α) (splices : List (Splice α)) (start stop : Nat) : List α :=
  (List.range' start (stop - start)).flatMap (pieceAt text splices)

theorem pieces_append {start middle stop : Nat} (early : start ≤ middle) (late : middle ≤ stop) :
    pieces text splices start stop = pieces text splices start middle ++ pieces text splices middle stop := by
  have split : List.range' start (stop - start) = List.range' start (middle - start) ++ List.range' middle (stop - middle) := by
    have sum : stop - start = middle - start + (stop - middle) := by omega
    have next : start + 1 * (middle - start) = middle := by omega
    rw [sum, ← List.range'_append, next]
  rw [pieces, split, List.flatMap_append]
  rfl

theorem pieces_congr {start stop : Nat} (same : ∀ place, start ≤ place → place < stop → pieceAt text splices place = pieceAt text others place) :
    pieces text splices start stop = pieces text others start stop := by
  refine List.flatMap_congr fun place listed => ?_
  obtain ⟨above, below⟩ := List.mem_range'_1.mp listed
  exact same place above (by omega)

theorem pieces_nil (start stop : Nat) (inside : stop ≤ text.length) : pieces text [] start stop = (text.take stop).drop start := by
  induction stop with
  | zero => simp [pieces]
  | succ stop inductionHypothesis =>
    by_cases below : start ≤ stop
    · have last : pieces text [] stop (stop + 1) = text[stop]?.toList := by simp [pieces, pieceAt]
      rw [pieces_append below (Nat.le_succ stop), inductionHypothesis (by omega), last, List.take_add_one,
        List.drop_append_of_le_length (by rw [List.length_take]; omega)]
    · rw [pieces, Nat.sub_eq_zero_of_le (by omega), List.drop_eq_nil_of_le (by rw [List.length_take]; omega)]
      rfl

/-- Spans in the order of their places. -/
def Ordered (splices : List (Splice α)) : Prop := splices.Pairwise fun splice other => splice.stop ≤ other.start

theorem foldr_apply_eq (ordered : Ordered splices) (within : ∀ splice ∈ splices, splice.Within text) {before : Nat}
    (after : ∀ splice ∈ splices, before ≤ splice.start) (inside : before ≤ text.length) :
    splices.foldr apply text = text.take before ++ pieces text splices before text.length := by
  induction splices generalizing before with
  | nil => rw [List.foldr_nil, pieces_nil before text.length (Nat.le_refl _), List.take_length, List.take_append_drop]
  | cons splice splices inductionHypothesis =>
    obtain ⟨apart, ordered⟩ := List.pairwise_cons.mp ordered
    obtain ⟨isWithin, within⟩ := List.forall_mem_cons.mp within
    obtain ⟨isAfter, after⟩ := List.forall_mem_cons.mp after
    have nonempty := isWithin.nonempty
    have stopInside := isWithin.inside
    rw [List.foldr_cons, inductionHypothesis ordered within apart stopInside, apply,
      List.take_append_of_le_length (by rw [List.length_take]; omega), List.take_take, Nat.min_eq_left (by omega),
      List.drop_left' (by rw [List.length_take]; omega)]
    -- Up to the span the text stays, in it only the replacement stands, behind it the other splices count.
    have early : pieces text (splice :: splices) before splice.start = (text.take splice.start).drop before := by
      rw [← pieces_nil before splice.start (by omega)]
      refine pieces_congr fun place _ below => ?_
      rw [pieceAt_cons_of_clear (.inr below) nonempty, pieceAt_of_clear (fun other member => ?_) within]
      · rfl
      · have := apart other member
        omega
    have middle : pieces text (splice :: splices) splice.start splice.stop = splice.replacement := by
      have first : pieces text (splice :: splices) splice.start (splice.start + 1) = splice.replacement := by
        simp [pieces, pieceAt_cons_start]
      have rest : pieces text (splice :: splices) (splice.start + 1) splice.stop = [] := by
        refine List.flatMap_eq_nil_iff.mpr fun place listed => ?_
        obtain ⟨above, below⟩ := List.mem_range'_1.mp listed
        refine pieceAt_cons_covered ?_ apart
        simp only [covers, Bool.and_eq_true, decide_eq_true_eq]
        omega
      rw [pieces_append (Nat.le_succ _) nonempty, first, rest, List.append_nil]
    have late : pieces text (splice :: splices) splice.stop text.length = pieces text splices splice.stop text.length :=
      pieces_congr fun place above _ => pieceAt_cons_of_clear (.inl above) nonempty
    rw [pieces_append isAfter (show splice.start ≤ text.length by omega), early,
      pieces_append (Nat.le_of_lt nonempty) stopInside, middle, late]
    have taken : text.take before ++ (text.take splice.start).drop before = text.take splice.start := by
      have upTo : text.take before = (text.take splice.start).take before := by
        rw [List.take_take, Nat.min_eq_left isAfter]
      rw [upTo, List.take_append_drop]
    rw [← List.append_assoc, taken, List.append_assoc]

theorem foldr_apply (ordered : Ordered splices) (within : ∀ splice ∈ splices, splice.Within text) :
    splices.foldr apply text = simultaneous text splices := by
  rw [foldr_apply_eq ordered within (fun _ _ => Nat.zero_le _) (Nat.zero_le _), List.take_zero, List.nil_append, simultaneous, pieces,
    List.range_eq_range', Nat.sub_zero]

/-! ## Order -/

theorem start_inj (apart : splices.Pairwise Apart) (within : ∀ splice ∈ splices, splice.Within text) (member : splice ∈ splices)
    (otherMember : other ∈ splices) (same : splice.start = other.start) : splice = other := by
  by_contra different
  have symmetric : Std.Symm (Apart : Splice α → Splice α → Prop) := ⟨fun _ _ => Or.symm⟩
  have first := (within splice member).nonempty
  have second := (within other otherMember).nonempty
  have disjoint : Apart splice other := apart.forall member otherMember different
  unfold Apart at disjoint
  omega

/-- The order of the splices does not matter. -/
theorem simultaneous_perm (perm : splices.Perm others) (apart : splices.Pairwise Apart)
    (within : ∀ splice ∈ splices, splice.Within text) : simultaneous text splices = simultaneous text others := by
  refine List.flatMap_congr fun place _ => ?_
  have covered : (splices.any fun splice => splice.covers place) = others.any fun splice => splice.covers place := by
    rw [Bool.eq_iff_iff, List.any_eq_true, List.any_eq_true]
    simp only [perm.mem_iff]
  have found : (splices.find? fun splice => splice.start == place) = others.find? fun splice => splice.start == place := by
    cases isFound : others.find? fun splice => splice.start == place with
    | none =>
      rw [find?_start_eq_none] at isFound ⊢
      exact fun splice member => isFound splice (perm.mem_iff.mp member)
    | some splice =>
      have member := perm.mem_iff.mpr (List.mem_of_find?_eq_some isFound)
      have starts : splice.start = place := by simpa using List.find?_some isFound
      have isThere : (splices.find? fun splice => splice.start == place).isSome = true :=
        List.find?_isSome.mpr ⟨splice, member, by simpa using starts⟩
      obtain ⟨other, isOther⟩ := Option.isSome_iff_exists.mp isThere
      have otherStarts : other.start = place := by simpa using List.find?_some isOther
      rw [isOther, start_inj apart within (List.mem_of_find?_eq_some isOther) member (otherStarts.trans starts.symm)]
  rw [pieceAt, pieceAt, found, covered]

end Splice

end Oveo.Lib
