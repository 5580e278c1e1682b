import Mathlib.Data.List.Sort
import Oveo.Lib.Fallible
import Oveo.Lib.Splice
import Oveo.Work.Apply

/-! # Replacements are made at once

`_apply_base_replacements` finds every anchor in the base, and succeeds exactly when each occurs once and
no two of them overlap.  Its result is the base with all the spans replaced at once. -/

namespace Oveo.Work

open Oveo.Lib Oveo.Docx Oveo.Protocol Oveo.Store

section

variable {base anchor text : Str} {pairs : List (Str × Str)} {label : AnchorLabel} {start : Nat}

/-! ## Occurrences -/

/-- The places where an anchor occurs, also where it overlaps itself. -/
def occurrences (anchor base : Str) : List Nat := (List.range (base.length + 1)).filter fun place => anchor.isPrefixOf (base.drop place)

theorem mem_occurrences {place : Nat} : place ∈ occurrences anchor base ↔ place ≤ base.length ∧ anchor <+: base.drop place := by
  rw [occurrences, List.mem_filter, List.mem_range, List.isPrefixOf_iff_prefix, Nat.lt_succ_iff]

theorem occurrences_nodup (anchor base : Str) : (occurrences anchor base).Nodup := List.nodup_range.filter _

theorem splitAtFirst_eq_none : splitAtFirst anchor text = none ↔ ∀ place, ¬ anchor <+: text.drop place := by
  induction text with
  | nil =>
    rw [splitAtFirst]
    cases anchor with
    | nil => simp
    | cons => simp
  | cons c text inductionHypothesis =>
    rw [splitAtFirst]
    split
    next here =>
      simp only [reduceCtorEq, false_iff, not_forall, not_not]
      exact ⟨0, List.isPrefixOf_iff_prefix.mp here⟩
    next notHere =>
      rw [Option.map_eq_none_iff, inductionHypothesis]
      constructor
      · intro nowhere place
        cases place with
        | zero => exact fun here => notHere (List.isPrefixOf_iff_prefix.mpr here)
        | succ place => exact nowhere place
      · exact fun nowhere place => nowhere (place + 1)

theorem splitAtFirst_eq_some {before after : Str} (found : splitAtFirst anchor text = some (before, after)) :
    before.length ≤ text.length ∧ anchor <+: text.drop before.length ∧ ∀ place < before.length, ¬ anchor <+: text.drop place := by
  induction text generalizing before with
  | nil =>
    rw [splitAtFirst] at found
    split at found
    next empty =>
      cases found
      rw [List.isEmpty_iff.mp empty]
      simp
    next => cases found
  | cons c text inductionHypothesis =>
    rw [splitAtFirst] at found
    split at found
    next here =>
      cases found
      exact ⟨Nat.zero_le _, List.isPrefixOf_iff_prefix.mp here, fun _ below => absurd below (Nat.not_lt_zero _)⟩
    next notHere =>
      obtain ⟨⟨rest, _⟩, isRest, same⟩ := Option.map_eq_some_iff.mp found
      cases same
      obtain ⟨inside, there, first⟩ := inductionHypothesis isRest
      refine ⟨Nat.succ_le_succ inside, there, fun place below => ?_⟩
      cases place with
      | zero => exact fun here => notHere (List.isPrefixOf_iff_prefix.mpr here)
      | succ place => exact first place (Nat.lt_of_succ_lt_succ below)

theorem find?_eq_map (anchor base : Str) (start : Nat) :
    find? anchor base start = (splitAtFirst anchor (base.drop start)).map fun parts => start + parts.1.length := rfl

/-- `find` gives the first occurrence from `start` on. -/
theorem find?_eq_some {place : Nat} (found : find? anchor base start = some place) (inside : start ≤ base.length) :
    start ≤ place ∧ place ∈ occurrences anchor base ∧ ∀ other ∈ occurrences anchor base, start ≤ other → place ≤ other := by
  rw [find?_eq_map] at found
  obtain ⟨⟨before, after⟩, isSplit, isPlace⟩ := Option.map_eq_some_iff.mp found
  simp only at isPlace
  subst isPlace
  obtain ⟨bound, there, first⟩ := splitAtFirst_eq_some isSplit
  rw [List.length_drop] at bound
  refine ⟨Nat.le_add_right _ _, mem_occurrences.mpr ⟨by omega, by rwa [List.drop_drop] at there⟩, fun other listed above => ?_⟩
  by_contra earlier
  refine first (other - start) (by omega) ?_
  rw [List.drop_drop, Nat.add_sub_cancel' above]
  exact (mem_occurrences.mp listed).2

theorem find?_eq_none (inside : start ≤ base.length) :
    find? anchor base start = none ↔ ∀ place ∈ occurrences anchor base, place < start := by
  rw [find?_eq_map, Option.map_eq_none_iff, splitAtFirst_eq_none]
  constructor
  · intro nowhere place listed
    by_contra above
    refine nowhere (place - start) ?_
    rw [List.drop_drop, Nat.add_sub_cancel' (by omega)]
    exact (mem_occurrences.mp listed).2
  · intro nowhere place there
    rw [List.drop_drop] at there
    by_cases within : start + place ≤ base.length
    · have := nowhere _ (mem_occurrences.mpr ⟨within, there⟩)
      omega
    · -- Behind the end only the empty anchor is found, and it occurs at the end, too.
      rw [List.drop_eq_nil_of_le (by omega), List.prefix_nil] at there
      have := nowhere base.length (mem_occurrences.mpr ⟨Nat.le_refl _, there ▸ List.nil_prefix⟩)
      omega

theorem occurrences_inside {place : Nat} (listed : place ∈ occurrences anchor base) : place + anchor.length ≤ base.length := by
  obtain ⟨inside, there⟩ := mem_occurrences.mp listed
  have := there.length_le
  rw [List.length_drop] at this
  omega

theorem occurrences_eq_singleton {place : Nat} :
    occurrences anchor base = [place] ↔ place ∈ occurrences anchor base ∧ ∀ other ∈ occurrences anchor base, other = place := by
  constructor
  · intro sole
    simp [sole]
  · rintro ⟨listed, sole⟩
    have repeated := List.eq_replicate_of_mem sole
    have once : (occurrences anchor base).length ≤ 1 := by
      by_contra more
      have nodup := occurrences_nodup anchor base
      rw [repeated, List.nodup_replicate] at nodup
      omega
    have some : 0 < (occurrences anchor base).length := List.length_pos_of_mem listed
    rw [repeated, show (occurrences anchor base).length = 1 by omega]
    rfl

/-! ## Spans -/

/-- `_replacement_span` finds the span of an anchor that occurs once. -/
theorem replacementSpan_eq_ok (nonempty : anchor ≠ []) {span : Nat × Nat} :
    replacementSpan base anchor label = .ok span ↔ ∃ place, occurrences anchor base = [place] ∧ span = (place, place + anchor.length) := by
  unfold replacementSpan
  split
  next missing =>
    rw [find?_eq_none (Nat.zero_le _)] at missing
    simp only [reduceCtorEq, false_iff, not_exists, not_and]
    intro place sole
    exact absurd (missing place (by simp [sole])) (Nat.not_lt_zero _)
  next first isFirst =>
    obtain ⟨-, listed, least⟩ := find?_eq_some isFirst (Nat.zero_le _)
    have inside := occurrences_inside listed
    have positive := List.length_pos_of_ne_nil nonempty
    rw [if_pos (show first + 1 ≤ base.length by omega)]
    split
    next second isSecond =>
      obtain ⟨later, again, -⟩ := find?_eq_some isSecond (by omega)
      simp only [reduceCtorEq, false_iff, not_exists, not_and]
      intro place sole
      rw [sole, List.mem_singleton] at listed again
      omega
    next none =>
      rw [find?_eq_none (by omega)] at none
      have sole : occurrences anchor base = [first] := occurrences_eq_singleton.mpr ⟨listed, fun other isOther => by
        have := none other isOther
        have := least other isOther (Nat.zero_le _)
        omega⟩
      simp [sole, eq_comm]

/-! ## Edits -/

/-- What replaces the span of an anchor that occurs once. -/
def spliceOf? (base : Str) (pair : Str × Str) : Option (Splice CodePoint) :=
  match occurrences pair.1 base with
  | [place] => some { start := place, stop := place + pair.1.length, replacement := pair.2 }
  | _ => none

theorem spliceOf?_eq_some {pair : Str × Str} {splice : Splice CodePoint} : spliceOf? base pair = some splice ↔
    ∃ place, occurrences pair.1 base = [place] ∧ splice = { start := place, stop := place + pair.1.length, replacement := pair.2 } := by
  unfold spliceOf?
  split
  next place sole => simp [sole, eq_comm]
  next notSole =>
    simp only [reduceCtorEq, false_iff, not_exists, not_and]
    exact fun place sole => absurd sole (notSole place)

/-- The base with the spans of all the anchors replaced at once. -/
def substituted (base : Str) (pairs : List (Str × Str)) : Str := Splice.simultaneous base (pairs.filterMap (spliceOf? base))

/-- No anchor is missing or ambiguous, and no two overlap. -/
structure Usable (base : Str) (pairs : List (Str × Str)) : Prop where
  found : ∀ pair ∈ pairs, occurrences pair.1 base ≠ []
  unambiguous : ∀ pair ∈ pairs, (occurrences pair.1 base).length ≤ 1
  apart : pairs.Pairwise fun pair other => ∀ place ∈ occurrences pair.1 base, ∀ otherPlace ∈ occurrences other.1 base,
    place + pair.1.length ≤ otherPlace ∨ otherPlace + other.1.length ≤ place

def Edit.splice (edit : Edit) : Splice CodePoint := { start := edit.start, stop := edit.stop, replacement := edit.replacement }

/-- The edits of the pairs. -/
theorem edits_eq_ok (nonempty : ∀ pair ∈ pairs, pair.1 ≠ []) {edits : List Edit} :
    (pairs.mapM fun pair : Str × Str => do
        let (start, stop) ← replacementSpan base pair.1 label
        return ({ start, stop, replacement := pair.2 } : Edit)) = .ok edits ↔
      List.Forall₂ (fun pair edit => spliceOf? base pair = some edit.splice) pairs edits := by
  rw [mapM_eq_ok]
  induction pairs generalizing edits with
  | nil => simp [List.forall₂_nil_left_iff]
  | cons pair pairs inductionHypothesis =>
    obtain ⟨isNonempty, nonempty⟩ := List.forall_mem_cons.mp nonempty
    rw [List.forall₂_cons_left_iff, List.forall₂_cons_left_iff]
    refine exists_congr fun edit => exists_congr fun rest => ?_
    rw [inductionHypothesis nonempty]
    refine and_congr_left fun _ => ?_
    simp only [ok_bind_iff, pure_eq_ok, Except.ok.injEq, Prod.exists, replacementSpan_eq_ok isNonempty, Prod.mk.injEq, spliceOf?_eq_some]
    obtain ⟨start, stop, replacement⟩ := edit
    constructor
    · rintro ⟨place, _, ⟨_, sole, rfl, rfl⟩, same⟩
      cases same
      exact ⟨_, sole, rfl⟩
    · rintro ⟨place, sole, same⟩
      simp only [Edit.splice, Splice.mk.injEq] at same
      obtain ⟨rfl, rfl, rfl⟩ := same
      exact ⟨_, _, ⟨_, sole, rfl, rfl⟩, rfl⟩

theorem ordered_of_hasOverlap {edits : List Edit} (nonempty : ∀ edit ∈ edits, edit.start < edit.stop) (clear : hasOverlap edits = false) :
    edits.Pairwise fun edit other => edit.stop ≤ other.start := by
  induction edits with
  | nil => exact .nil
  | cons first rest inductionHypothesis =>
    obtain ⟨-, nonempty⟩ := List.forall_mem_cons.mp nonempty
    cases rest with
    | nil => exact List.pairwise_singleton _ _
    | cons second rest =>
      simp only [hasOverlap, Bool.or_eq_false_iff, decide_eq_false_iff_not, Nat.not_lt] at clear
      have ordered := inductionHypothesis nonempty clear.2
      refine List.pairwise_cons.mpr ⟨List.forall_mem_cons.mpr ⟨clear.1, fun third member => ?_⟩, ordered⟩
      have := nonempty second List.mem_cons_self
      have := (List.pairwise_cons.mp ordered).1 third member
      omega

theorem hasOverlap_of_apart {edits : List Edit} (nonempty : ∀ edit ∈ edits, edit.start < edit.stop)
    (sorted : edits.Pairwise fun edit other => edit.start ≤ other.start) (apart : edits.Pairwise fun edit other => edit.splice.Apart other.splice) :
    hasOverlap edits = false := by
  induction edits with
  | nil => rfl
  | cons first rest inductionHypothesis =>
    obtain ⟨-, nonempty⟩ := List.forall_mem_cons.mp nonempty
    obtain ⟨isFirst, sorted⟩ := List.pairwise_cons.mp sorted
    obtain ⟨isApart, apart⟩ := List.pairwise_cons.mp apart
    cases rest with
    | nil => rfl
    | cons second rest =>
      rw [hasOverlap, inductionHypothesis nonempty sorted apart, Bool.or_false, decide_eq_false_iff_not, Nat.not_lt]
      have := nonempty second List.mem_cons_self
      have := isFirst second List.mem_cons_self
      have := isApart second List.mem_cons_self
      simp only [Splice.Apart, Edit.splice] at this
      omega

/-- The edits, in the order of their places. -/
def sortedEdits (edits : List Edit) : List Edit := edits.mergeSort fun left right => left.start ≤ right.start

theorem sortedEdits_perm (edits : List Edit) : (sortedEdits edits).Perm edits := List.mergeSort_perm _ _

theorem sortedEdits_sorted (edits : List Edit) : (sortedEdits edits).Pairwise fun edit other => edit.start ≤ other.start := by
  have sorted := @List.pairwise_mergeSort Edit (fun left right => decide (left.start ≤ right.start))
    (fun first second third early late => by
      simp only [decide_eq_true_eq] at early late ⊢
      exact Nat.le_trans early late)
    (fun first second => by simpa using Nat.le_total first.start second.start) edits
  exact sorted.imp fun le => by simpa using le

theorem hasOverlap_sortedEdits {edits : List Edit} (nonempty : ∀ edit ∈ edits, edit.start < edit.stop) :
    hasOverlap (sortedEdits edits) = false ↔ edits.Pairwise fun edit other => edit.splice.Apart other.splice := by
  have perm := sortedEdits_perm edits
  have sortedNonempty : ∀ edit ∈ sortedEdits edits, edit.start < edit.stop := fun edit member => nonempty edit (perm.mem_iff.mp member)
  have symmetric : Std.Symm fun edit other : Edit => edit.splice.Apart other.splice := ⟨fun _ _ => Or.symm⟩
  constructor
  · intro clear
    have ordered := ordered_of_hasOverlap sortedNonempty clear
    exact (perm.pairwise_iff fun {_ _} => Or.symm).mp (ordered.imp Or.inl)
  · intro apart
    exact hasOverlap_of_apart sortedNonempty (sortedEdits_sorted edits) ((perm.pairwise_iff fun {_ _} => Or.symm).mpr apart)

/-! ## The result -/

theorem forall₂_eq_some {α β : Type} {f : α → Option β} {first : List α} {second : List β} :
    List.Forall₂ (fun a b => f a = some b) first second ↔ (∀ a ∈ first, (f a).isSome = true) ∧ second = first.filterMap f := by
  induction first generalizing second with
  | nil => simp [List.forall₂_nil_left_iff]
  | cons a first inductionHypothesis =>
    rw [List.forall₂_cons_left_iff, List.forall_mem_cons]
    cases isSome : f a with
    | none => simp
    | some b =>
      simp only [Option.some.injEq, inductionHypothesis, List.filterMap_cons_some isSome, Option.isSome_some, true_and]
      constructor
      · rintro ⟨_, _, rfl, ⟨each, rfl⟩, rfl⟩
        exact ⟨each, rfl⟩
      · rintro ⟨each, rfl⟩
        exact ⟨_, _, rfl, ⟨each, rfl⟩, rfl⟩

theorem isSome_spliceOf? {pair : Str × Str} :
    (spliceOf? base pair).isSome = true ↔ occurrences pair.1 base ≠ [] ∧ (occurrences pair.1 base).length ≤ 1 := by
  unfold spliceOf?
  split
  next place sole => simp [sole]
  next notSole =>
    simp only [Option.isSome_none, Bool.false_eq_true, false_iff, not_and, Nat.not_le]
    intro some
    match isOccurrences : occurrences pair.1 base with
    | [] => exact absurd isOccurrences some
    | [place] => exact absurd isOccurrences (notSole place)
    | _ :: _ :: _ => simp

theorem usable_iff : Usable base pairs ↔
    (∀ pair ∈ pairs, (spliceOf? base pair).isSome = true) ∧ (pairs.filterMap (spliceOf? base)).Pairwise Splice.Apart := by
  have apart (pair other : Str × Str) (isOne : (spliceOf? base pair).isSome = true) (isOther : (spliceOf? base other).isSome = true) :
      (∀ splice, spliceOf? base pair = some splice → ∀ splice', spliceOf? base other = some splice' → splice.Apart splice') ↔
        ∀ place ∈ occurrences pair.1 base, ∀ otherPlace ∈ occurrences other.1 base,
          place + pair.1.length ≤ otherPlace ∨ otherPlace + other.1.length ≤ place := by
    obtain ⟨_, isSplice⟩ := Option.isSome_iff_exists.mp isOne
    obtain ⟨_, isSplice'⟩ := Option.isSome_iff_exists.mp isOther
    obtain ⟨place, sole, rfl⟩ := spliceOf?_eq_some.mp isSplice
    obtain ⟨otherPlace, otherSole, rfl⟩ := spliceOf?_eq_some.mp isSplice'
    rw [isSplice, isSplice', sole, otherSole]
    simp [Splice.Apart]
  rw [List.pairwise_filterMap]
  constructor
  · intro usable
    have each : ∀ pair ∈ pairs, (spliceOf? base pair).isSome = true :=
      fun pair member => isSome_spliceOf?.mpr ⟨usable.found pair member, usable.unambiguous pair member⟩
    exact ⟨each, usable.apart.imp_of_mem fun member otherMember => (apart _ _ (each _ member) (each _ otherMember)).mpr⟩
  · rintro ⟨each, disjoint⟩
    exact
      { found := fun pair member => (isSome_spliceOf?.mp (each pair member)).1
        unambiguous := fun pair member => (isSome_spliceOf?.mp (each pair member)).2
        apart := disjoint.imp_of_mem fun member otherMember => (apart _ _ (each _ member) (each _ otherMember)).mp }

theorem spliceOf?_within {pair : Str × Str} (nonempty : pair.1 ≠ []) {splice : Splice CodePoint}
    (isSplice : spliceOf? base pair = some splice) : splice.Within base := by
  obtain ⟨place, sole, rfl⟩ := spliceOf?_eq_some.mp isSplice
  have positive := List.length_pos_of_ne_nil nonempty
  exact ⟨Nat.lt_add_of_pos_right positive, occurrences_inside (by simp [sole])⟩

theorem foldl_rewrite (edits : List Edit) (text : Str) :
    edits.reverse.foldl (fun result edit => edit.rewrite result) text = (edits.map Edit.splice).foldr Splice.apply text := by
  rw [List.foldl_reverse, List.foldr_map]
  rfl

/-- Edits that do not overlap, made from the right, are made at once. -/
theorem foldl_sortedEdits {edits : List Edit} (within : ∀ splice ∈ edits.map Edit.splice, splice.Within base)
    (clear : hasOverlap (sortedEdits edits) = false) :
    (sortedEdits edits).reverse.foldl (fun result edit => edit.rewrite result) base = Splice.simultaneous base (edits.map Edit.splice) := by
  have nonempty : ∀ edit ∈ edits, edit.start < edit.stop := fun edit member => (within _ (List.mem_map_of_mem member)).nonempty
  have perm := (sortedEdits_perm edits).map Edit.splice
  have ordered : Splice.Ordered ((sortedEdits edits).map Edit.splice) :=
    List.pairwise_map.mpr (ordered_of_hasOverlap (fun edit member => nonempty edit ((sortedEdits_perm edits).mem_iff.mp member)) clear)
  have sortedWithin : ∀ splice ∈ (sortedEdits edits).map Edit.splice, splice.Within base :=
    fun splice member => within splice (perm.mem_iff.mp member)
  rw [foldl_rewrite, Splice.foldr_apply ordered sortedWithin]
  exact Splice.simultaneous_perm perm (ordered.imp Or.inl) sortedWithin

theorem applyBaseReplacements_eq_ok (nonempty : ∀ pair ∈ pairs, pair.1 ≠ []) {result : Str} :
    applyBaseReplacements base pairs label = .ok result ↔ Usable base pairs ∧ result = substituted base pairs := by
  have relate (edits : List Edit) : List.Forall₂ (fun pair edit => spliceOf? base pair = some edit.splice) pairs edits ↔
      (∀ pair ∈ pairs, (spliceOf? base pair).isSome = true) ∧ edits.map Edit.splice = pairs.filterMap (spliceOf? base) := by
    rw [← forall₂_eq_some, List.forall₂_map_right_iff]
  have within : ∀ splice ∈ pairs.filterMap (spliceOf? base), splice.Within base := by
    intro splice member
    obtain ⟨pair, isPair, isSplice⟩ := List.mem_filterMap.mp member
    exact spliceOf?_within (nonempty pair isPair) isSplice
  have clear (edits : List Edit) (same : edits.map Edit.splice = pairs.filterMap (spliceOf? base)) :
      hasOverlap (sortedEdits edits) = false ↔ (pairs.filterMap (spliceOf? base)).Pairwise Splice.Apart := by
    rw [hasOverlap_sortedEdits fun edit member => (within _ (same ▸ List.mem_map_of_mem member)).nonempty, ← same, List.pairwise_map]
  rw [usable_iff]
  constructor
  · intro applied
    obtain ⟨edits, isEdits, rest⟩ := ok_bind_iff.mp applied
    obtain ⟨each, same⟩ := (relate edits).mp ((edits_eq_ok nonempty).mp isEdits)
    simp only [throw_bind, ite_error_eq_ok, pure_eq_ok, Except.ok.injEq, Bool.not_eq_true] at rest
    obtain ⟨isClear, rfl⟩ := rest
    exact ⟨⟨each, (clear edits same).mp isClear⟩, by rw [substituted, ← same]; exact foldl_sortedEdits (same ▸ within) isClear⟩
  · rintro ⟨⟨each, apart⟩, rfl⟩
    obtain ⟨edits, same⟩ : ∃ edits : List Edit, edits.map Edit.splice = pairs.filterMap (spliceOf? base) :=
      ⟨(pairs.filterMap (spliceOf? base)).map fun splice => { start := splice.start, stop := splice.stop, replacement := splice.replacement },
        by rw [List.map_map]; exact List.map_id _⟩
    have isClear := (clear edits same).mpr apart
    refine ok_bind_iff.mpr ⟨edits, (edits_eq_ok nonempty).mpr ((relate edits).mpr ⟨each, same⟩), ?_⟩
    simp only [throw_bind, ite_error_eq_ok, pure_eq_ok, Except.ok.injEq, Bool.not_eq_true]
    exact ⟨isClear, by rw [substituted, ← same]; exact foldl_sortedEdits (same ▸ within) isClear⟩

theorem Usable.perm {others : List (Str × Str)} (perm : pairs.Perm others) (usable : Usable base pairs) : Usable base others where
  found pair member := usable.found pair (perm.mem_iff.mpr member)
  unambiguous pair member := usable.unambiguous pair (perm.mem_iff.mpr member)
  apart := (perm.pairwise_iff fun {_ _} apart place listed otherPlace otherListed =>
    (apart otherPlace otherListed place listed).symm).mp usable.apart

theorem substituted_perm {others : List (Str × Str)} (nonempty : ∀ pair ∈ pairs, pair.1 ≠ []) (perm : pairs.Perm others)
    (usable : Usable base pairs) : substituted base pairs = substituted base others := by
  refine Splice.simultaneous_perm (perm.filterMap _) (usable_iff.mp usable).2 fun splice member => ?_
  obtain ⟨pair, isPair, isSplice⟩ := List.mem_filterMap.mp member
  exact spliceOf?_within (nonempty pair isPair) isSplice

/-- `_apply_base_replacements` raises exactly when an anchor is missing, ambiguous or overlaps another one;
otherwise it replaces all spans at once, whatever their order in the list is. -/
theorem base_replacements_simultaneous (base : Str) (pairs : List (Str × Str)) (label : AnchorLabel)
    (nonempty : ∀ pair ∈ pairs, pair.1 ≠ []) :
    ((∃ code, applyBaseReplacements base pairs label = .error code) ↔ ¬ Usable base pairs) ∧
      (Usable base pairs → applyBaseReplacements base pairs label = .ok (substituted base pairs)) ∧
      ∀ others, pairs.Perm others →
        (applyBaseReplacements base others label).toOption = (applyBaseReplacements base pairs label).toOption := by
  have succeeds {pairs : List (Str × Str)} (nonempty : ∀ pair ∈ pairs, pair.1 ≠ []) (usable : Usable base pairs) :
      applyBaseReplacements base pairs label = .ok (substituted base pairs) := (applyBaseReplacements_eq_ok nonempty).mpr ⟨usable, rfl⟩
  have fails {pairs : List (Str × Str)} (nonempty : ∀ pair ∈ pairs, pair.1 ≠ []) (unusable : ¬ Usable base pairs) :
      ∃ code, applyBaseReplacements base pairs label = .error code := by
    cases applied : applyBaseReplacements base pairs label with
    | error code => exact ⟨code, rfl⟩
    | ok result => exact absurd ((applyBaseReplacements_eq_ok nonempty).mp applied).1 unusable
  refine ⟨⟨?_, fails nonempty⟩, succeeds nonempty, fun others perm => ?_⟩
  · rintro ⟨code, failed⟩ usable
    cases (succeeds nonempty usable).symm.trans failed
  · have othersNonempty : ∀ pair ∈ others, pair.1 ≠ [] := fun pair member => nonempty pair (perm.mem_iff.mpr member)
    by_cases usable : Usable base pairs
    · rw [succeeds nonempty usable, succeeds othersNonempty (usable.perm perm), substituted_perm nonempty perm usable]
    · obtain ⟨code, failed⟩ := fails nonempty usable
      obtain ⟨code', failed'⟩ := fails othersNonempty fun usable' => usable (usable'.perm perm.symm)
      rw [failed, failed']
      rfl

/-- Each replacement is the other one's anchor. -/
theorem base_replacements_simultaneous_swap :
    applyBaseReplacements (str "ab") [(str "b", str "a"), (str "a", str "b")] .output = .ok (str "ba") := by
  have usable : Usable (str "ab") [(str "b", str "a"), (str "a", str "b")] :=
    { found := by decide, unambiguous := by decide, apart := by decide }
  exact (base_replacements_simultaneous (str "ab") [(str "b", str "a"), (str "a", str "b")] .output (by decide)).2.1 usable

end

end Oveo.Work
