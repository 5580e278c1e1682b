import Oveo.Docx.Blocks
import Oveo.Lib.Fallible
import Mathlib.Data.List.Nodup

/-! # What the block map validators accept

A stored map carries consecutive block and link ids, so no id occurs twice; a replacement map
carries the block ids and the link ids of its template, in order. -/

namespace Oveo.Docx

open Oveo.Lib

/-! ## Identifiers -/

theorem blockId_injective : Function.Injective blockId := fun _ _ equal =>
  pad6_injective (List.cons.inj equal).2

theorem linkId_injective : Function.Injective linkId := fun _ _ equal =>
  pad6_injective (List.cons.inj equal).2

theorem nodup_blockIds (first count : Nat) : ((List.range' first count).map blockId).Nodup :=
  List.Nodup.map blockId_injective List.nodup_range'

theorem nodup_linkIds (first count : Nat) : ((List.range' first count).map linkId).Nodup :=
  List.Nodup.map linkId_injective List.nodup_range'

/-- The link ids of the texts of a block map, in order. -/
def linkIdsOf : List Str → Except DocxError (List Str)
  | [] => .ok []
  | text :: texts => do
    let (_, links) ← linkParts text
    let ids ← linkIdsOf texts
    return links.map Prod.fst ++ ids

/-! ## Stored maps -/

theorem storedLinks_ok {first next : Nat} {links : List (Str × Str)} (numbered : storedLinks first links = .ok next) :
    next = first + links.length ∧ links.map Prod.fst = (List.range' first links.length).map linkId := by
  induction links generalizing first with
  | nil =>
    cases numbered
    simp
  | cons link links inductionHypothesis =>
    simp only [storedLinks, ite_error_eq_ok, bne_iff_ne, ne_eq, not_not] at numbered
    obtain ⟨sameId, rest⟩ := numbered
    obtain ⟨nextEq, ids⟩ := inductionHypothesis rest
    refine ⟨by simp only [nextEq, List.length_cons]; omega, ?_⟩
    simp [sameId, ids, List.range'_succ]

/-- One accepted stored block: its own id, and links numbered from `first`. -/
theorem storedBlock_ok {blockNumber first next : Nat} {value : Json} {block : DocxBlock}
    (stored : storedBlock blockNumber first value = .ok (block, next)) :
    block.id = blockId blockNumber ∧ ∃ plains links, linkParts block.text = .ok (plains, links) ∧
      storedLinks first links = .ok next := by
  unfold storedBlock at stored
  split at stored
  next members =>
    split at stored
    next =>
      split at stored
      next id kind text _ _ _ =>
        split at stored
        next valid =>
          simp only [ok_bind_iff, pure_eq_ok, Except.ok.injEq, Prod.mk.injEq, Prod.exists] at stored
          obtain ⟨plains, links, parts, number, numbered, rfl, rfl⟩ := stored
          simp only [Bool.and_eq_true, beq_iff_eq] at valid
          exact ⟨valid.1.1, plains, links, parts, numbered⟩
        next => cases stored
      next => cases stored
    next => cases stored
  next => cases stored

theorem storedBlocks_ok {blockNumber first : Nat} {values : List Json} {blocks : List DocxBlock}
    (stored : storedBlocks blockNumber first values = .ok blocks) :
    blocks.map DocxBlock.id = (List.range' blockNumber blocks.length).map blockId ∧
      ∃ count, linkIdsOf (blocks.map DocxBlock.text) = .ok ((List.range' first count).map linkId) := by
  induction values generalizing blockNumber first blocks with
  | nil =>
    cases stored
    exact ⟨rfl, 0, rfl⟩
  | cons value values inductionHypothesis =>
    simp only [storedBlocks, ok_bind_iff, pure_eq_ok, Except.ok.injEq, Prod.exists] at stored
    obtain ⟨block, next, head, rest, tail, rfl⟩ := stored
    obtain ⟨sameId, plains, links, parts, numbered⟩ := storedBlock_ok head
    obtain ⟨ids, count, linkIds⟩ := inductionHypothesis tail
    obtain ⟨rfl, firstIds⟩ := storedLinks_ok numbered
    refine ⟨by simp [sameId, ids, List.range'_succ], links.length + count, ?_⟩
    simp only [List.map_cons, linkIdsOf, parts, ok_bind_eq, linkIds, pure_eq_ok, firstIds, Except.ok.injEq]
    rw [← List.map_append, List.range'_append_1]

theorem docxBlocksFromStorage_ok {stored : Json} {blocks : List DocxBlock}
    (restored : docxBlocksFromStorage stored = .ok blocks) :
    (blocks.map DocxBlock.id).Nodup ∧
      ∃ ids, linkIdsOf (blocks.map DocxBlock.text) = .ok ids ∧ ids.Nodup := by
  unfold docxBlocksFromStorage at restored
  split at restored
  next values =>
    simp only [ite_error_eq_ok] at restored
    obtain ⟨ids, count, linkIds⟩ := storedBlocks_ok restored.2
    exact ⟨ids ▸ nodup_blockIds 1 _, _, linkIds, nodup_linkIds 1 count⟩
  next => cases restored

/-! ## Replacement maps -/

theorem validateReplacement_ok {expected : DocxBlock} {replacement validated : DocxReplacement}
    (accepted : validateReplacement expected (.replacement replacement) = .ok validated) :
    validated = replacement ∧ replacement.id = expected.id ∧
      ∃ plains links plains' links', linkParts expected.text = .ok (plains, links) ∧
        linkParts replacement.text = .ok (plains', links') ∧ links'.map Prod.fst = links.map Prod.fst := by
  simp only [validateReplacement, ReplacementCandidate.toReplacement, ok_bind_eq, throw_bind, ite_error_eq_ok,
    ok_bind_iff, pure_eq_ok, Except.ok.injEq, Prod.exists] at accepted
  obtain ⟨sameId, -, plains, links, expectedParts, plains', links', actualParts, kept, rfl⟩ := accepted
  simp only [Bool.or_eq_true, Bool.not_eq_true', bne_iff_ne, ne_eq, not_or, not_not] at sameId
  simp only [linksKept, Bool.not_eq_true', Bool.not_eq_false, Bool.and_eq_true, beq_iff_eq] at kept
  exact ⟨rfl, sameId.2, plains, links, plains', links', expectedParts, actualParts, kept.1.1.2⟩

theorem validateEach_ok {template : List DocxBlock} {replacements validated : List DocxReplacement}
    (sameLength : replacements.length = template.length)
    (accepted : validateEach template (replacements.map .replacement) = .ok validated) :
    validated = replacements ∧ replacements.map DocxReplacement.id = template.map DocxBlock.id ∧
      ∃ ids, linkIdsOf (template.map DocxBlock.text) = .ok ids ∧
        linkIdsOf (replacements.map DocxReplacement.text) = .ok ids := by
  induction template generalizing replacements validated with
  | nil =>
    obtain rfl := List.length_eq_zero_iff.mp sameLength
    cases accepted
    exact ⟨rfl, rfl, [], rfl, rfl⟩
  | cons expected template inductionHypothesis =>
    obtain ⟨replacement, replacements, rfl⟩ := List.exists_cons_of_length_eq_add_one sameLength
    simp only [List.map_cons, validateEach, ok_bind_iff, pure_eq_ok, Except.ok.injEq] at accepted
    obtain ⟨head, accepted, tail, rest, rfl⟩ := accepted
    obtain ⟨rfl, sameId, plains, links, plains', links', parts, parts', sameIds⟩ := validateReplacement_ok accepted
    obtain ⟨rfl, restIds, ids, templateIds, ownIds⟩ :=
      inductionHypothesis (by simpa using sameLength) rest
    refine ⟨rfl, by simp [sameId, restIds], links.map Prod.fst ++ ids, ?_, ?_⟩
    · simp [linkIdsOf, parts, templateIds, ok_bind_eq]
    · simp [linkIdsOf, parts', ownIds, sameIds, ok_bind_eq]

/-- An accepted replacement map has the template's block ids and link ids, and its plain text is
that of its own blocks. -/
theorem plainTextFromReplacements_ok {template : List DocxBlock} {replacements : List DocxReplacement} {text : Str}
    (accepted : plainTextFromReplacements template (replacements.map .replacement) = .ok text) :
    replacements.map DocxReplacement.id = template.map DocxBlock.id ∧
      (∃ ids, linkIdsOf (template.map DocxBlock.text) = .ok ids ∧
        linkIdsOf (replacements.map DocxReplacement.text) = .ok ids) ∧
      plainTextFromValidated replacements = .ok text := by
  simp only [plainTextFromReplacements, ok_bind_iff] at accepted
  obtain ⟨validated, accepted, plain⟩ := accepted
  simp only [validateReplacements, ite_error_eq_ok, List.length_map, bne_iff_ne, ne_eq, not_not] at accepted
  obtain ⟨rfl, ids, linkIds⟩ := validateEach_ok accepted.1 accepted.2
  exact ⟨ids, linkIds, plain⟩

theorem requireMatchingBlocks_ok {blocks : List DocxBlock} {stored : Json}
    (matching : requireMatchingBlocks blocks stored = .ok ()) : docxBlocksFromStorage stored = .ok blocks := by
  unfold requireMatchingBlocks at matching
  split at matching
  next restored found =>
    split at matching
    next same => rw [found, same]
    next => cases matching
  next => cases matching

end Oveo.Docx
