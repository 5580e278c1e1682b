import Mathlib.Data.List.Forall2
import Oveo.Protocol.Decoder

/-! # Content blocks and stored documents

Which block sequences `validate_content_blocks` accepts, said once for the decoder, which hands
it blocks, and for `validate_stored_document`, which hands it the mappings a document was stored
as. -/

namespace Oveo.Protocol

open Oveo.Lib Oveo.Docx

/-- `validate_stored_document`. -/
def validateStoredDocument (value : Members) : Except ProtocolCode ProtocolDocument := do
  requireExactKeys value [str "version", str "blocks"]
  if !isVersionOne (Json.get? value (str "version")) then throw .unsupportedVersion
  match Json.get? value (str "blocks") with
  | some (.arr rawBlocks) =>
    let mappings ← storedMappings rawBlocks
    let blocks ← validateContentBlocks mappings defaultMaxBlocks defaultMaxTextChars
    return { blocks, state := .none }
  | _ => throw .invalidBlocks

/-- The kinds of a response: one conversation, or deliverables and then at most one advice. -/
inductive KindOrder : List BlockType → Prop where
  | conversation : KindOrder [.conversation]
  | deliverables (more : Nat) : KindOrder (.deliverable :: List.replicate more .deliverable)
  | advised (more : Nat) : KindOrder (.deliverable :: List.replicate more .deliverable ++ [.advice])

/-- The blocks of a complete response. -/
structure ValidBlocks (maxBlocks maxTextChars : Nat) (blocks : List ContentBlock) : Prop where
  few : blocks.length ≤ maxBlocks
  filled : ∀ block ∈ blocks, isBlank block.text = false
  size : (blocks.map fun block => block.text.length).sum ≤ maxTextChars
  kinds : KindOrder (blocks.map ContentBlock.type)

theorem ValidBlocks.nonempty {maxBlocks maxTextChars : Nat} {blocks : List ContentBlock}
    (valid : ValidBlocks maxBlocks maxTextChars blocks) : blocks ≠ [] := by
  rintro rfl
  nomatch valid.kinds

theorem collectBlocks_eq_ok {maxTextChars total : Nat} {candidates : List BlockCandidate} {blocks : List ContentBlock}
    (bounded : total ≤ maxTextChars) :
    collectBlocks maxTextChars total candidates = .ok blocks ↔
      List.Forall₂ (fun candidate block => candidate.toBlock = .ok block) candidates blocks ∧
        (∀ block ∈ blocks, isBlank block.text = false) ∧
        total + (blocks.map fun block => block.text.length).sum ≤ maxTextChars := by
  induction candidates generalizing total blocks with
  | nil =>
    constructor
    · intro collected
      cases collected
      exact ⟨.nil, by simp, bounded⟩
    · rintro ⟨each, -⟩
      cases each
      rfl
  | cons candidate candidates inductionHypothesis =>
    simp only [collectBlocks, ok_bind_iff, throw_bind, ite_error_eq_ok, pure_eq_ok, Except.ok.injEq]
    constructor
    · rintro ⟨block, read, filled, fits, rest, collected, rfl⟩
      obtain ⟨each, allFilled, size⟩ := (inductionHypothesis (by omega)).mp collected
      refine ⟨.cons read each, ?_, by simp only [List.map_cons, List.sum_cons]; omega⟩
      intro other listed
      rcases List.mem_cons.mp listed with rfl | later
      · simpa using filled
      · exact allFilled other later
    · rintro ⟨each, filled, size⟩
      cases each with
      | @cons _ block _ rest read each =>
        simp only [List.map_cons, List.sum_cons] at size
        refine ⟨block, read, by simp [filled block List.mem_cons_self], by omega, rest, ?_, rfl⟩
        exact (inductionHypothesis (by omega)).mpr
          ⟨each, fun other later => filled other (List.mem_cons_of_mem _ later), by omega⟩

theorem checkOrder_true_eq_ok {types : List BlockType} {result : Unit} : checkOrder true types = .ok result ↔ types = [] := by
  cases types with
  | nil => simp [checkOrder]
  | cons type types => cases type <;> simp [checkOrder]

theorem checkOrder_false_eq_ok {types : List BlockType} {result : Unit} :
    checkOrder false types = .ok result ↔
      ∃ count, types = List.replicate count .deliverable ∨ types = List.replicate count .deliverable ++ [.advice] := by
  induction types with
  | nil => simp [checkOrder]
  | cons type types inductionHypothesis =>
    cases type with
    | conversation =>
      simp only [checkOrder, reduceCtorEq, false_iff, not_exists]
      intro count
      cases count <;> simp [List.replicate_succ]
    | advice =>
      simp only [checkOrder, Bool.false_eq_true, if_false, checkOrder_true_eq_ok]
      constructor
      · rintro rfl
        exact ⟨0, .inr rfl⟩
      · rintro ⟨count, order⟩
        cases count <;> simp_all [List.replicate_succ]
    | deliverable =>
      simp only [checkOrder, Bool.false_eq_true, if_false, inductionHypothesis]
      constructor
      · rintro ⟨count, rfl | rfl⟩
        · exact ⟨count + 1, .inl rfl⟩
        · exact ⟨count + 1, .inr rfl⟩
      · rintro ⟨count, order⟩
        cases count with
        | zero => simp at order
        | succ count => exact ⟨count, by simpa [List.replicate_succ] using order⟩

/-- The second half of `validate_content_blocks`. -/
theorem kinds_accepted {types : List BlockType} :
    (types = [.conversation] ∨
      types.head? = some .deliverable ∧ checkOrder false types = .ok ()) ↔ KindOrder types := by
  constructor
  · rintro (rfl | ⟨first, ordered⟩)
    · exact .conversation
    · obtain ⟨count, rfl | rfl⟩ := checkOrder_false_eq_ok.mp ordered
      · cases count with
        | zero => cases first
        | succ count => exact .deliverables count
      · cases count with
        | zero => cases first
        | succ count => exact .advised count
  · intro order
    cases order with
    | conversation => exact .inl rfl
    | deliverables more => exact .inr ⟨rfl, checkOrder_false_eq_ok.mpr ⟨more + 1, .inl rfl⟩⟩
    | advised more => exact .inr ⟨rfl, checkOrder_false_eq_ok.mpr ⟨more + 1, .inr rfl⟩⟩

theorem validateContentBlocks_eq_ok {candidates : List BlockCandidate} {maxBlocks maxTextChars : Nat}
    {blocks : List ContentBlock} :
    validateContentBlocks candidates maxBlocks maxTextChars = .ok blocks ↔
      List.Forall₂ (fun candidate block => candidate.toBlock = .ok block) candidates blocks ∧
        ValidBlocks maxBlocks maxTextChars blocks := by
  simp only [validateContentBlocks, ite_error_eq_ok, ok_bind_iff, collectBlocks_eq_ok (Nat.zero_le _), Nat.zero_add,
    Bool.or_eq_true, List.isEmpty_iff, decide_eq_true_eq, not_or, Nat.not_lt, throw_bind, pure_eq_ok]
  constructor
  · rintro ⟨⟨nonempty, few⟩, found, ⟨each, filled, size⟩, ordered⟩
    rw [each.length_eq] at few
    split_ifs at ordered with conversation first
    · cases ordered
      exact ⟨each, few, filled, size, kinds_accepted.mp (.inl conversation)⟩
    · simp only [ok_bind_iff, Except.ok.injEq] at ordered
      obtain ⟨_, checked, rfl⟩ := ordered
      exact ⟨each, few, filled, size, kinds_accepted.mp (.inr ⟨not_not.mp first, checked⟩)⟩
  · rintro ⟨each, valid⟩
    refine ⟨⟨?_, each.length_eq ▸ valid.few⟩, blocks, ⟨each, valid.filled, valid.size⟩, ?_⟩
    · rintro rfl
      exact valid.nonempty (List.forall₂_nil_left_iff.mp each)
    · rcases kinds_accepted.mpr valid.kinds with conversation | ⟨first, checked⟩
      · rw [if_pos conversation]
      · split_ifs with conversation other
        · rfl
        · exact absurd first other
        · rw [checked, ok_bind_eq]

/-- The blocks a decoder holds. -/
theorem checkBlocks_eq_ok {r : ResponseState} {limits : Limits} {blocks : List ContentBlock} :
    r.checkBlocks limits = .ok blocks ↔ blocks = r.blocks ∧ ValidBlocks limits.maxBlocks limits.maxTextChars r.blocks := by
  rw [ResponseState.checkBlocks, validateContentBlocks_eq_ok]
  have same (given : List ContentBlock) :
      List.Forall₂ (fun candidate block => BlockCandidate.toBlock candidate = .ok block) (given.map .block) blocks ↔ given = blocks := by
    rw [List.forall₂_map_left_iff]
    simp [BlockCandidate.toBlock]
  rw [same]
  constructor
  · rintro ⟨rfl, valid⟩
    exact ⟨rfl, valid⟩
  · rintro ⟨rfl, valid⟩
    exact ⟨rfl, valid⟩

/-! ## Stored documents -/

theorem storedMappings_toStorage (blocks : List ContentBlock) :
    storedMappings (blocks.map ContentBlock.toStorage) =
      .ok (blocks.map fun block => .mapping [(str "type", .str block.type.name), (str "text", .str block.text)]) := by
  induction blocks with
  | nil => rfl
  | cons block blocks inductionHypothesis => simp [storedMappings, ContentBlock.toStorage, inductionHypothesis, ok_bind_eq]

/-- A stored block is read back as it was. -/
theorem toBlock_toStorage {block : ContentBlock} (filled : isBlank block.text = false) :
    (BlockCandidate.mapping [(str "type", .str block.type.name), (str "text", .str block.text)]).toBlock = .ok block := by
  have keys : Json.hasExactKeys [(str "type", Json.str block.type.name), (str "text", Json.str block.text)]
      [str "type", str "text"] = true := rfl
  have type : Json.get? [(str "type", Json.str block.type.name), (str "text", Json.str block.text)] (str "type") =
      some (.str block.type.name) := rfl
  have text : Json.get? [(str "type", Json.str block.type.name), (str "text", Json.str block.text)] (str "text") =
      some (.str block.text) := rfl
  simp [BlockCandidate.toBlock, keys, type, text, filled]

/-- What the decoder accepts under the default limits can be stored and read again. -/
theorem validateStoredDocument_toStorage {document : ProtocolDocument}
    (valid : ValidBlocks defaultMaxBlocks defaultMaxTextChars document.blocks) :
    validateStoredDocument document.toStorage = .ok { blocks := document.blocks, state := .none } := by
  have version : isVersionOne (Json.get? document.toStorage (str "version")) = true := rfl
  have keys : requireExactKeys document.toStorage [str "version", str "blocks"] = .ok () := rfl
  have raw : Json.get? document.toStorage (str "blocks") = some (.arr (document.blocks.map ContentBlock.toStorage)) := rfl
  have accepted : validateContentBlocks
      (document.blocks.map fun block => .mapping [(str "type", .str block.type.name), (str "text", .str block.text)])
      defaultMaxBlocks defaultMaxTextChars = .ok document.blocks := by
    rw [validateContentBlocks_eq_ok, List.forall₂_map_left_iff, List.forall₂_same]
    exact ⟨fun block listed => toBlock_toStorage (valid.filled block listed), valid⟩
  simp [validateStoredDocument, version, keys, raw, storedMappings_toStorage, accepted, ok_bind_eq]

end Oveo.Protocol
