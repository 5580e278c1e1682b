import Mathlib.Data.List.Forall2
import Oveo.Protocol.State

/-! # The schema of state records

What a state record may hold, said without the order in which `_decode_state` looks at it: a
record is its operation's closed set of keys with a value of the right shape under each.
`decodeState_eq_ok` says that the decoder accepts these records and reads the operation off
them. -/

namespace Oveo.Protocol

open Oveo.Lib Oveo.Docx

/-! ## Shapes -/

/-- The value under a key has a shape. -/
def Field {α : Type} (payload : Members) (key : Str) (shape : Json → α → Prop) (value : α) : Prop :=
  ∃ json, Json.get? payload key = some json ∧ shape json value

/-- A key that may be left out. -/
def OptionalField {α : Type} (payload : Members) (key : Str) (shape : Json → α → Prop) : Option α → Prop
  | none => Json.get? payload key = none
  | some value => Field payload key shape value

def IsText (json : Json) (text : Str) : Prop := json = .str text

def IsAnchor (json : Json) (text : Str) : Prop := json = .str text ∧ text ≠ []

/-- A text with something other than white space. -/
def IsCompleteText (json : Json) (text : Str) : Prop := json = .str text ∧ isBlank text = false

def IsBaseVersion (json : Json) (version : Nat) : Prop :=
  json = .int version ∧ 1 ≤ version ∧ version ≤ 2147483647

def AppendSeparator.name : AppendSeparator → Str
  | .none => str "none"
  | .space => str "space"
  | .line => str "line"
  | .paragraph => str "paragraph"

def IsSeparator (json : Json) (separator : AppendSeparator) : Prop := json = .str separator.name

/-- A bounded JSON object that can be stored. -/
structure IsBrief (runtime : Json.Runtime) (maxBytes : Nat) (json : Json) (brief : Brief) : Prop where
  object : json = .obj brief
  nonempty : brief ≠ []
  height : Json.height json ≤ maxBriefDepth
  nodes : Json.nodes json ≤ maxBriefNodes
  finite : Json.allFinite json = true
  encodable : Json.hasSurrogate json = false
  size : utf8Size (Json.dumps runtime json) ≤ maxBytes

def IsDocxBlock (json : Json) (block : DocxBlockReplacement) : Prop :=
  ∃ members, json = .obj members ∧ Json.hasExactKeys members [str "id", str "text"] = true ∧
    Field members (str "id") IsText block.id ∧ Field members (str "text") IsText block.text

/-- Blocks numbered consecutively. -/
def IsDocxBlocks (maxDocxBlocks : Nat) (json : Json) (blocks : List DocxBlockReplacement) : Prop :=
  ∃ values, json = .arr values ∧ blocks ≠ [] ∧ blocks.length ≤ maxDocxBlocks ∧ List.Forall₂ IsDocxBlock values blocks ∧
    blocks.map DocxBlockReplacement.id = (List.range' 1 blocks.length).map blockId

def IsReplacement (json : Json) : ExactReplacement → Prop
  | .output outputAnchor outputReplacement =>
    ∃ members, json = .obj members ∧ Json.hasExactKeys members outputKeys = true ∧
      Field members (str "output_anchor") IsAnchor outputAnchor ∧
      Field members (str "output_replacement") IsText outputReplacement
  | .sourceOutput sourceAnchor sourceReplacement outputAnchor outputReplacement =>
    ∃ members, json = .obj members ∧ Json.hasExactKeys members pairedKeys = true ∧
      Field members (str "output_anchor") IsAnchor outputAnchor ∧
      Field members (str "output_replacement") IsText outputReplacement ∧
      Field members (str "source_anchor") IsAnchor sourceAnchor ∧
      Field members (str "source_replacement") IsText sourceReplacement

/-- Replacements whose anchors differ, on either side. -/
def IsReplacements (limits : Limits) (json : Json) (replacements : List ExactReplacement) : Prop :=
  ∃ values, json = .arr values ∧ replacements ≠ [] ∧ replacements.length ≤ limits.maxReplacements ∧
    List.Forall₂ IsReplacement values replacements ∧
    (replacements.map ExactReplacement.outputAnchor).Nodup ∧
    (replacements.filterMap ExactReplacement.sourceAnchor?).Nodup

/-- The texts of an operation outside its brief, which the limit on the state's text counts. -/
def StateOperation.texts : StateOperation → List Str
  | .none => []
  | .establish state => state.source.toList ++ docxTexts state.docxBlocks
  | .append state => state.sourceAddition :: state.outputAddition.toList
  | .replace state => state.replacements.flatMap ExactReplacement.texts ++ docxTexts state.docxBlocks
  | .full state => state.source.toList ++ docxTexts state.docxBlocks

def StateOperation.operation : StateOperation → Str
  | .none => str "none"
  | .establish _ => str "establish"
  | .append _ => str "append"
  | .replace _ => str "replace"
  | .full _ => str "full"

/-- The closed set of keys of one operation's record, and the value under each. -/
def OperationFields (runtime : Json.Runtime) (limits : Limits) (payload : Members) : StateOperation → Prop
  | .none => Json.hasExactKeys payload stateKeys = true
  | .establish state =>
    Json.hasKeys payload (stateKeys ++ [str "brief"]) [str "source", str "docx_blocks"] = true ∧
      OptionalField payload (str "source") IsCompleteText state.source ∧
      Field payload (str "brief") (IsBrief runtime limits.maxBriefBytes) state.brief ∧
      OptionalField payload (str "docx_blocks") (IsDocxBlocks limits.maxDocxBlocks) state.docxBlocks
  | .append state =>
    Json.hasKeys payload
      (stateKeys ++ [str "base_version", str "source_addition", str "source_separator", str "output_separator"])
      [str "output_addition", str "brief"] = true ∧
      Field payload (str "base_version") IsBaseVersion state.baseVersion ∧
      Field payload (str "source_addition") IsCompleteText state.sourceAddition ∧
      OptionalField payload (str "output_addition") IsCompleteText state.outputAddition ∧
      Field payload (str "source_separator") IsSeparator state.sourceSeparator ∧
      Field payload (str "output_separator") IsSeparator state.outputSeparator ∧
      OptionalField payload (str "brief") (IsBrief runtime limits.maxBriefBytes) state.brief
  | .replace state =>
    Json.hasKeys payload (stateKeys ++ [str "base_version", str "replacements"]) [str "brief", str "docx_blocks"] = true ∧
      Field payload (str "base_version") IsBaseVersion state.baseVersion ∧
      Field payload (str "replacements") (IsReplacements limits) state.replacements ∧
      OptionalField payload (str "brief") (IsBrief runtime limits.maxBriefBytes) state.brief ∧
      OptionalField payload (str "docx_blocks") (IsDocxBlocks limits.maxDocxBlocks) state.docxBlocks
  | .full state =>
    Json.hasKeys payload (stateKeys ++ [str "base_version"]) [str "source", str "brief", str "docx_blocks"] = true ∧
      Field payload (str "base_version") IsBaseVersion state.baseVersion ∧
      OptionalField payload (str "source") IsCompleteText state.source ∧
      OptionalField payload (str "brief") (IsBrief runtime limits.maxBriefBytes) state.brief ∧
      OptionalField payload (str "docx_blocks") (IsDocxBlocks limits.maxDocxBlocks) state.docxBlocks

/-- A state record valid for its operation's closed schema. -/
structure StateRecord (runtime : Json.Runtime) (limits : Limits) (payload : Members) (state : StateOperation) : Prop where
  operation : Field payload (str "operation") IsText state.operation
  fields : OperationFields runtime limits payload state
  size : (state.texts.map List.length).sum ≤ limits.maxStateTextChars

/-! ## What the validators accept -/

theorem requireExactKeys_eq_ok {payload : Members} {expected : List Str} {result : Unit} :
    requireExactKeys payload expected = .ok result ↔ Json.hasExactKeys payload expected = true := by
  unfold requireExactKeys
  split <;> simp_all

theorem requireKeys_eq_ok {payload : Members} {required optional : List Str} {result : Unit} :
    requireKeys payload required optional = .ok result ↔ Json.hasKeys payload required optional = true := by
  unfold requireKeys
  split <;> simp_all

theorem validatedBaseVersion_eq_ok {value : Option Json} {version : Nat} :
    validatedBaseVersion value = .ok version ↔ ∃ json, value = some json ∧ IsBaseVersion json version := by
  constructor
  · intro validated
    unfold validatedBaseVersion at validated
    split at validated
    next number =>
      split at validated
      next bounds =>
        cases validated
        refine ⟨_, rfl, ?_, ?_, ?_⟩
        · congr
          omega
        · omega
        · omega
      next => cases validated
    next => cases validated
  · rintro ⟨_, rfl, rfl, low, high⟩
    have bounds : (1 : Int) ≤ version ∧ (version : Int) ≤ 2147483647 := by omega
    simp [validatedBaseVersion, bounds]

theorem validatedText_eq_ok {allowEmpty complete : Bool} {value : Option Json} {text : Str} :
    validatedText allowEmpty complete value = .ok text ↔
      ∃ json, value = some json ∧ json = .str text ∧ (allowEmpty = false → text ≠ []) ∧
        (complete = true → isBlank text = false) := by
  constructor
  · intro validated
    unfold validatedText at validated
    split at validated
    next =>
      split at validated
      next => cases validated
      next passes =>
        cases validated
        simp only [Bool.or_eq_true, Bool.and_eq_true, Bool.not_eq_true', List.isEmpty_iff, not_or, not_and,
          Bool.not_eq_true] at passes
        exact ⟨_, rfl, rfl, passes.1, passes.2⟩
    next => cases validated
  · rintro ⟨_, rfl, rfl, nonempty, filled⟩
    have passes : ((!allowEmpty && text.isEmpty) || (complete && isBlank text)) = false := by
      rw [Bool.or_eq_false_iff, Bool.and_eq_false_iff, Bool.and_eq_false_iff]
      refine ⟨?_, ?_⟩
      · cases allowEmpty with
        | true => exact .inl rfl
        | false => exact .inr (List.isEmpty_eq_false_iff.mpr (nonempty rfl))
      · cases complete with
        | true => exact .inr (filled rfl)
        | false => exact .inl rfl
    simp only [validatedText, passes, Bool.false_eq_true, if_false]

theorem completeText_eq_ok {value : Option Json} {text : Str} :
    validatedText false true value = .ok text ↔ ∃ json, value = some json ∧ IsCompleteText json text := by
  rw [validatedText_eq_ok]
  refine exists_congr fun json => and_congr_right fun _ => and_congr_right fun _ => ?_
  constructor
  · rintro ⟨-, complete⟩
    exact complete rfl
  · intro complete
    refine ⟨?_, fun _ => complete⟩
    rintro - rfl
    cases complete

theorem anchor_eq_ok {value : Option Json} {text : Str} :
    validatedText false false value = .ok text ↔ ∃ json, value = some json ∧ IsAnchor json text := by
  rw [validatedText_eq_ok]
  simp [IsAnchor]

theorem text_eq_ok {value : Option Json} {text : Str} :
    validatedText true false value = .ok text ↔ ∃ json, value = some json ∧ IsText json text := by
  rw [validatedText_eq_ok]
  simp [IsText]

theorem ifPresent_eq_ok {α : Type} {payload : Members} {key : Str} {validated : Option Json → Except ProtocolCode α}
    {shape : Json → α → Prop}
    (accepts : ∀ value result, validated value = .ok result ↔ ∃ json, value = some json ∧ shape json result)
    {result : Option α} : ifPresent payload key validated = .ok result ↔ OptionalField payload key shape result := by
  unfold ifPresent
  cases found : Json.get? payload key with
  | none => cases result <;> simp [OptionalField, Field, found]
  | some json =>
    cases result with
    | none => simp [OptionalField, found]
    | some value => simp [OptionalField, Field, found, accepts]

mutual

/-- The walk over a value measures it. -/
theorem validateJsonValue_eq_ok {depth count after : Nat} (value : Json) :
    validateJsonValue depth count value = .ok after ↔
      depth + Json.height value ≤ maxBriefDepth ∧ count + Json.nodes value ≤ maxBriefNodes ∧
        Json.allFinite value = true ∧ after = count + Json.nodes value := by
  unfold validateJsonValue
  rw [ite_error_eq_ok]
  cases value with
  | null | bool _ | int _ | str _ =>
    simp only [Json.height, Json.nodes, Json.allFinite, Except.ok.injEq, not_or, Nat.not_lt, true_and]
    omega
  | float literal =>
    simp only [Json.height, Json.nodes, Json.allFinite]
    cases Json.floatIsFinite literal with
    | true =>
      simp only [if_true, Except.ok.injEq, true_and]
      omega
    | false => simp
  | arr items =>
    simp only [Json.height, Json.nodes, Json.allFinite]
    constructor
    · rintro ⟨bounds, walked⟩
      obtain ⟨shallow, few, finite, rfl⟩ := (validateJsonItems_eq_ok items (by omega) (by omega)).mp walked
      exact ⟨shallow, by omega, finite, by omega⟩
    · rintro ⟨shallow, few, finite, rfl⟩
      exact ⟨by omega, (validateJsonItems_eq_ok items (by omega) (by omega)).mpr ⟨shallow, by omega, finite, by omega⟩⟩
  | obj members =>
    simp only [Json.height, Json.nodes, Json.allFinite]
    constructor
    · rintro ⟨bounds, walked⟩
      obtain ⟨shallow, few, finite, rfl⟩ := (validateJsonMembers_eq_ok members (by omega) (by omega)).mp walked
      exact ⟨shallow, by omega, finite, by omega⟩
    · rintro ⟨shallow, few, finite, rfl⟩
      exact ⟨by omega, (validateJsonMembers_eq_ok members (by omega) (by omega)).mpr ⟨shallow, by omega, finite, by omega⟩⟩

theorem validateJsonItems_eq_ok {depth count after : Nat} (items : List Json) (shallow : depth ≤ maxBriefDepth)
    (few : count ≤ maxBriefNodes) :
    validateJsonItems (depth + 1) count items = .ok after ↔
      depth + Json.itemsHeight items ≤ maxBriefDepth ∧ count + Json.itemsNodes items ≤ maxBriefNodes ∧
        Json.itemsAllFinite items = true ∧ after = count + Json.itemsNodes items := by
  cases items with
  | nil =>
    simp only [validateJsonItems, Json.itemsHeight, Json.itemsNodes, Json.itemsAllFinite, Except.ok.injEq, true_and]
    omega
  | cons item items =>
    simp only [validateJsonItems, Json.itemsHeight, Json.itemsNodes, Json.itemsAllFinite, Bool.and_eq_true]
    split
    next middle walked =>
      obtain ⟨itemShallow, itemFew, itemFinite, rfl⟩ := (validateJsonValue_eq_ok item).mp walked
      rw [validateJsonItems_eq_ok items shallow itemFew]
      constructor
      · rintro ⟨restShallow, restFew, restFinite, rfl⟩
        exact ⟨by omega, by omega, ⟨itemFinite, restFinite⟩, by omega⟩
      · rintro ⟨bounds, total, ⟨-, restFinite⟩, rfl⟩
        exact ⟨by omega, by omega, restFinite, by omega⟩
    next code refused =>
      simp only [reduceCtorEq, false_iff]
      rintro ⟨bounds, total, ⟨finite, -⟩, -⟩
      have walked : validateJsonValue (depth + 1) count item = .ok (count + Json.nodes item) :=
        (validateJsonValue_eq_ok item).mpr ⟨by omega, by omega, finite, rfl⟩
      rw [refused] at walked
      cases walked

theorem validateJsonMembers_eq_ok {depth count after : Nat} (members : Members) (shallow : depth ≤ maxBriefDepth)
    (few : count ≤ maxBriefNodes) :
    validateJsonMembers (depth + 1) count members = .ok after ↔
      depth + Json.membersHeight members ≤ maxBriefDepth ∧ count + Json.membersNodes members ≤ maxBriefNodes ∧
        Json.membersAllFinite members = true ∧ after = count + Json.membersNodes members := by
  cases members with
  | nil =>
    simp only [validateJsonMembers, Json.membersHeight, Json.membersNodes, Json.membersAllFinite, Except.ok.injEq, true_and]
    omega
  | cons member members =>
    obtain ⟨key, value⟩ := member
    simp only [validateJsonMembers, Json.membersHeight, Json.membersNodes, Json.membersAllFinite, Bool.and_eq_true]
    split
    next middle walked =>
      obtain ⟨valueShallow, valueFew, valueFinite, rfl⟩ := (validateJsonValue_eq_ok value).mp walked
      rw [validateJsonMembers_eq_ok members shallow valueFew]
      constructor
      · rintro ⟨restShallow, restFew, restFinite, rfl⟩
        exact ⟨by omega, by omega, ⟨valueFinite, restFinite⟩, by omega⟩
      · rintro ⟨bounds, total, ⟨-, restFinite⟩, rfl⟩
        exact ⟨by omega, by omega, restFinite, by omega⟩
    next code refused =>
      simp only [reduceCtorEq, false_iff]
      rintro ⟨bounds, total, ⟨finite, -⟩, -⟩
      have walked : validateJsonValue (depth + 1) count value = .ok (count + Json.nodes value) :=
        (validateJsonValue_eq_ok value).mpr ⟨by omega, by omega, finite, rfl⟩
      rw [refused] at walked
      cases walked

end

theorem validatedBrief_eq_ok {runtime : Json.Runtime} {maxBytes : Nat} {value : Option Json} {brief : Brief} :
    validatedBrief runtime maxBytes value = .ok brief ↔
      ∃ json, value = some json ∧ IsBrief runtime maxBytes json brief := by
  constructor
  · intro validated
    unfold validatedBrief at validated
    split at validated
    next members =>
      split at validated
      next => cases validated
      next nonempty =>
        simp only [ok_bind_iff, throw_bind, ite_error_eq_ok, pure_eq_ok, Except.ok.injEq] at validated
        obtain ⟨after, walked, encodable, size, rfl⟩ := validated
        obtain ⟨height, nodes, finite, -⟩ := (validateJsonValue_eq_ok _).mp walked
        exact ⟨_, rfl, rfl, by simpa using nonempty, by omega, by omega, finite, by simpa using encodable, by omega⟩
    next => cases validated
  · rintro ⟨_, rfl, accepted⟩
    obtain rfl := accepted.object
    have nonempty := accepted.nonempty
    have height := accepted.height
    have nodes := accepted.nodes
    have walked : validateJsonValue 0 0 (.obj brief) = .ok (0 + Json.nodes (.obj brief)) :=
      (validateJsonValue_eq_ok (.obj brief)).mpr ⟨by omega, by omega, accepted.finite, rfl⟩
    have size := accepted.size
    simp [validatedBrief, nonempty, walked, accepted.encodable, Nat.not_lt.mpr size, ok_bind_eq]

theorem validatedAppendSeparator_eq_ok {value : Option Json} {separator : AppendSeparator} :
    validatedAppendSeparator value = .ok separator ↔ ∃ json, value = some json ∧ IsSeparator json separator := by
  constructor
  · intro validated
    unfold validatedAppendSeparator at validated
    split at validated
    next name =>
      split_ifs at validated with asNone asSpace asLine asParagraph
      · cases validated
        exact ⟨_, rfl, congrArg Json.str asNone⟩
      · cases validated
        exact ⟨_, rfl, congrArg Json.str asSpace⟩
      · cases validated
        exact ⟨_, rfl, congrArg Json.str asLine⟩
      · cases validated
        exact ⟨_, rfl, congrArg Json.str asParagraph⟩
    next => cases validated
  · rintro ⟨_, rfl, rfl⟩
    cases separator <;> decide

/-! ## Document blocks -/

theorem docxBlocksFrom_eq_ok {index : Nat} {values : List Json} {blocks : List DocxBlockReplacement} :
    docxBlocksFrom index values = .ok blocks ↔
      List.Forall₂ IsDocxBlock values blocks ∧
        blocks.map DocxBlockReplacement.id = (List.range' index blocks.length).map blockId := by
  induction values generalizing index blocks with
  | nil =>
    constructor
    · intro read
      cases read
      exact ⟨.nil, rfl⟩
    · rintro ⟨each, -⟩
      cases each
      rfl
  | cons value values inductionHypothesis =>
    constructor
    · intro read
      unfold docxBlocksFrom at read
      split at read
      next => contradiction
      next candidate _ same =>
        cases same
        simp only [ok_bind_iff, requireExactKeys_eq_ok] at read
        obtain ⟨_, keys, read⟩ := read
        split at read
        next id text idFound textFound =>
          split at read
          next numbered =>
            simp only [ok_bind_iff, pure_eq_ok, Except.ok.injEq] at read
            obtain ⟨rest, read, rfl⟩ := read
            obtain ⟨each, ids⟩ := inductionHypothesis.mp read
            refine ⟨.cons ⟨candidate, rfl, keys, ⟨_, idFound, rfl⟩, ⟨_, textFound, rfl⟩⟩ each, ?_⟩
            simp [numbered, ids, List.range'_succ]
          next => cases read
        next => cases read
      next => cases read
    · rintro ⟨each, ids⟩
      cases each with
      | @cons _ block _ rest head tail =>
        obtain ⟨id, text⟩ := block
        obtain ⟨members, rfl, keys, ⟨_, idFound, rfl⟩, ⟨_, textFound, rfl⟩⟩ := head
        simp only [List.map_cons, List.length_cons, List.range'_succ, List.cons.injEq] at ids
        obtain ⟨numbered, ids⟩ := ids
        have read := inductionHypothesis.mpr ⟨tail, ids⟩
        simp [docxBlocksFrom, requireExactKeys, keys, idFound, textFound, numbered, read, ok_bind_eq]

theorem validatedDocxBlocks_eq_ok {maxDocxBlocks : Nat} {value : Option Json} {blocks : List DocxBlockReplacement} :
    validatedDocxBlocks maxDocxBlocks value = .ok blocks ↔
      ∃ json, value = some json ∧ IsDocxBlocks maxDocxBlocks json blocks := by
  constructor
  · intro validated
    unfold validatedDocxBlocks at validated
    split at validated
    next values =>
      rw [ite_error_eq_ok, docxBlocksFrom_eq_ok, not_or, List.isEmpty_iff] at validated
      obtain ⟨⟨nonempty, few⟩, each, ids⟩ := validated
      have sameLength := each.length_eq
      refine ⟨_, rfl, values, rfl, ?_, by omega, each, ids⟩
      rintro rfl
      exact nonempty (List.length_eq_zero_iff.mp sameLength)
    next => cases validated
  · rintro ⟨_, rfl, values, rfl, nonempty, few, each, ids⟩
    have sameLength := each.length_eq
    simp only [validatedDocxBlocks]
    rw [ite_error_eq_ok, docxBlocksFrom_eq_ok, not_or, List.isEmpty_iff]
    refine ⟨⟨?_, by omega⟩, each, ids⟩
    rintro rfl
    exact nonempty (List.length_eq_zero_iff.mp sameLength.symm)

/-! ## Replacements -/

/-- The keys of a replacement tell its two forms apart. -/
theorem outputKeys_of_pairedKeys {members : Members} {anchor : Str}
    (source : Field members (str "source_anchor") IsAnchor anchor) : Json.hasExactKeys members outputKeys = false := by
  obtain ⟨value, found, -⟩ := source
  by_contra closed
  exact absurd (Json.mem_of_hasExactKeys (by simpa using closed) found) (by decide)

theorem decodeReplacement_eq_ok {seenSource seenOutput : List Str} {value : Json} {replacement : ExactReplacement} :
    decodeReplacement seenSource seenOutput value = .ok replacement ↔
      IsReplacement value replacement ∧ replacement.outputAnchor ∉ seenOutput ∧
        ∀ anchor ∈ replacement.sourceAnchor?, anchor ∉ seenSource := by
  cases value with
  | obj members =>
    constructor
    · intro decoded
      simp only [decodeReplacement, throw_bind, ite_error_eq_ok, ok_bind_iff, anchor_eq_ok, text_eq_ok] at decoded
      obtain ⟨keys, outputAnchor, anchorField, outputReplacement, replacementField, fresh, decoded⟩ := decoded
      split at decoded
      next closed =>
        cases decoded
        exact ⟨⟨members, rfl, closed, anchorField, replacementField⟩, by simpa using fresh, by simp⟩
      next notOutput =>
        simp only [ok_bind_iff, anchor_eq_ok, text_eq_ok, ite_error_eq_ok, pure_eq_ok, Except.ok.injEq] at decoded
        obtain ⟨sourceAnchor, sourceField, sourceReplacement, sourceText, sourceFresh, rfl⟩ := decoded
        refine ⟨⟨members, rfl, ?_, anchorField, replacementField, sourceField, sourceText⟩, by simpa using fresh, ?_⟩
        · simpa [notOutput] using keys
        · simpa using sourceFresh
    · rintro ⟨shape, fresh, sourceFresh⟩
      simp only [decodeReplacement, throw_bind, ite_error_eq_ok, ok_bind_iff, anchor_eq_ok, text_eq_ok]
      cases replacement with
      | output outputAnchor outputReplacement =>
        obtain ⟨_, same, closed, anchorField, replacementField⟩ := shape
        cases same
        refine ⟨by simp [closed], outputAnchor, anchorField, outputReplacement, replacementField, by simpa using fresh, ?_⟩
        simp [closed]
      | sourceOutput sourceAnchor sourceReplacement outputAnchor outputReplacement =>
        obtain ⟨_, same, closed, anchorField, replacementField, sourceField, sourceText⟩ := shape
        cases same
        have notOutput := outputKeys_of_pairedKeys sourceField
        refine ⟨by simp [closed], outputAnchor, anchorField, outputReplacement, replacementField, by simpa using fresh, ?_⟩
        simp only [notOutput, Bool.false_eq_true, if_false, ok_bind_iff, anchor_eq_ok, text_eq_ok, ite_error_eq_ok,
          pure_eq_ok, Except.ok.injEq]
        exact ⟨sourceAnchor, sourceField, sourceReplacement, sourceText,
          by simpa using sourceFresh, rfl⟩
  | null | bool _ | int _ | float _ | str _ | arr _ =>
    cases replacement <;> simp [decodeReplacement, IsReplacement]

theorem decodeReplacements_eq_ok {seenSource seenOutput : List Str} {values : List Json}
    {replacements : List ExactReplacement} :
    decodeReplacements seenSource seenOutput values = .ok replacements ↔
      List.Forall₂ IsReplacement values replacements ∧
        ((replacements.map ExactReplacement.outputAnchor).Nodup ∧
          ∀ anchor ∈ replacements.map ExactReplacement.outputAnchor, anchor ∉ seenOutput) ∧
        (replacements.filterMap ExactReplacement.sourceAnchor?).Nodup ∧
          ∀ anchor ∈ replacements.filterMap ExactReplacement.sourceAnchor?, anchor ∉ seenSource := by
  induction values generalizing seenSource seenOutput replacements with
  | nil =>
    constructor
    · intro decoded
      cases decoded
      exact ⟨.nil, by simp, by simp⟩
    · rintro ⟨each, -⟩
      cases each
      rfl
  | cons value values inductionHypothesis =>
    simp only [decodeReplacements, ok_bind_iff, pure_eq_ok, Except.ok.injEq, decodeReplacement_eq_ok, inductionHypothesis]
    constructor
    · rintro ⟨replacement, ⟨shape, fresh, sourceFresh⟩, rest, ⟨each, ⟨outputs, outputsFresh⟩, sources, sourcesFresh⟩, rfl⟩
      refine ⟨.cons shape each, ⟨?_, ?_⟩, ?_⟩
      · exact List.nodup_cons.mpr ⟨fun again => outputsFresh _ again List.mem_cons_self, outputs⟩
      · intro anchor listed
        rcases List.mem_cons.mp listed with rfl | later
        · exact fresh
        · exact fun seen => outputsFresh anchor later (List.mem_cons_of_mem _ seen)
      · cases own : replacement.sourceAnchor? with
        | none =>
          rw [own] at sourcesFresh
          rw [List.filterMap_cons_none own]
          exact ⟨sources, sourcesFresh⟩
        | some source =>
          rw [own] at sourcesFresh sourceFresh
          rw [List.filterMap_cons_some own]
          refine ⟨List.nodup_cons.mpr ⟨fun again => sourcesFresh source again List.mem_cons_self, sources⟩, ?_⟩
          intro anchor listed
          rcases List.mem_cons.mp listed with rfl | later
          · exact sourceFresh anchor rfl
          · exact fun seen => sourcesFresh anchor later (List.mem_cons_of_mem _ seen)
    · rintro ⟨each, ⟨outputs, outputsFresh⟩, sources⟩
      cases each with
      | @cons _ replacement _ rest shape each =>
        rw [List.map_cons, List.nodup_cons] at outputs
        refine ⟨replacement, ⟨shape, outputsFresh _ List.mem_cons_self, ?_⟩, rest, ⟨each, ⟨outputs.2, ?_⟩, ?_⟩, rfl⟩
        · intro source own
          rw [List.filterMap_cons_some own] at sources
          exact sources.2 source List.mem_cons_self
        · intro anchor later seen
          rcases List.mem_cons.mp seen with rfl | seen
          · exact outputs.1 later
          · exact outputsFresh anchor (List.mem_cons_of_mem _ later) seen
        · cases own : replacement.sourceAnchor? with
          | none =>
            rw [List.filterMap_cons_none own] at sources
            exact sources
          | some source =>
            rw [List.filterMap_cons_some own, List.nodup_cons] at sources
            refine ⟨sources.1.2, fun anchor later seen => ?_⟩
            rcases List.mem_cons.mp seen with rfl | seen
            · exact sources.1.1 later
            · exact sources.2 anchor (List.mem_cons_of_mem _ later) seen

theorem validatedReplacements_eq_ok {limits : Limits} {value : Option Json} {replacements : List ExactReplacement} :
    validatedReplacements limits value = .ok replacements ↔
      ∃ json, value = some json ∧ IsReplacements limits json replacements := by
  constructor
  · intro validated
    unfold validatedReplacements at validated
    split at validated
    next values =>
      rw [ite_error_eq_ok, decodeReplacements_eq_ok, not_or, List.isEmpty_iff] at validated
      obtain ⟨⟨nonempty, few⟩, each, ⟨outputs, -⟩, sources, -⟩ := validated
      have sameLength := each.length_eq
      refine ⟨_, rfl, values, rfl, ?_, by omega, each, outputs, sources⟩
      rintro rfl
      exact nonempty (List.length_eq_zero_iff.mp sameLength)
    next => cases validated
  · rintro ⟨_, rfl, values, rfl, nonempty, few, each, outputs, sources⟩
    have sameLength := each.length_eq
    simp only [validatedReplacements]
    rw [ite_error_eq_ok, decodeReplacements_eq_ok, not_or, List.isEmpty_iff]
    refine ⟨⟨?_, by omega⟩, each, ⟨outputs, by simp⟩, sources, by simp⟩
    rintro rfl
    exact nonempty (List.length_eq_zero_iff.mp sameLength.symm)

/-! ## Operations -/

theorem validateStateSize_eq_ok {limits : Limits} {texts : List Str} {result : Unit} :
    validateStateSize limits texts = .ok result ↔ (texts.map List.length).sum ≤ limits.maxStateTextChars := by
  unfold validateStateSize
  split <;> simp_all

section

variable {runtime : Json.Runtime} {limits : Limits} {payload : Members} {operation : StateOperation}

theorem decodeEstablish_eq_ok :
    decodeEstablish runtime limits payload = .ok operation ↔
      ∃ state, operation = .establish state ∧ OperationFields runtime limits payload (.establish state) ∧
        ((StateOperation.establish state).texts.map List.length).sum ≤ limits.maxStateTextChars := by
  simp only [decodeEstablish, ok_bind_iff, pure_eq_ok, Except.ok.injEq, requireKeys_eq_ok, validateStateSize_eq_ok,
    ifPresent_eq_ok fun _ _ => completeText_eq_ok, ifPresent_eq_ok fun _ _ => validatedDocxBlocks_eq_ok,
    validatedBrief_eq_ok]
  constructor
  · rintro ⟨_, keys, source, sourceField, brief, briefField, blocks, blocksField, _, size, rfl⟩
    exact ⟨_, rfl, ⟨keys, sourceField, briefField, blocksField⟩, size⟩
  · rintro ⟨state, rfl, ⟨keys, sourceField, briefField, blocksField⟩, size⟩
    exact ⟨(), keys, _, sourceField, _, briefField, _, blocksField, (), size, rfl⟩

theorem decodeAppend_eq_ok :
    decodeAppend runtime limits payload = .ok operation ↔
      ∃ state, operation = .append state ∧ OperationFields runtime limits payload (.append state) ∧
        ((StateOperation.append state).texts.map List.length).sum ≤ limits.maxStateTextChars := by
  simp only [decodeAppend, ok_bind_iff, pure_eq_ok, Except.ok.injEq, requireKeys_eq_ok, validateStateSize_eq_ok,
    ifPresent_eq_ok fun _ _ => completeText_eq_ok, ifPresent_eq_ok fun _ _ => validatedBrief_eq_ok,
    validatedBaseVersion_eq_ok, completeText_eq_ok, validatedAppendSeparator_eq_ok]
  constructor
  · rintro ⟨_, keys, version, versionField, source, sourceField, output, outputField, sourceSeparator,
      sourceSeparatorField, outputSeparator, outputSeparatorField, brief, briefField, _, size, rfl⟩
    exact ⟨_, rfl, ⟨keys, versionField, sourceField, outputField, sourceSeparatorField, outputSeparatorField,
      briefField⟩, size⟩
  · rintro ⟨state, rfl, ⟨keys, versionField, sourceField, outputField, sourceSeparatorField, outputSeparatorField,
      briefField⟩, size⟩
    exact ⟨(), keys, _, versionField, _, sourceField, _, outputField, _, sourceSeparatorField, _,
      outputSeparatorField, _, briefField, (), size, rfl⟩

theorem decodeReplace_eq_ok :
    decodeReplace runtime limits payload = .ok operation ↔
      ∃ state, operation = .replace state ∧ OperationFields runtime limits payload (.replace state) ∧
        ((StateOperation.replace state).texts.map List.length).sum ≤ limits.maxStateTextChars := by
  simp only [decodeReplace, ok_bind_iff, pure_eq_ok, Except.ok.injEq, requireKeys_eq_ok, validateStateSize_eq_ok,
    ifPresent_eq_ok fun _ _ => validatedBrief_eq_ok, ifPresent_eq_ok fun _ _ => validatedDocxBlocks_eq_ok,
    validatedBaseVersion_eq_ok, validatedReplacements_eq_ok]
  constructor
  · rintro ⟨_, keys, version, versionField, replacements, replacementsField, brief, briefField, blocks, blocksField,
      _, size, rfl⟩
    exact ⟨_, rfl, ⟨keys, versionField, replacementsField, briefField, blocksField⟩, size⟩
  · rintro ⟨state, rfl, ⟨keys, versionField, replacementsField, briefField, blocksField⟩, size⟩
    exact ⟨(), keys, _, versionField, _, replacementsField, _, briefField, _, blocksField, (), size, rfl⟩

theorem decodeFull_eq_ok :
    decodeFull runtime limits payload = .ok operation ↔
      ∃ state, operation = .full state ∧ OperationFields runtime limits payload (.full state) ∧
        ((StateOperation.full state).texts.map List.length).sum ≤ limits.maxStateTextChars := by
  simp only [decodeFull, ok_bind_iff, pure_eq_ok, Except.ok.injEq, requireKeys_eq_ok, validateStateSize_eq_ok,
    ifPresent_eq_ok fun _ _ => completeText_eq_ok, ifPresent_eq_ok fun _ _ => validatedBrief_eq_ok,
    ifPresent_eq_ok fun _ _ => validatedDocxBlocks_eq_ok, validatedBaseVersion_eq_ok]
  constructor
  · rintro ⟨_, keys, version, versionField, source, sourceField, brief, briefField, blocks, blocksField, _, size, rfl⟩
    exact ⟨_, rfl, ⟨keys, versionField, sourceField, briefField, blocksField⟩, size⟩
  · rintro ⟨state, rfl, ⟨keys, versionField, sourceField, briefField, blocksField⟩, size⟩
    exact ⟨(), keys, _, versionField, _, sourceField, _, briefField, _, blocksField, (), size, rfl⟩

/-- The decoder accepts the records of the schema and no others. -/
theorem decodeState_eq_ok :
    decodeState runtime limits payload = .ok operation ↔ StateRecord runtime limits payload operation := by
  constructor
  · intro decoded
    unfold decodeState at decoded
    split at decoded
    next name found =>
      split_ifs at decoded with asNone asEstablish asAppend asReplace asFull
      · simp only [ok_bind_iff, requireExactKeys_eq_ok, pure_eq_ok, Except.ok.injEq] at decoded
        obtain ⟨_, keys, rfl⟩ := decoded
        exact ⟨⟨_, found, congrArg Json.str asNone⟩, keys, Nat.zero_le _⟩
      · obtain ⟨state, rfl, fields, size⟩ := decodeEstablish_eq_ok.mp decoded
        exact ⟨⟨_, found, congrArg Json.str asEstablish⟩, fields, size⟩
      · obtain ⟨state, rfl, fields, size⟩ := decodeAppend_eq_ok.mp decoded
        exact ⟨⟨_, found, congrArg Json.str asAppend⟩, fields, size⟩
      · obtain ⟨state, rfl, fields, size⟩ := decodeReplace_eq_ok.mp decoded
        exact ⟨⟨_, found, congrArg Json.str asReplace⟩, fields, size⟩
      · obtain ⟨state, rfl, fields, size⟩ := decodeFull_eq_ok.mp decoded
        exact ⟨⟨_, found, congrArg Json.str asFull⟩, fields, size⟩
    next => cases decoded
  · rintro ⟨⟨_, found, rfl⟩, fields, size⟩
    simp only [decodeState, found]
    cases operation with
    | none =>
      have keys : requireExactKeys payload stateKeys = .ok () := requireExactKeys_eq_ok.mpr fields
      simp [StateOperation.operation, keys, ok_bind_eq]
    | establish state =>
      simp only [StateOperation.operation]
      rw [if_neg (by decide), if_pos (by decide)]
      exact decodeEstablish_eq_ok.mpr ⟨state, rfl, fields, size⟩
    | append state =>
      simp only [StateOperation.operation]
      rw [if_neg (by decide), if_neg (by decide), if_pos (by decide)]
      exact decodeAppend_eq_ok.mpr ⟨state, rfl, fields, size⟩
    | replace state =>
      simp only [StateOperation.operation]
      rw [if_neg (by decide), if_neg (by decide), if_neg (by decide), if_pos (by decide)]
      exact decodeReplace_eq_ok.mpr ⟨state, rfl, fields, size⟩
    | full state =>
      simp only [StateOperation.operation]
      rw [if_neg (by decide), if_neg (by decide), if_neg (by decide), if_neg (by decide), if_pos (by decide)]
      exact decodeFull_eq_ok.mpr ⟨state, rfl, fields, size⟩

end

end Oveo.Protocol
