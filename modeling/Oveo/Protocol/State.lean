import Oveo.Lib.Fallible
import Oveo.Lib.JsonText
import Oveo.Protocol.Document

/-! # State records

`ProtocolDecoder._decode_state`: the closed schema of each state operation. -/

namespace Oveo.Protocol

open Oveo.Lib Oveo.Docx

/-- A decoded JSON object. -/
abbrev Members := List (Str × Json)

/-- The limits of a decoder, which its constructor requires to be positive. -/
structure Limits where
  maxLineBytes : Nat := 16777216
  maxBlocks : Nat := defaultMaxBlocks
  maxTextChars : Nat := defaultMaxTextChars
  maxStateTextChars : Nat := 4000000
  maxBriefBytes : Nat := 65536
  maxReplacements : Nat := 64
  maxDocxBlocks : Nat := 10000
  positive : 1 ≤ maxLineBytes ∧ 1 ≤ maxBlocks ∧ 1 ≤ maxTextChars ∧ 1 ≤ maxStateTextChars ∧ 1 ≤ maxBriefBytes ∧
    1 ≤ maxReplacements ∧ 1 ≤ maxDocxBlocks := by decide

/-! ## Fields -/

def requireExactKeys (payload : Members) (expected : List Str) : Except ProtocolCode Unit :=
  if Json.hasExactKeys payload expected then .ok () else .error .invalidEventFields

def requireKeys (payload : Members) (required optional : List Str) : Except ProtocolCode Unit :=
  if Json.hasKeys payload required optional then .ok () else .error .invalidEventFields

def validatedBaseVersion : Option Json → Except ProtocolCode Nat
  | some (.int value) => if 1 ≤ value ∧ value ≤ 2147483647 then .ok value.toNat else .error .invalidBaseVersion
  | _ => .error .invalidBaseVersion

/-- `_validated_text` with `allow_empty` and `complete`. -/
def validatedText (allowEmpty complete : Bool) : Option Json → Except ProtocolCode Str
  | some (.str text) =>
    if (!allowEmpty && text.isEmpty) || (complete && isBlank text) then .error .invalidStateText else .ok text
  | _ => .error .invalidStateText

/-- `validated(payload.get(key)) if key in payload else None`. -/
def ifPresent {α : Type} (payload : Members) (key : Str) (validated : Option Json → Except ProtocolCode α) :
    Except ProtocolCode (Option α) :=
  match Json.get? payload key with
  | none => .ok none
  | some value => do
    let result ← validated (some value)
    return some result

def maxBriefDepth : Nat := 12

def maxBriefNodes : Nat := 4096

mutual

/-- `_validate_json_value`: the number of nodes after this value. -/
def validateJsonValue (depth nodes : Nat) (value : Json) : Except ProtocolCode Nat :=
  if maxBriefDepth < depth ∨ maxBriefNodes < nodes + 1 then .error .invalidStateBrief
  else
    match value with
    | .null | .bool _ | .int _ | .str _ => .ok (nodes + 1)
    | .float literal => if Json.floatIsFinite literal then .ok (nodes + 1) else .error .invalidStateBrief
    | .arr items => validateJsonItems (depth + 1) (nodes + 1) items
    | .obj members => validateJsonMembers (depth + 1) (nodes + 1) members

def validateJsonItems (depth nodes : Nat) : List Json → Except ProtocolCode Nat
  | [] => .ok nodes
  | item :: items =>
    match validateJsonValue depth nodes item with
    | .ok nodes => validateJsonItems depth nodes items
    | .error code => .error code

def validateJsonMembers (depth nodes : Nat) : Members → Except ProtocolCode Nat
  | [] => .ok nodes
  | (_, value) :: members =>
    match validateJsonValue depth nodes value with
    | .ok nodes => validateJsonMembers depth nodes members
    | .error code => .error code

end

def validatedBrief (runtime : Json.Runtime) (maxBytes : Nat) : Option Json → Except ProtocolCode Brief
  | some (.obj members) =>
    if members.isEmpty then .error .invalidStateBrief
    else do
      let _ ← validateJsonValue 0 0 (.obj members)
      if Json.hasSurrogate (.obj members) then throw .invalidStateBrief
      if maxBytes < utf8Size (Json.dumps runtime (.obj members)) then throw .stateBriefTooLarge
      return members
  | _ => .error .invalidStateBrief

def validatedAppendSeparator : Option Json → Except ProtocolCode AppendSeparator
  | some (.str name) =>
    if name = str "none" then .ok .none
    else if name = str "space" then .ok .space
    else if name = str "line" then .ok .line
    else if name = str "paragraph" then .ok .paragraph
    else .error .invalidAppendSeparator
  | _ => .error .invalidAppendSeparator

/-- The loop of `_validated_docx_blocks` from one index on. -/
def docxBlocksFrom (index : Nat) : List Json → Except ProtocolCode (List DocxBlockReplacement)
  | [] => .ok []
  | .obj candidate :: candidates => do
    requireExactKeys candidate [str "id", str "text"]
    match Json.get? candidate (str "id"), Json.get? candidate (str "text") with
    | some (.str id), some (.str text) =>
      if id = blockId index then
        let blocks ← docxBlocksFrom (index + 1) candidates
        return ⟨id, text⟩ :: blocks
      else throw (.docx .invalidDocxBlocks)
    | _, _ => throw (.docx .invalidDocxBlocks)
  | _ :: _ => .error (.docx .invalidDocxBlocks)

def validatedDocxBlocks (maxDocxBlocks : Nat) : Option Json → Except ProtocolCode (List DocxBlockReplacement)
  | some (.arr values) =>
    if values.isEmpty ∨ maxDocxBlocks < values.length then .error (.docx .invalidDocxBlocks)
    else docxBlocksFrom 1 values
  | _ => .error (.docx .invalidDocxBlocks)

def validateStateSize (limits : Limits) (texts : List Str) : Except ProtocolCode Unit :=
  if limits.maxStateTextChars < (texts.map List.length).sum then .error .stateTooLarge else .ok ()

/-! ## Replacements -/

def outputKeys : List Str := [str "output_anchor", str "output_replacement"]

def pairedKeys : List Str := outputKeys ++ [str "source_anchor", str "source_replacement"]

/-- The anchors and texts a replacement adds to those before it. -/
@[simp] def ExactReplacement.outputAnchor : ExactReplacement → Str
  | .sourceOutput _ _ anchor _ => anchor
  | .output anchor _ => anchor

@[simp] def ExactReplacement.sourceAnchor? : ExactReplacement → Option Str
  | .sourceOutput anchor _ _ _ => some anchor
  | .output _ _ => none

@[simp] def ExactReplacement.texts : ExactReplacement → List Str
  | .sourceOutput sourceAnchor sourceReplacement outputAnchor outputReplacement =>
    [outputAnchor, outputReplacement, sourceAnchor, sourceReplacement]
  | .output outputAnchor outputReplacement => [outputAnchor, outputReplacement]

/-- The body of the loop over the replacements, given the anchors seen before. -/
def decodeReplacement (seenSource seenOutput : List Str) : Json → Except ProtocolCode ExactReplacement
  | .obj members => do
    if !(Json.hasExactKeys members outputKeys || Json.hasExactKeys members pairedKeys) then
      throw .invalidReplacementFields
    let outputAnchor ← validatedText false false (Json.get? members (str "output_anchor"))
    let outputReplacement ← validatedText true false (Json.get? members (str "output_replacement"))
    if seenOutput.contains outputAnchor then throw .duplicateReplacementAnchor
    if Json.hasExactKeys members outputKeys then return .output outputAnchor outputReplacement
    else do
      let sourceAnchor ← validatedText false false (Json.get? members (str "source_anchor"))
      let sourceReplacement ← validatedText true false (Json.get? members (str "source_replacement"))
      if seenSource.contains sourceAnchor then throw .duplicateReplacementAnchor
      return .sourceOutput sourceAnchor sourceReplacement outputAnchor outputReplacement
  | _ => .error .invalidReplacement

def decodeReplacements (seenSource seenOutput : List Str) : List Json → Except ProtocolCode (List ExactReplacement)
  | [] => .ok []
  | raw :: rest => do
    let replacement ← decodeReplacement seenSource seenOutput raw
    let replacements ← decodeReplacements (replacement.sourceAnchor?.toList ++ seenSource)
      (replacement.outputAnchor :: seenOutput) rest
    return replacement :: replacements

def validatedReplacements (limits : Limits) : Option Json → Except ProtocolCode (List ExactReplacement)
  | some (.arr values) =>
    if values.isEmpty ∨ limits.maxReplacements < values.length then .error .invalidReplacementCount
    else decodeReplacements [] [] values
  | _ => .error .invalidReplacementCount

/-! ## Operations -/

/-- The keys every state record has. -/
def stateKeys : List Str := [str "v", str "event", str "operation"]

/-- The texts a state record carries outside its brief, in the order they are measured. -/
def docxTexts (blocks : Option (List DocxBlockReplacement)) : List Str :=
  (blocks.getD []).map DocxBlockReplacement.text

def decodeEstablish (runtime : Json.Runtime) (limits : Limits) (payload : Members) :
    Except ProtocolCode StateOperation := do
  requireKeys payload (stateKeys ++ [str "brief"]) [str "source", str "docx_blocks"]
  let source ← ifPresent payload (str "source") (validatedText false true)
  let brief ← validatedBrief runtime limits.maxBriefBytes (Json.get? payload (str "brief"))
  let docxBlocks ← ifPresent payload (str "docx_blocks") (validatedDocxBlocks limits.maxDocxBlocks)
  validateStateSize limits (source.toList ++ docxTexts docxBlocks)
  return .establish { brief, source, docxBlocks }

def decodeAppend (runtime : Json.Runtime) (limits : Limits) (payload : Members) :
    Except ProtocolCode StateOperation := do
  requireKeys payload
    (stateKeys ++ [str "base_version", str "source_addition", str "source_separator", str "output_separator"])
    [str "output_addition", str "brief"]
  let baseVersion ← validatedBaseVersion (Json.get? payload (str "base_version"))
  let sourceAddition ← validatedText false true (Json.get? payload (str "source_addition"))
  let outputAddition ← ifPresent payload (str "output_addition") (validatedText false true)
  let sourceSeparator ← validatedAppendSeparator (Json.get? payload (str "source_separator"))
  let outputSeparator ← validatedAppendSeparator (Json.get? payload (str "output_separator"))
  let brief ← ifPresent payload (str "brief") (validatedBrief runtime limits.maxBriefBytes)
  validateStateSize limits (sourceAddition :: outputAddition.toList)
  return .append { baseVersion, sourceAddition, sourceSeparator, outputSeparator, outputAddition, brief }

def decodeReplace (runtime : Json.Runtime) (limits : Limits) (payload : Members) :
    Except ProtocolCode StateOperation := do
  requireKeys payload (stateKeys ++ [str "base_version", str "replacements"]) [str "brief", str "docx_blocks"]
  let baseVersion ← validatedBaseVersion (Json.get? payload (str "base_version"))
  let replacements ← validatedReplacements limits (Json.get? payload (str "replacements"))
  let brief ← ifPresent payload (str "brief") (validatedBrief runtime limits.maxBriefBytes)
  let docxBlocks ← ifPresent payload (str "docx_blocks") (validatedDocxBlocks limits.maxDocxBlocks)
  validateStateSize limits (replacements.flatMap ExactReplacement.texts ++ docxTexts docxBlocks)
  return .replace { baseVersion, replacements, brief, docxBlocks }

def decodeFull (runtime : Json.Runtime) (limits : Limits) (payload : Members) :
    Except ProtocolCode StateOperation := do
  requireKeys payload (stateKeys ++ [str "base_version"]) [str "source", str "brief", str "docx_blocks"]
  let baseVersion ← validatedBaseVersion (Json.get? payload (str "base_version"))
  let source ← ifPresent payload (str "source") (validatedText false true)
  let brief ← ifPresent payload (str "brief") (validatedBrief runtime limits.maxBriefBytes)
  let docxBlocks ← ifPresent payload (str "docx_blocks") (validatedDocxBlocks limits.maxDocxBlocks)
  validateStateSize limits (source.toList ++ docxTexts docxBlocks)
  return .full { baseVersion, source, brief, docxBlocks }

/-- `_decode_state`. -/
def decodeState (runtime : Json.Runtime) (limits : Limits) (payload : Members) :
    Except ProtocolCode StateOperation :=
  match Json.get? payload (str "operation") with
  | some (.str operation) =>
    if operation = str "none" then do
      requireExactKeys payload stateKeys
      return .none
    else if operation = str "establish" then decodeEstablish runtime limits payload
    else if operation = str "append" then decodeAppend runtime limits payload
    else if operation = str "replace" then decodeReplace runtime limits payload
    else if operation = str "full" then decodeFull runtime limits payload
    else .error .invalidStateOperation
  | _ => .error .invalidStateOperation

end Oveo.Protocol
