import Oveo.Docx.Blocks

/-! # Response documents

The typed records of `protocol.py` and the validation shared by the decoder, the store and
the context builder. -/

namespace Oveo.Protocol

open Oveo.Lib Oveo.Docx

/-- Which base text an exact replacement works on; part of three error codes. -/
inductive AnchorLabel where
  | source
  | output
deriving DecidableEq, Repr

/-- The codes a `ProtocolError` carries. -/
inductive ProtocolCode where
  | invalidJsonNumber
  | duplicateJsonKey
  | invalidJson
  | eventNotObject
  | invalidUnicode
  | invalidEventFields
  | invalidBaseVersion
  | invalidStateText
  | invalidStateBrief
  | stateBriefTooLarge
  | invalidBlockCount
  | invalidBlockType
  | emptyBlock
  | responseTooLarge
  | invalidBlockOrder
  | unsupportedVersion
  | invalidBlocks
  | dataAfterResponseEnd
  | invalidUtf8
  | incompleteResponse
  | missingState
  | eventTooLarge
  | blankLine
  | invalidEvent
  | duplicateState
  | eventAfterState
  | duplicateResponseStart
  | missingResponseStart
  | interleavedBlocks
  | invalidBlockId
  | deltaWithoutActiveBlock
  | emptyDelta
  | endWithoutActiveBlock
  | stateWithOpenBlock
  | invalidStateForConversation
  | responseEndedWithOpenBlock
  | unknownEvent
  | invalidStateOperation
  | invalidReplacementCount
  | invalidReplacement
  | invalidReplacementFields
  | duplicateReplacementAnchor
  | stateTooLarge
  | invalidAppendSeparator
  | stateInvalidPurpose
  | invalidHandoffResponse
  | stateThreadMissing
  | stateDocxTemplateMissing
  | stateDocxTemplateOutdated
  | stateDocxTemplateInvalid
  | stateDocxBlocksMissing
  | stateDocxBlocksUnexpected
  | stateDocxSourceMismatch
  | stateDocxOutputMismatch
  | stateDocxBaseInvalid
  | stateDocxRequiresEstablish
  | stateDocxAppendUnsupported
  | stateSourceMissing
  | stateSourceWordLimit
  | stateBaseMissing
  | stateBaseMismatch
  | stateOutputAdditionMissing
  | stateDeliverableMismatch
  | stateDeliverableCountMismatch
  | stateMissingAnchor (label : AnchorLabel)
  | stateAmbiguousAnchor (label : AnchorLabel)
  | stateOverlappingAnchors (label : AnchorLabel)
  | invalidCanonicalState
  /-- The code of a `DocxError`, passed on unchanged. -/
  | docx (code : DocxCode)
deriving DecidableEq, Repr

inductive BlockType where
  | conversation
  | deliverable
  | advice
deriving DecidableEq, Repr

/-- `_BLOCK_TYPES`, by name. -/
def BlockType.ofName? (name : Str) : Option BlockType :=
  if name == str "conversation" then some .conversation
  else if name == str "deliverable" then some .deliverable
  else if name == str "advice" then some .advice
  else none

def BlockType.name : BlockType → Str
  | .conversation => str "conversation"
  | .deliverable => str "deliverable"
  | .advice => str "advice"

@[simp] theorem BlockType.ofName?_name (type : BlockType) : ofName? type.name = some type := by
  cases type <;> decide

structure ContentBlock where
  type : BlockType
  text : Str
deriving DecidableEq, Repr

inductive AppendSeparator where
  | none
  | space
  | line
  | paragraph
deriving DecidableEq, Repr

structure DocxBlockReplacement where
  id : Str
  text : Str
deriving DecidableEq, Repr

/-- A `brief`: a JSON object. -/
abbrev Brief := List (Str × Json)

structure EstablishState where
  brief : Brief
  source : Option Str
  docxBlocks : Option (List DocxBlockReplacement)

structure AppendState where
  baseVersion : Nat
  sourceAddition : Str
  sourceSeparator : AppendSeparator
  outputSeparator : AppendSeparator
  outputAddition : Option Str
  brief : Option Brief

inductive ExactReplacement where
  | sourceOutput (sourceAnchor sourceReplacement outputAnchor outputReplacement : Str)
  | output (outputAnchor outputReplacement : Str)
deriving DecidableEq, Repr

structure ReplaceState where
  baseVersion : Nat
  replacements : List ExactReplacement
  brief : Option Brief
  docxBlocks : Option (List DocxBlockReplacement)

structure FullState where
  baseVersion : Nat
  source : Option Str
  brief : Option Brief
  docxBlocks : Option (List DocxBlockReplacement)

inductive StateOperation where
  | none
  | establish (state : EstablishState)
  | append (state : AppendState)
  | replace (state : ReplaceState)
  | full (state : FullState)

def StateOperation.isNone : StateOperation → Bool
  | .none => true
  | _ => false

/-- `getattr(state, "docx_blocks", None)`. -/
def StateOperation.docxBlocks : StateOperation → Option (List DocxBlockReplacement)
  | .none | .append _ => Option.none
  | .establish state => state.docxBlocks
  | .replace state => state.docxBlocks
  | .full state => state.docxBlocks

/-- A decoded response; its version is always 1. -/
structure ProtocolDocument where
  blocks : List ContentBlock
  state : StateOperation

def ContentBlock.toStorage (block : ContentBlock) : Json :=
  .obj [(str "type", .str block.type.name), (str "text", .str block.text)]

def ProtocolDocument.toStorage (document : ProtocolDocument) : List (Str × Json) :=
  [(str "version", .int 1), (str "blocks", .arr (document.blocks.map ContentBlock.toStorage))]

/-! ## Content blocks -/

/-- What a caller may hand to `validate_content_blocks` for one block. -/
inductive BlockCandidate where
  | block (value : ContentBlock)
  | mapping (members : List (Str × Json))

def BlockCandidate.toBlock : BlockCandidate → Except ProtocolCode ContentBlock
  | .block value => .ok value
  | .mapping members =>
    if !Json.hasExactKeys members [str "type", str "text"] then .error .invalidEventFields
    else
      match Json.get? members (str "type") with
      | some (.str name) =>
        match BlockType.ofName? name with
        | none => .error .invalidBlockType
        | some type =>
          match Json.get? members (str "text") with
          | some (.str text) => if isBlank text then .error .emptyBlock else .ok ⟨type, text⟩
          | _ => .error .emptyBlock
      | _ => .error .invalidBlockType

/-- The loop of `validate_content_blocks` over the candidates, with the characters so far. -/
def collectBlocks (maxTextChars : Nat) : Nat → List BlockCandidate → Except ProtocolCode (List ContentBlock)
  | _, [] => .ok []
  | totalChars, candidate :: candidates => do
    let block ← candidate.toBlock
    if isBlank block.text then throw .emptyBlock
    let totalChars := totalChars + block.text.length
    if maxTextChars < totalChars then throw .responseTooLarge
    let validated ← collectBlocks maxTextChars totalChars candidates
    return block :: validated

/-- The second loop: deliverables, then at most one advice. -/
def checkOrder (adviceSeen : Bool) : List BlockType → Except ProtocolCode Unit
  | [] => .ok ()
  | .conversation :: _ => .error .invalidBlockOrder
  | .advice :: types => if adviceSeen then .error .invalidBlockOrder else checkOrder true types
  | .deliverable :: types => if adviceSeen then .error .invalidBlockOrder else checkOrder adviceSeen types

def validateContentBlocks (blocks : List BlockCandidate) (maxBlocks maxTextChars : Nat) :
    Except ProtocolCode (List ContentBlock) :=
  if blocks.isEmpty || maxBlocks < blocks.length then .error .invalidBlockCount
  else do
    let validated ← collectBlocks maxTextChars 0 blocks
    let types := validated.map ContentBlock.type
    if types = [.conversation] then return validated
    if types.head? ≠ some .deliverable then throw .invalidBlockOrder
    checkOrder false types
    return validated

def defaultMaxBlocks : Nat := 16

def defaultMaxTextChars : Nat := 2000000

/-- `isinstance(block, dict)` for every stored block. -/
def storedMappings : List Json → Except ProtocolCode (List BlockCandidate)
  | [] => .ok []
  | .obj members :: values => do
    let mappings ← storedMappings values
    return .mapping members :: mappings
  | _ :: _ => .error .invalidBlocks

end Oveo.Protocol
