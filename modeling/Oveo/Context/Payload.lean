import Oveo.Context.Instructions
import Oveo.Lib.JsonSafe

/-! # Payloads of the prompt envelopes

What the rows of a request become as JSON, and the text between the two delimiters that the model gets.
The system messages around it are fixed texts of the application. -/

namespace Oveo.Context

open Oveo.Lib Oveo.Docx Oveo.Protocol Oveo.Store Oveo.Work

/-! ## Payloads -/

def roleName : Role → Str
  | .user => str "user"
  | .assistant => str "assistant"

def attachmentRoleName : AttachmentRole → Str
  | .source => str "source"
  | .reference => str "reference"

def operationName : Operation → Str
  | .establish => str "establish"
  | .append => str "append"
  | .replace => str "replace"
  | .full => str "full"

/-- A value that may be missing. -/
def optionalJson {α : Type} (toJson : α → Json) : Option α → Json
  | none => .null
  | some value => toJson value

def blocksPayload (blocks : List DocxBlock) : Json := .arr (blocks.map DocxBlock.toModel)

/-- `_attachment_payload`. -/
def attachmentPayload (attachment : AttachmentDocument) : Json :=
  .obj [
    (str "format", .str (str "docx")),
    (str "role", .str (attachmentRoleName attachment.role)),
    (str "blocks", blocksPayload attachment.documentBlocks),
    (str "word_count", .int attachment.wordCount)]

/-- `_canonical_payload` of a version. -/
def canonicalPayload (state : WorkVersion) : Json :=
  let docxBlocks : List (Str × Json) :=
    match state.docxTemplateAttachmentId, state.docxBlocks with
    | some _, some blocks => [(str "docx_blocks", .arr (blocks.map DocxReplacement.toStorage))]
    | _, _ => []
  .obj [
    (str "application_state", .obj [
      (str "version", .int state.versionNo),
      (str "source_word_count", .int state.sourceWordCount),
      (str "last_operation", .str (operationName state.operation))]),
    (str "document_data", .obj ([
      (str "source", .str state.sourceText),
      (str "output", .str state.outputText),
      (str "brief", .obj state.brief)] ++ docxBlocks))]

def contentPayload (block : ContentBlock) : Json :=
  .obj [(str "type", .str block.type.name), (str "text", .str block.text)]

/-- The entry of `_transcript_entry`, with the date its message was written. -/
def entryPayload (dateOf : Nat → Option Str) (entry : TranscriptEntry) : Json :=
  .obj ([
    (str "ordinal", .int entry.ordinal),
    (str "role", .str (roleName entry.role)),
    (str "actor", .str entry.actor),
    (str "content", .arr (entry.content.map contentPayload))] ++
    (entry.attachment.toList.map fun attachment => (str "attachment", attachmentPayload attachment)) ++
    (dateOf entry.ordinal).toList.map fun date => (str "date", .str date))

/-- The payload of `_untrusted_envelope`. -/
def untrustedPayload (dateOf : Nat → Option Str) (envelope : Envelope) : Json :=
  .obj [
    (str "schema_version", .int 1),
    (str "context_summary", optionalJson Json.str envelope.summary.contextSummary),
    (str "summary_through_ordinal", optionalJson (fun through : Nat => .int through) envelope.summary.throughOrdinal),
    (str "active_canonical_work", optionalJson canonicalPayload envelope.activeCanonicalWork),
    (str "active_reference_document", optionalJson attachmentPayload envelope.activeReferenceDocument),
    (str "recent_transcript", .arr (envelope.recentTranscript.map (entryPayload dateOf)))]

/-- An entry of `_user_instruction_envelope`. -/
def instructionPayload (instruction : UserInstruction) : Json :=
  .obj ((str "text_parts", .arr (instruction.textParts.map Json.str)) ::
    instruction.attachment.toList.map fun attachment =>
      (str "attachment", .obj [
        (str "role", .str (attachmentRoleName attachment.1)),
        (str "blocks", blocksPayload attachment.2)]))

def instructionsPayload (instructions : List UserInstruction) : Json :=
  .obj [(str "user_messages", .arr (instructions.map instructionPayload))]

def extractsPayload (batches : List Str) : Json := .obj [(str "user_instruction_extracts", .arr (batches.map Json.str))]

/-! ## Envelopes -/

inductive PayloadError where
  /-- `context contains non-serializable data`: an integer of too many digits. -/
  | nonSerializable
  /-- A `RecursionError`. -/
  | tooDeep
  /-- `handoff instruction batches must be non-empty`. -/
  | emptyBatches
deriving DecidableEq, Repr

def untrustedContextBegin : Str := str "<OVEO_UNTRUSTED_DATA_V1>"

def untrustedContextEnd : Str := str "</OVEO_UNTRUSTED_DATA_V1>"

section

variable (runtime : Json.Runtime)

/-- `_safe_json`. -/
def safeJson (value : Json) : Except PayloadError Str :=
  if Json.nesting value > runtime.maxDepth then .error .tooDeep
  else if !Json.allValues Json.isShort value then .error .nonSerializable
  else .ok (Json.escapeAngles (Json.dumps runtime (Json.sortKeys value)))

/-- A serialized payload between its delimiters. -/
def delimited (serialized : Str) : Str := untrustedContextBegin ++ str "\n" ++ serialized ++ str "\n" ++ untrustedContextEnd

/-- `_untrusted_envelope`, from the entries of its transcript on. -/
def untrustedEnvelope (dateOf : Nat → Option Str) (envelope : Envelope) : Except PayloadError Str :=
  (safeJson runtime (untrustedPayload dateOf envelope)).map delimited

/-- `_user_instruction_envelope`, from its entries on. -/
def userInstructionEnvelope (instructions : List UserInstruction) : Except PayloadError Str :=
  (safeJson runtime (instructionsPayload instructions)).map delimited

/-- The user message of `build_handoff_merge_messages`. -/
def handoffMergeMessage (batches : List Str) : Except PayloadError Str :=
  if batches.isEmpty || batches.any isBlank then .error .emptyBatches
  else (safeJson runtime (extractsPayload batches)).map delimited

end

end Oveo.Context
