import Oveo.Lib.Utf8
import Oveo.Lifecycle.System
import Oveo.Lifecycle.Tables

/-! # Submitting a turn

What `submit_turn` checks of a message before its rows are inserted, and the message it stores.  The
tokenizer and its worker are a parameter. -/

namespace Oveo.Lifecycle

open Oveo.Lib Oveo.Docx Oveo.Protocol Oveo.Store Oveo.Work

/-- The settings of a submission, with the bounds `config.py` puts on `chat_max_completion_tokens`. -/
structure TurnSettings extends Settings where
  chatMaxCompletionTokens : Nat := 32000
  completion_min : 1000 ≤ chatMaxCompletionTokens := by decide
  completion_max : chatMaxCompletionTokens ≤ 128000 := by decide

structure ValidatedAttachment where
  wordCount : Nat
  documentBlocks : List DocxBlock
  plainText : Str

/-- The arguments of `submit_turn`. -/
structure Turn where
  requesterId : Id
  clientRequestId : Str
  text : Str
  attachment : Option ValidatedAttachment
  attachmentRole : AttachmentRole
  threadId : Option Id
  ownerId : Option Id
  mode : Option Mode

/-- How a turn is refused. -/
inductive TurnError where
  | emptyMessage
  | invalidAttachmentRole
  | invalidRequestId
  /-- `.encode()` raises. -/
  | unencodable
  | serverBusy
  | responseBudgetExceeded (required limit : Nat)
  | insert (error : CallError)
deriving DecidableEq, Repr

/-! ## The response budget -/

/-- `_DELTA_FRAMING_TOKENS`. -/
def deltaFramingTokens : Nat := 18

/-- `_DELTA_CHARS`. -/
def deltaChars : Nat := 600

/-- `_STATE_FRAMING_TOKENS`. -/
def stateFramingTokens : Nat := 100

/-- `_DOCX_BLOCK_FRAMING_TOKENS`. -/
def docxBlockFramingTokens : Nat := 11

/-- The deliverable and the state copy a turn makes mandatory, and the framing of its blocks. -/
def mandatoryResponse (text : Str) (attachment : Option ValidatedAttachment) (role : AttachmentRole) : Option (Str × Str × Nat) :=
  match attachment, role with
  | some attachment, .source =>
    let joined := joinParagraphs (attachment.documentBlocks.map DocxBlock.text)
    some (if attachment.plainText.isEmpty then joined else attachment.plainText, joined,
      docxBlockFramingTokens * attachment.documentBlocks.length)
  | _, _ => if text.isEmpty then none else some (text, text, 0)

/-- `_check_response_budget`; `countPair` is `none` while the worker is busy. -/
def checkResponseBudget (settings : TurnSettings) (countPair : Str → Str → Option (Nat × Nat)) (text : Str)
    (attachment : Option ValidatedAttachment) (role : AttachmentRole) : Except TurnError Unit :=
  match mandatoryResponse text attachment role with
  | none => .ok ()
  | some (deliverable, stateCopy, blockFraming) =>
    let limit := settings.chatMaxCompletionTokens
    let framing := blockFraming + (stateFramingTokens + deltaFramingTokens * (deliverable.length / deltaChars + 1))
    if deliverable.any isSurrogate || stateCopy.any isSurrogate then .error .unencodable
    else if utf8Size deliverable + utf8Size stateCopy + framing ≤ limit then .ok ()
    else
      match countPair deliverable stateCopy with
      | none => .error .serverBusy
      | some (deliverableTokens, stateTokens) =>
        let required := deliverableTokens + stateTokens + framing
        if required ≤ limit then .ok () else .error (.responseBudgetExceeded required limit)

/-! ## Turns -/

/-- The checks of `_submit_turn`. -/
def checkTurn (settings : TurnSettings) (countPair : Str → Str → Option (Nat × Nat)) (turn : Turn) : Except TurnError Unit :=
  if (strip turn.text).isEmpty ∧ turn.attachment.isNone then .error .emptyMessage
  else if turn.attachment.isNone ∧ turn.attachmentRole ≠ .source then .error .invalidAttachmentRole
  else if turn.clientRequestId.isEmpty ∨ 100 < turn.clientRequestId.length then .error .invalidRequestId
  else checkResponseBudget settings countPair (strip turn.text) turn.attachment turn.attachmentRole

/-- What the rows of a turn are made of. -/
def Turn.content (turn : Turn) : TurnContent where
  text := turn.text
  attachment := turn.attachment.map fun attachment =>
    { role := turn.attachmentRole
      documentBlocks := .arr (attachment.documentBlocks.map DocxBlock.toModel)
      wordCount := attachment.wordCount }

/-- The call that submits a turn, under the key its client request id stands for. -/
def Turn.call (turn : Turn) (clientRequestKey : Id) (ids : SubmissionIds) : Call where
  ids
  requesterId := turn.requesterId
  clientRequestId := clientRequestKey
  request := .turn turn.threadId turn.ownerId turn.mode turn.content
  phase := .entered

/-- `_submit_turn` of a turn with a new key, on one state of the database: the user message it inserts. -/
def submitTurn (settings : TurnSettings) (countPair : Str → Str → Option (Nat × Nat)) (db : Db) (clientRequestKey : Id)
    (ids : SubmissionIds) (turn : Turn) : Except TurnError Message := do
  checkTurn settings countPair turn
  let plan ← (turnPlan db (turn.call clientRequestKey ids) turn.threadId turn.ownerId turn.mode turn.content).mapError .insert
  (checkWords settings.toSettings db plan.threadId turn.content).mapError .insert
  return turnMessage db turn.requesterId ids plan.threadId turn.content

end Oveo.Lifecycle
