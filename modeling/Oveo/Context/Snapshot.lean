import Mathlib.Data.List.Sort
import Oveo.Protocol.Content
import Oveo.Work.Apply

/-! # What a request tells the model

`_request_snapshot` and the envelope `build_provider_messages` puts its rows in.  How the envelope is
serialized, and the fixed prompts around it, do not matter to what it holds. -/

namespace Oveo.Context

open Oveo.Lib Oveo.Docx Oveo.Protocol Oveo.Store Oveo.Work

/-- The purposes `_request_snapshot` is called with for an envelope of the conversation. -/
inductive ContextPurpose where
  | chat
  | summary
deriving DecidableEq, Repr

structure AttachmentDocument where
  wordCount : Nat
  documentBlocks : List DocxBlock
  role : AttachmentRole
deriving DecidableEq, Repr

/-- What a request fails with before it is sent. -/
inductive ContextError where
  /-- `persisted message contains invalid content blocks`. -/
  | invalidContent (code : ProtocolCode)
  /-- `assistant message must not have a user actor`. -/
  | assistantActor
  /-- `user message is missing its true actor`. -/
  | actorMissing
  /-- `user message actor label is unavailable`. -/
  | actorUnlabelled
  /-- `recent message belongs to a different thread`. -/
  | otherThread
  /-- `recent transcript contains a duplicate ordinal`. -/
  | duplicateOrdinal
  /-- The `attachment_unavailable` and `attachment_unreadable` of `_attachment_document`. -/
  | attachmentUnavailable
deriving DecidableEq, Repr

structure TranscriptEntry where
  ordinal : Nat
  role : Role
  actor : Str
  content : List ContentBlock
  attachment : Option AttachmentDocument
deriving DecidableEq, Repr

/-- `context_summary` and `summary_through_ordinal` of a thread. -/
structure Summary where
  contextSummary : Option Str
  throughOrdinal : Option Nat
deriving DecidableEq, Repr

def Summary.empty : Summary := ⟨none, none⟩

/-- `summary_through_ordinal or 0`. -/
def Summary.through (summary : Summary) : Nat := summary.throughOrdinal.getD 0

/-- The lower bound of a request that may have one of its own. -/
def Summary.after (summary : Summary) (afterOrdinal : Option Nat) : Option Nat :=
  match summary.throughOrdinal with
  | some through => some (max (afterOrdinal.getD 0) through)
  | none => afterOrdinal

structure Envelope where
  summary : Summary
  activeCanonicalWork : Option WorkVersion
  activeReferenceDocument : Option AttachmentDocument
  recentTranscript : List TranscriptEntry

structure RequestSnapshot where
  mode : Mode
  purpose : ContextPurpose
  envelope : Envelope

/-- What a request reads outside the tables. -/
structure Surroundings where
  /-- The display names of the users. -/
  labels : Id → Option Str
  /-- Is the file of this attachment there, and the one that was uploaded? -/
  intact : Id → Bool

/-! ## Transcript entries -/

/-- The stored content of a message, as `validate_content_blocks` gets it. -/
def storedCandidates (content : List ContentBlock) : List BlockCandidate :=
  content.map fun block => .mapping [(str "type", .str block.type.name), (str "text", .str block.text)]

/-- The blocks of `_transcript_entry`. -/
def transcriptBlocks (message : Message) : Except ContextError (List ContentBlock) :=
  if message.content.isEmpty ∧ message.role = .user then .ok []
  else
    match validateContentBlocks (storedCandidates message.content) defaultMaxBlocks defaultMaxTextChars with
    | .ok blocks => .ok blocks
    | .error code => .error (.invalidContent code)

/-- The actor of `_transcript_entry`. -/
def transcriptActor (surroundings : Surroundings) (message : Message) : Except ContextError Str :=
  match message.role, message.actorUserId with
  | .assistant, none => .ok (str "Oveo")
  | .assistant, some _ => .error .assistantActor
  | .user, none => .error .actorMissing
  | .user, some userId =>
    let actor := strip ((surroundings.labels userId).getD [])
    if actor.isEmpty then .error .actorUnlabelled else .ok actor

/-- `_transcript_entry`. -/
def transcriptEntry (surroundings : Surroundings) (message : Message) (attachment : Option AttachmentDocument) :
    Except ContextError TranscriptEntry := do
  let content ← transcriptBlocks message
  let actor ← transcriptActor surroundings message
  return { ordinal := message.ordinal, role := message.role, actor, content, attachment }

/-- The loop of `_untrusted_envelope`. -/
def collectTranscript (surroundings : Surroundings) (threadId : Id) (through : Nat) (attachments : Id → Option AttachmentDocument) :
    List Nat → List Message → Except ContextError (List TranscriptEntry)
  | _, [] => .ok []
  | seen, message :: messages =>
    if message.threadId ≠ threadId then .error .otherThread
    else if message.ordinal ∈ seen then .error .duplicateOrdinal
    else if message.ordinal ≤ through then collectTranscript surroundings threadId through attachments (message.ordinal :: seen) messages
    else do
      let entry ← transcriptEntry surroundings message (attachments message.id)
      let entries ← collectTranscript surroundings threadId through attachments (message.ordinal :: seen) messages
      return entry :: entries

/-! ## Rows -/

/-- `ORDER BY ordinal`. -/
def byOrdinal (messages : List Message) : List Message := messages.insertionSort fun first second => first.ordinal ≤ second.ordinal

/-- Is the ordinal above one bound and up to the other? -/
def isWithin (afterOrdinal throughOrdinal : Option Nat) (ordinal : Nat) : Bool :=
  afterOrdinal.all (fun after => decide (after < ordinal)) && throughOrdinal.all fun through => decide (ordinal ≤ through)

/-- The message rows of a request. -/
def selectMessages (db : Db) (threadId : Id) (afterOrdinal throughOrdinal : Option Nat) : List Message :=
  byOrdinal (db.messages.filter fun message =>
    message.threadId == threadId && isWithin afterOrdinal throughOrdinal message.ordinal)

/-- `_attachment_document`. -/
def attachmentDocument (surroundings : Surroundings) (attachment : Attachment) : Except ContextError AttachmentDocument :=
  if surroundings.intact attachment.id then
    match docxBlocksFromStorage attachment.documentBlocks with
    | .ok documentBlocks => .ok { wordCount := attachment.wordCount, documentBlocks, role := attachment.role }
    | .error _ => .error .attachmentUnavailable
  else .error .attachmentUnavailable

/-- The source documents of some messages, by message id. -/
def sourceDocuments (surroundings : Surroundings) (db : Db) : List Message → Except ContextError (List (Id × AttachmentDocument))
  | [] => .ok []
  | message :: messages =>
    match (db.attachmentOf? message.id).filter fun attachment => attachment.role == .source with
    | none => sourceDocuments surroundings db messages
    | some attachment => do
      let document ← attachmentDocument surroundings attachment
      let documents ← sourceDocuments surroundings db messages
      return (message.id, document) :: documents

/-- The latest reference attachment of a thread. -/
def activeReference? (db : Db) (threadId : Id) : Option Attachment :=
  (byOrdinal (db.messages.filter fun message => message.threadId == threadId)).reverse.findSome? fun message =>
    (db.attachmentOf? message.id).filter fun attachment => attachment.role == .reference

/-- The document of the latest reference attachment, which only a chat request has. -/
def activeReferenceDocument (surroundings : Surroundings) (db : Db) (threadId : Id) (purpose : ContextPurpose) :
    Except ContextError (Option AttachmentDocument) :=
  match purpose, activeReference? db threadId with
  | .chat, some attachment => (attachmentDocument surroundings attachment).map some
  | _, _ => .ok none

/-- `_request_snapshot`. -/
def requestSnapshot (surroundings : Surroundings) (db : Db) (thread : Thread) (summary : Summary) (purpose : ContextPurpose)
    (afterOrdinal throughOrdinal : Option Nat) : Except ContextError RequestSnapshot := do
  let messages := selectMessages db thread.id (summary.after afterOrdinal) throughOrdinal
  let documents ← sourceDocuments surroundings db messages
  let activeReferenceDocument ← activeReferenceDocument surroundings db thread.id purpose
  let recentTranscript ← collectTranscript surroundings thread.id summary.through
    (fun id => (documents.find? fun entry => entry.1 == id).map Prod.snd) [] messages
  return {
    mode := thread.mode
    purpose
    envelope := {
      summary
      activeCanonicalWork := latestWorkVersion? db thread.id
      activeReferenceDocument
      recentTranscript } }

end Oveo.Context
