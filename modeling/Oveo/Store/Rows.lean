import Oveo.Protocol.Document

/-! # Database rows

The tables of `models.py` with the columns the modelled functions read or write, and the
constraints SQLite enforces on them.  A new row's id is `new_id()`, a random UUID, so the
model takes ids as given and only ever assumes that a newly drawn one is unused. -/

namespace Oveo.Store

open Oveo.Lib Oveo.Docx Oveo.Protocol

abbrev Id := Nat

inductive Mode where
  | translate
  | revision
  | internalComms
deriving DecidableEq, Repr

inductive Role where
  | user
  | assistant
deriving DecidableEq, Repr

inductive AttachmentRole where
  | source
  | reference
deriving DecidableEq, Repr

inductive Status where
  | queued
  | running
  | stopping
  | completed
  | failed
  | stopped
deriving DecidableEq, Repr

/-- `ACTIVE_GENERATION_STATUSES`. -/
def activeGenerationStatuses : List Status := [.queued, .running, .stopping]

/-- `_TERMINAL`. -/
def terminalStatuses : List Status := [.completed, .failed, .stopped]

def Status.isActive (status : Status) : Bool := activeGenerationStatuses.contains status

def Status.isTerminal (status : Status) : Bool := terminalStatuses.contains status

theorem Status.isActive_eq_not_isTerminal (status : Status) : status.isActive = !status.isTerminal := by
  cases status <;> decide

/-- The purposes of the generation rows the application inserts. -/
inductive Purpose where
  | chat
  | promptHandoff
deriving DecidableEq, Repr

/-- The codes of `_ERROR_MESSAGES`, which `error_code` holds. -/
inductive ErrorCode where
  | providerNotConfigured
  | providerMisconfigured
  | providerNetwork
  | providerTransient
  | providerRejected
  | providerStreamError
  | providerTimeout
  | providerContentFiltered
  | responseTooLong
  | protocolError
  | staleState
  | statePersistenceFailed
  | docxTemplateOutdated
  | attachmentUnavailable
  | attachmentUnreadable
  | contextUnavailable
  | contextCompactionFailed
  | handoffTurnTooLarge
  | restartInterrupted
  | generationInterrupted
  | contextBudgetExceeded
  | providerError
deriving DecidableEq, Repr

/-- `_NOT_RETRYABLE_CODES`. -/
def notRetryableCodes : List ErrorCode := [.attachmentUnavailable, .contextUnavailable]

structure Thread where
  id : Id
  ownerId : Id
  mode : Mode
deriving DecidableEq, Repr

structure Message where
  id : Id
  threadId : Id
  ordinal : Nat
  role : Role
  actorUserId : Option Id
  content : List ContentBlock
deriving DecidableEq, Repr

structure Attachment where
  id : Id
  messageId : Id
  role : AttachmentRole
  documentBlocks : Json
  wordCount : Nat

structure Generation where
  id : Id
  threadId : Option Id
  requesterId : Id
  sourceMessageId : Option Id
  resultMessageId : Option Id
  retryOfGenerationId : Option Id
  clientRequestId : Id
  purpose : Purpose
  status : Status
  partialBlocks : List ContentBlock
  streamRevision : Nat
  errorCode : Option ErrorCode
  createdAt : Nat
deriving DecidableEq, Repr

inductive WorkKind where
  | translation
  | revision
  | draft
deriving DecidableEq, Repr

/-- `_WORK_KINDS`. -/
def workKinds : Mode → WorkKind
  | .translate => .translation
  | .revision => .revision
  | .internalComms => .draft

structure WorkItem where
  id : Id
  threadId : Id
  kind : WorkKind
  active : Bool
deriving DecidableEq, Repr

inductive Operation where
  | establish
  | append
  | replace
  | full
deriving DecidableEq, Repr

structure WorkVersion where
  id : Id
  workItemId : Id
  versionNo : Nat
  parentVersionId : Option Id
  causeMessageId : Option Id
  operation : Operation
  sourceText : Str
  outputText : Str
  sourceWordCount : Nat
  brief : Brief
  docxTemplateAttachmentId : Option Id
  docxBlocks : Option (List DocxReplacement)

structure Db where
  threads : List Thread
  messages : List Message
  attachments : List Attachment
  generations : List Generation
  workItems : List WorkItem
  workVersions : List WorkVersion

namespace Db

def empty : Db :=
  { threads := [], messages := [], attachments := [], generations := [], workItems := [],
    workVersions := [] }

def thread? (db : Db) (id : Id) : Option Thread := db.threads.find? fun thread => thread.id == id

def message? (db : Db) (id : Id) : Option Message := db.messages.find? fun message => message.id == id

def attachment? (db : Db) (id : Id) : Option Attachment :=
  db.attachments.find? fun attachment => attachment.id == id

def generation? (db : Db) (id : Id) : Option Generation :=
  db.generations.find? fun generation => generation.id == id

/-- `select(Attachment).where(Attachment.message_id == message_id)`. -/
def attachmentOf? (db : Db) (messageId : Id) : Option Attachment :=
  db.attachments.find? fun attachment => attachment.messageId == messageId

/-- `func.coalesce(func.max(Message.ordinal), 0)` over one thread. -/
def maxOrdinal (db : Db) (threadId : Id) : Nat :=
  ((db.messages.filter fun message => message.threadId == threadId).map Message.ordinal).foldl max 0

end Db

end Oveo.Store
