import Oveo.Work.Apply

/-! # The write transactions of the generation manager

Every function here is what one database transaction of `generation.py` does to the tables,
from the statement that takes SQLite's write lock to its commit. -/

namespace Oveo.Lifecycle

open Oveo.Lib Oveo.Docx Oveo.Protocol Oveo.Store Oveo.Work

/-! ## Compare-and-set -/

/-- Does the `WHERE` clause of `_transition` match this row? -/
def matchesTransition (id : Id) (allowed : List Status) (row : Generation) : Bool :=
  row.id == id && allowed.contains row.status

/-- The columns a transition sets besides `status` and `stream_revision`. -/
structure Values where
  errorCode : Option (Option ErrorCode) := none
  partialBlocks : Option (List ContentBlock) := none

def setStatus (status : Status) (values : Values) (row : Generation) : Generation :=
  { row with
    status
    streamRevision := row.streamRevision + 1
    errorCode := values.errorCode.getD row.errorCode
    partialBlocks := values.partialBlocks.getD row.partialBlocks }

/-- `_transition`: the rows after one conditional update, and whether it matched a row. -/
def transition (db : Db) (id : Id) (allowed : List Status) (status : Status) (values : Values) :
    Db × Bool :=
  ({ db with generations := db.generations.map fun row =>
      if matchesTransition id allowed row then setStatus status values row else row },
    db.generations.any (matchesTransition id allowed))

/-! ## The run of one generation -/

/-- `_set_running`. -/
def setRunning (db : Db) (id : Id) : Db :=
  (transition db id [.queued] .running {}).1

/-- The transaction of `stop`. -/
def stopRequested (db : Db) (id : Id) : Db :=
  (transition db id [.queued, .running] .stopping {}).1

/-- `_finish_stopped`. -/
def finishStopped (db : Db) (id : Id) : Db :=
  (transition db id activeGenerationStatuses .stopped { errorCode := some none, partialBlocks := some [] }).1

/-- `_fail`: a pending Stop wins over a late failure. -/
def fail (db : Db) (id : Id) (code : ErrorCode) (blocks : List ContentBlock) : Db :=
  match transition db id [.queued, .running] .failed
    { errorCode := some (some code), partialBlocks := some blocks } with
  | (failed, true) => failed
  | (_, false) =>
    (transition db id [.stopping] .stopped { errorCode := some none, partialBlocks := some [] }).1

/-- `_insert_message`: the ordinal is allocated by the insert itself. -/
def insertMessage (db : Db) (id threadId : Id) (role : Role) (actorUserId : Option Id)
    (content : List ContentBlock) : Db :=
  { db with messages := db.messages ++
      [{ id, threadId, ordinal := db.maxOrdinal threadId + 1, role, actorUserId, content }] }

/-- `HANDOFF_SENTINEL`. -/
def handoffSentinel : Str := str "OVEO_HANDOFF_TEXT_MUST_BE_REPLACED_V1"

/-- Is this the one deliverable block a handoff response must be? -/
def isHandoffResponse : List ContentBlock → Bool
  | [block] => block.type == .deliverable && !occursIn handoffSentinel block.text
  | _ => false

/-- `_REPAIRABLE_STATE_CODES`. -/
def repairableStateCodes : List ProtocolCode :=
  [.stateDeliverableCountMismatch, .stateDeliverableMismatch, .stateSourceMissing,
   .stateDocxSourceMismatch, .stateDocxOutputMismatch, .stateOutputAdditionMissing,
   .stateMissingAnchor .output, .stateMissingAnchor .source, .stateAmbiguousAnchor .output,
   .stateAmbiguousAnchor .source, .stateOverlappingAnchors .output, .stateOverlappingAnchors .source,
   .docx .invalidDocxBlocks, .docx .invalidDocxHyperlinks, .docx .invalidDocxText,
   .stateDocxBlocksMissing, .stateDocxBlocksUnexpected, .stateDocxAppendUnsupported,
   .stateDocxRequiresEstablish, .invalidCanonicalState]

/-- What a commit raises; its transaction is then rolled back. -/
inductive CommitError where
  | protocolError (code : ProtocolCode)
  | staleState
  | statePersistence
deriving DecidableEq, Repr

/-- The `except` clauses around `_apply_state_operation`. -/
def commitErrorOf (code : ProtocolCode) : CommitError :=
  if repairableStateCodes.contains code then .protocolError code
  else if code = .stateBaseMissing ∨ code = .stateBaseMismatch then .staleState
  else .statePersistence

/-- The ids `new_id()` gives the rows of one answer. -/
structure AnswerIds where
  messageId : Id
  work : FreshIds

/-- An answer as its transaction committed it. -/
structure Answer where
  generationId : Id
  messageId : Id
  state : StateOperation
  versionId : Id

def setResultMessage (db : Db) (id messageId : Id) : Db :=
  { db with generations := db.generations.map fun row =>
      if row.id = id then { row with resultMessageId := some messageId } else row }

/-- `_commit_success_once`: `none` when the claim of the row failed and nothing is written,
otherwise the tables after the commit and the chat answer it added, if it added one. -/
def commitSuccessOnce (settings : Settings) (db : Db) (id : Id) (document : ProtocolDocument)
    (templates : Templates) (ids : AnswerIds) : Except CommitError (Option (Db × Option Answer)) :=
  match transition db id [.running] .completed { partialBlocks := some document.blocks } with
  | (_, false) => .ok none
  | (claimed, true) =>
    match claimed.generation? id with
    | none => .ok none
    | some generation => do
      if generation.purpose ≠ .chat ∧ !document.state.isNone then
        throw (.protocolError .stateInvalidPurpose)
      if generation.purpose = .promptHandoff ∧ !isHandoffResponse document.blocks then
        throw (.protocolError .invalidHandoffResponse)
      match generation.purpose, generation.threadId with
      | .chat, some threadId =>
        match claimed.thread? threadId with
        | none => throw (.protocolError .stateThreadMissing)
        | some thread =>
          let answered := insertMessage claimed ids.messageId thread.id .assistant none document.blocks
          match applyStateOperation settings answered generation thread document templates ids.work with
          | .error code => throw (commitErrorOf code)
          | .ok applied =>
            return some (setResultMessage applied id ids.messageId,
              some { generationId := id, messageId := ids.messageId, state := document.state,
                     versionId := ids.work.versionId })
      | _, _ => return some (claimed, none)

/-! ## Recovery -/

/-- Finish one active row that no live task owns, from the status it was read with. -/
def finalizeOrphan (db : Db) (id : Id) (status : Status) : Db :=
  if status = .stopping then
    (transition db id [.stopping] .stopped { errorCode := some none, partialBlocks := some [] }).1
  else
    (transition db id [.queued, .running] .failed
      { errorCode := some (some .generationInterrupted), partialBlocks := some [] }).1

/-- The updates of `_finalize_orphans` on the rows it found without a live task. -/
def finalizeOrphans (db : Db) (orphans : List (Id × Status)) : Db :=
  orphans.foldl (fun db (id, status) => finalizeOrphan db id status) db

/-- The three updates of `reconcile_orphans` on one row. -/
def reconcileRow (row : Generation) : Generation :=
  let row :=
    if row.resultMessageId.isSome ∧ row.status ≠ .completed then
      setStatus .completed { errorCode := some none } row
    else row
  let row :=
    if row.status = .stopping then
      setStatus .stopped { errorCode := some none, partialBlocks := some [] } row
    else row
  if row.status = .queued ∨ row.status = .running then
    setStatus .failed { errorCode := some (some .restartInterrupted), partialBlocks := some [] } row
  else row

/-- `reconcile_orphans`. -/
def reconcileOrphans (db : Db) : Db :=
  { db with generations := db.generations.map reconcileRow }

/-! ## Submissions -/

/-- An uploaded document as `submit_turn` receives it. -/
structure Upload where
  role : AttachmentRole
  documentBlocks : Json
  wordCount : Nat

/-- The user message of a turn, and its attachment. -/
structure TurnContent where
  text : Str
  attachment : Option Upload

/-- The rows a validated submission inserts. -/
structure Plan where
  newThread : Option Thread
  threadId : Id
  turn : Option TurnContent
  /-- The source message of a retry; a turn inserts its own. -/
  sourceMessageId : Option Id
  retryOfGenerationId : Option Id
  purpose : Purpose

/-- The ids `new_id()` gives one submission. -/
structure SubmissionIds where
  generationId : Id
  threadId : Id
  messageId : Id
  attachmentId : Id
deriving DecidableEq

/-- Whitespace-only text beside an attachment is not a visible block. -/
def userContent (text : Str) : List ContentBlock :=
  if isBlank text then [] else [⟨.conversation, text⟩]

def insertThread (db : Db) (thread : Thread) : Db := { db with threads := db.threads ++ [thread] }

def insertAttachment (db : Db) (attachment : Attachment) : Db :=
  { db with attachments := db.attachments ++ [attachment] }

def insertGeneration (db : Db) (generation : Generation) : Db :=
  { db with generations := db.generations ++ [generation] }

/-- Would inserting this row break `uq_generations_requester_client_request`,
`uq_generations_one_active_per_thread`, or the reference to its thread? -/
def violatesConstraint (db : Db) (generation : Generation) : Bool :=
  (db.generations.any fun row =>
    row.requesterId == generation.requesterId && row.clientRequestId == generation.clientRequestId) ||
  (db.generations.any fun row =>
    row.threadId == generation.threadId && row.status.isActive && generation.status.isActive) ||
  !(generation.threadId.all fun threadId => (db.thread? threadId).isSome)

/-- The user message and attachment of a turn. -/
def insertTurnRows (db : Db) (requesterId : Id) (ids : SubmissionIds) (threadId : Id) :
    Option TurnContent → Db
  | none => db
  | some turn =>
    let db := insertMessage db ids.messageId threadId .user (some requesterId) (userContent turn.text)
    match turn.attachment with
    | none => db
    | some upload => insertAttachment db
        { id := ids.attachmentId, messageId := ids.messageId, role := upload.role,
          documentBlocks := upload.documentBlocks, wordCount := upload.wordCount }

def queuedGeneration (requesterId clientRequestId : Id) (ids : SubmissionIds) (plan : Plan) (now : Nat) :
    Generation :=
  { id := ids.generationId, threadId := some plan.threadId, requesterId,
    sourceMessageId := if plan.turn.isSome then some ids.messageId else plan.sourceMessageId,
    resultMessageId := none, retryOfGenerationId := plan.retryOfGenerationId, clientRequestId,
    purpose := plan.purpose, status := .queued, partialBlocks := [], streamRevision := 0,
    errorCode := none, createdAt := now }

/-- The write transaction of `_insert_turn` and `_start_generation`: `none` when a unique
constraint fails, and everything is rolled back. -/
def submissionTransaction (db : Db) (requesterId clientRequestId : Id) (ids : SubmissionIds) (plan : Plan)
    (orphans : List (Id × Status)) (now : Nat) : Option Db :=
  let db := finalizeOrphans db orphans
  let db := (plan.newThread.map (insertThread db)).getD db
  let db := insertTurnRows db requesterId ids plan.threadId plan.turn
  let generation := queuedGeneration requesterId clientRequestId ids plan now
  if violatesConstraint db generation then none else some (insertGeneration db generation)

end Oveo.Lifecycle
