import Oveo.Lib.Machine
import Oveo.Lifecycle.Transactions

/-! # The generation manager as a transition system

The state is the database, the attachment files and what the process holds in memory.  A
submission, handoff or retry is a call that passes through the reads and the write
transaction of its function one step at a time, because SQLite reads run outside the write
lock; every other write transaction is one step.  The transactions of a run are not tied to
the progress of its task: any of them may happen at any time and any number of times, which
includes a write that `_with_write_retries` repeats although the database had applied it. -/

namespace Oveo.Lifecycle

open Oveo.Lib Oveo.Docx Oveo.Protocol Oveo.Store Oveo.Work

/-! ## Calls -/

inductive Request where
  | turn (threadId ownerId : Option Id) (mode : Option Mode) (content : TurnContent)
  | handoff (threadId : Id)
  | retry (generationId : Id)

/-- Is this refused before `new_id()` is called for it? -/
def Request.isEmptyMessage : Request → Bool
  | .turn _ _ _ content => isBlank content.text && content.attachment.isNone
  | .handoff _ | .retry _ => false

/-- How a call fails. -/
inductive CallError where
  | invalidGeneration
  | invalidThread
  | threadNotFound
  | referenceWordLimit
  | sourceWordLimit
  | generationNotRetryable
  | activeGeneration
  | submissionConflict
  /-- A cancellation, a failing database, or a restart. -/
  | interrupted
deriving DecidableEq, Repr

/-- Where a call is suspended. -/
inductive Phase where
  /-- Before `_existing_request`. -/
  | entered
  /-- No generation had its key. -/
  | absent
  /-- A retry that read its original and found it could be retried so far. -/
  | originalRead (original : Generation)
  /-- A retry whose original was the latest chat generation when that was read. -/
  | latestRead (original : Generation)
  /-- The rows to insert are validated. -/
  | validated (plan : Plan)
  /-- The active rows of the thread were read. -/
  | orphansRead (plan : Plan) (rows : List (Id × Status))
  /-- Those of them no live task owned when that was checked. -/
  | orphansChecked (plan : Plan) (orphans : List (Id × Status))
  /-- The words of a turn are within their limits. -/
  | measured (plan : Plan) (orphans : List (Id × Status))
  /-- The database has committed the transaction. -/
  | committed
  /-- The generation has its task. -/
  | scheduled
  /-- A unique constraint failed and the transaction was rolled back. -/
  | conflicted
  | returned (generationId : Id)
  | raised (error : CallError)

def Phase.isFinished : Phase → Bool
  | .returned _ | .raised _ => true
  | _ => false

structure Call where
  ids : SubmissionIds
  requesterId : Id
  clientRequestId : Id
  request : Request
  phase : Phase

/-- A commit either is applied or fails and is rolled back.  An applied commit the caller is
never told of is one whose call is cancelled next. -/
inductive CommitOutcome where
  | applied
  | notApplied
deriving DecidableEq, Repr

/-! ## Reads -/

/-- `_existing_request`. -/
def existingRequest (db : Db) (requesterId clientRequestId : Id) : Except CallError (Option Generation) :=
  match db.generations.find? fun row =>
      row.requesterId == requesterId && row.clientRequestId == clientRequestId with
  | none => .ok none
  | some existing =>
    if (existing.threadId.bind db.thread?).map Thread.ownerId = some requesterId then .ok (some existing)
    else .error .threadNotFound

/-- `ORDER BY created_at DESC, id DESC` puts the first row before the second. -/
def isNewer (first second : Generation) : Bool :=
  second.createdAt < first.createdAt || (first.createdAt == second.createdAt && second.id < first.id)

def newest : List Generation → Option Generation
  | [] => none
  | row :: rows =>
    match newest rows with
    | some other => if isNewer row other then some row else some other
    | none => some row

/-- The latest chat generation of a thread. -/
def latestChat? (db : Db) (threadId : Id) : Option Generation :=
  newest (db.generations.filter fun row => row.threadId == some threadId && row.purpose == .chat)

/-- The first test of `_is_retryable`, on the row itself. -/
def mayBeRetried (row : Generation) : Bool :=
  row.purpose == .chat && (row.status == .failed || row.status == .stopped) &&
    !(row.errorCode.any notRetryableCodes.contains) && row.resultMessageId.isNone &&
    row.threadId.isSome && row.sourceMessageId.isSome

/-- The last two reads of `_is_retryable`: is the source message still unanswered? -/
def isUnanswered (db : Db) (row : Generation) : Bool :=
  match row.sourceMessageId.bind db.message? with
  | none => false
  | some source =>
    !(db.messages.any fun message =>
      some message.threadId == row.threadId && message.role == .assistant && source.ordinal < message.ordinal)

/-- The active rows of a thread, as `_finalize_orphans` reads them. -/
def activeRows (db : Db) (threadId : Id) : List (Id × Status) :=
  (db.generations.filter fun row => row.threadId == some threadId && row.status.isActive).map
    fun row => (row.id, row.status)

/-- The checks of `_insert_turn` before its transaction. -/
def turnPlan (db : Db) (call : Call) (threadId ownerId : Option Id) (mode : Option Mode)
    (content : TurnContent) : Except CallError Plan :=
  let plan (thread : Id) (newThread : Option Thread) : Plan :=
    { newThread, threadId := thread, turn := some content, sourceMessageId := none,
      retryOfGenerationId := none, purpose := .chat }
  match threadId with
  | none =>
    match ownerId, mode with
    | some ownerId, some mode =>
      if ownerId = call.requesterId then
        .ok (plan call.ids.threadId (some { id := call.ids.threadId, ownerId, mode }))
      else .error .threadNotFound
    | _, _ => .error .invalidThread
  | some threadId =>
    match db.thread? threadId with
    | some thread => if thread.ownerId = call.requesterId then .ok (plan threadId none) else .error .threadNotFound
    | none => .error .threadNotFound

/-- The word limits of `_insert_turn`. -/
def checkWords (settings : Settings) (db : Db) (threadId : Id) (content : TurnContent) : Except CallError Unit :=
  match content.attachment with
  | some upload =>
    if upload.role = .reference ∧ settings.maxReferenceWords < upload.wordCount then .error .referenceWordLimit
    else
      let measured :=
        if upload.role = .source then upload.wordCount
        else ((latestWorkVersion? db threadId).map WorkVersion.sourceWordCount).getD 0 + countWords (strip content.text)
      if settings.maxSourceWords < measured then .error .sourceWordLimit else .ok ()
  | none =>
    let measured :=
      ((latestWorkVersion? db threadId).map WorkVersion.sourceWordCount).getD 0 + countWords (strip content.text)
    if settings.maxSourceWords < measured then .error .sourceWordLimit else .ok ()

/-! ## State -/

structure System where
  db : Db
  /-- The attachment files, by attachment id. -/
  files : List Id
  /-- `_starting`. -/
  starting : List Id
  /-- The generations whose task is not done. -/
  tasks : List Id
  /-- `templates` of the commits in progress, newest first. -/
  prepared : List (Id × Templates)
  calls : List Call
  /-- Every id `new_id()` has returned. -/
  issued : List Id
  /-- History only: the chat answers in the order they were committed. -/
  answers : List Answer

def System.empty : System :=
  { db := Db.empty, files := [], starting := [], tasks := [], prepared := [], calls := [], issued := [],
    answers := [] }

/-- `_is_live`. -/
def System.isLive (s : System) (generationId : Id) : Bool :=
  s.starting.contains generationId || s.tasks.contains generationId

def System.templatesOf (s : System) (generationId : Id) : Templates :=
  match s.prepared.find? fun entry => entry.1 == generationId with
  | some (_, templates) => templates
  | none => fun _ => none

def System.call? (s : System) (generationId : Id) : Option Call :=
  s.calls.find? fun call => call.ids.generationId == generationId

def System.setPhase (s : System) (generationId : Id) (phase : Phase) : System :=
  { s with calls := s.calls.map fun call =>
      if call.ids.generationId = generationId then { call with phase } else call }

/-- Leave a call: `_starting` forgets its generation, and a staged file is unlinked. -/
def System.leave (s : System) (call : Call) (phase : Phase) : System :=
  { s.setPhase call.ids.generationId phase with
    starting := s.starting.filter (· ≠ call.ids.generationId)
    files := s.files.filter (· ≠ call.ids.attachmentId) }

def System.stage (s : System) (call : Call) (plan : Plan) : System :=
  if (plan.turn.bind TurnContent.attachment).isSome then { s with files := call.ids.attachmentId :: s.files } else s

inductive Action where
  | enter (call : Call)
  | advance (generationId now : Id) (outcome : CommitOutcome)
  | cancel (generationId : Id)
  | setRunning (generationId : Id)
  | stop (generationId : Id)
  | prepareTemplates (generationId : Id) (state : StateOperation) (parsed : Except ProtocolCode (List DocxBlock))
  | commitSuccess (generationId : Id) (document : ProtocolDocument) (ids : AnswerIds)
  | fail (generationId : Id) (code : ErrorCode) (blocks : List ContentBlock)
  | finishStopped (generationId : Id)
  | taskDone (generationId : Id)
  | restart

/-! ## Steps of a call -/

/-- Leave the call with what `_existing_request` said, or go on when it found nothing. -/
def System.answerExisting (s : System) (call : Call) (otherwise : System) : System :=
  match existingRequest s.db call.requesterId call.clientRequestId with
  | .ok (some existing) =>
    match call.request, existing.threadId with
    | .turn .., none => s.leave call (.raised .invalidGeneration)
    | _, _ => s.leave call (.returned existing.id)
  | .ok none => otherwise
  | .error error => s.leave call (.raised error)

/-- `prepare` of a handoff or retry, and the thread checks of a turn. -/
def System.validate (s : System) (call : Call) : System :=
  let id := call.ids.generationId
  match call.request with
  | .turn threadId ownerId mode content =>
    match turnPlan s.db call threadId ownerId mode content with
    | .ok plan => s.setPhase id (.validated plan)
    | .error error => s.leave call (.raised error)
  | .handoff threadId =>
    match s.db.thread? threadId with
    | some thread =>
      if thread.ownerId = call.requesterId then
        s.setPhase id (.validated
          { newThread := none, threadId, turn := none, sourceMessageId := none,
            retryOfGenerationId := none, purpose := .promptHandoff })
      else s.leave call (.raised .threadNotFound)
    | none => s.leave call (.raised .threadNotFound)
  | .retry generationId =>
    match s.db.generation? generationId with
    | none => s.leave call (.raised .generationNotRetryable)
    | some original =>
      match original.threadId with
      | none => s.leave call (.raised .generationNotRetryable)
      | some threadId =>
        match s.db.thread? threadId with
        | none => s.leave call (.raised .threadNotFound)
        | some thread =>
          if thread.ownerId = call.requesterId ∧ mayBeRetried original then
            s.setPhase id (.originalRead original)
          else s.leave call (.raised .generationNotRetryable)

/-- The plan of a retry: the same source message, a new generation. -/
def retryPlan (original : Generation) (threadId : Id) : Plan :=
  { newThread := none, threadId, turn := none, sourceMessageId := original.sourceMessageId,
    retryOfGenerationId := some original.id, purpose := original.purpose }

/-- The transaction of the call. -/
def System.submit (s : System) (call : Call) (plan : Plan) (orphans : List (Id × Status)) (now : Nat)
    (outcome : CommitOutcome) : System :=
  match submissionTransaction s.db call.requesterId call.clientRequestId call.ids plan orphans now with
  | none => (s.stage call plan).setPhase call.ids.generationId .conflicted
  | some db =>
    match outcome with
    | .applied => { (s.stage call plan).setPhase call.ids.generationId .committed with db }
    | .notApplied => s.leave call (.raised .interrupted)

/-- What a call that lost a unique constraint raises when no generation has its key. -/
def conflictError (db : Db) (call : Call) : CallError :=
  match call.request with
  | .turn none _ _ _ => .submissionConflict
  | .turn (some threadId) _ _ _ =>
    match db.thread? threadId with
    | none => .threadNotFound
    | some thread =>
      if thread.ownerId ≠ call.requesterId then .threadNotFound
      else if (activeRows db threadId).isEmpty then .submissionConflict
      else .activeGeneration
  | .handoff _ | .retry _ => .activeGeneration

/-- `_resolve_submission_conflict`, and the same for handoffs and retries. -/
def System.resolve (s : System) (call : Call) : System :=
  match existingRequest s.db call.requesterId call.clientRequestId with
  | .ok (some existing) =>
    match call.request, existing.threadId with
    | .turn .., none => s.leave call (.raised (conflictError s.db call))
    | _, _ => s.leave call (.returned existing.id)
  | .ok none => s.leave call (.raised (conflictError s.db call))
  | .error error => s.leave call (.raised error)

/-- The next step of a call that has not left yet. -/
def System.advance (settings : Settings) (s : System) (call : Call) (now : Nat) (outcome : CommitOutcome) :
    Option System :=
  let id := call.ids.generationId
  match call.phase with
  | .entered => some (s.answerExisting call (s.setPhase id .absent))
  | .absent => some (s.validate call)
  | .originalRead original =>
    if (original.threadId.bind (latestChat? s.db)).map Generation.id = some original.id then
      some (s.setPhase id (.latestRead original))
    else some (s.leave call (.raised .generationNotRetryable))
  | .latestRead original =>
    match original.threadId with
    | some threadId =>
      if isUnanswered s.db original then some (s.setPhase id (.validated (retryPlan original threadId)))
      else some (s.leave call (.raised .generationNotRetryable))
    | none => some (s.leave call (.raised .generationNotRetryable))
  | .validated plan => some (s.setPhase id (.orphansRead plan (activeRows s.db plan.threadId)))
  | .orphansRead plan rows =>
    some (s.setPhase id (.orphansChecked plan (rows.filter fun row => !s.isLive row.1)))
  | .orphansChecked plan orphans =>
    match plan.turn.elim (.ok ()) (checkWords settings s.db plan.threadId) with
    | .ok () => some (s.setPhase id (.measured plan orphans))
    | .error error => some (s.leave call (.raised error))
  | .measured plan orphans => some (s.submit call plan orphans now outcome)
  | .committed => some { s.setPhase id .scheduled with tasks := id :: s.tasks }
  | .scheduled =>
    some { s.setPhase id (.returned id) with starting := s.starting.filter (· ≠ id) }
  | .conflicted => some (s.resolve call)
  | .returned _ | .raised _ => none

/-! ## Steps of the system -/

/-- The ids of a call, in the order `new_id()` returns them. -/
def SubmissionIds.toList (ids : SubmissionIds) : List Id :=
  [ids.generationId, ids.threadId, ids.messageId, ids.attachmentId]

def AnswerIds.toList (ids : AnswerIds) : List Id := [ids.messageId, ids.work.workItemId, ids.work.versionId]

/-- `new_id()` never returns an id twice. -/
def System.areFresh (s : System) (ids : List Id) : Bool :=
  ids.Nodup && ids.all fun id => !s.issued.contains id

def System.interruptCall (call : Call) : Call :=
  if call.phase.isFinished then call else { call with phase := .raised .interrupted }

/-- A restart ends every call and task; startup then runs `reconcile_orphans` and
`sweep_orphan_attachments` before it serves requests. -/
def System.restart (s : System) : System :=
  { s with
    db := reconcileOrphans s.db
    files := s.files.filter fun file => s.db.attachments.any fun attachment => attachment.id == file
    starting := []
    tasks := []
    prepared := []
    calls := s.calls.map interruptCall }

def step (settings : Settings) (s : System) : Action → Option System
  | .enter call =>
    match call.phase with
    | .entered =>
      if s.areFresh call.ids.toList ∧ !call.request.isEmptyMessage then
        some { s with
          starting := call.ids.generationId :: s.starting
          calls := call :: s.calls
          issued := call.ids.toList ++ s.issued }
      else none
    | _ => none
  | .advance id now outcome =>
    match s.call? id with
    | some call => s.advance settings call now outcome
    | none => none
  | .cancel id =>
    match s.call? id with
    | some call =>
      match call.phase with
      -- Once scheduled, a cancellation only interrupts the closing of the session.
      | .scheduled => some { s.setPhase id (.raised .interrupted) with starting := s.starting.filter (· ≠ id) }
      | .returned _ | .raised _ => none
      | _ => some (s.leave call (.raised .interrupted))
    | none => none
  | .setRunning id => some { s with db := setRunning s.db id }
  | .stop id => some { s with db := stopRequested s.db id }
  | .prepareTemplates id state parsed =>
    match prepareDocxTemplates parsed s.db id state with
    | .ok templates => some { s with prepared := (id, templates) :: s.prepared }
    | .error _ => none
  | .commitSuccess id document ids =>
    if s.areFresh ids.toList then
      match commitSuccessOnce settings s.db id document (s.templatesOf id) ids with
      | .ok (some (db, answer)) =>
        some { s with db, issued := ids.toList ++ s.issued, answers := s.answers ++ answer.toList }
      | .ok none | .error _ => some s
    else none
  | .fail id code blocks => some { s with db := fail s.db id code blocks }
  | .finishStopped id => some { s with db := finishStopped s.db id }
  | .taskDone id => if s.tasks.contains id then some { s with tasks := s.tasks.filter (· ≠ id) } else none
  | .restart => some s.restart

def machine (settings : Settings) : Machine System Action where
  init s := s = System.empty
  step := step settings

end Oveo.Lifecycle
