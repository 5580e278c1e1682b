import Oveo.Context.Envelope
import Oveo.Lib.Bisect

/-! # Source chunks of a prompt handoff

A handoff is built from what the users wrote, and from nothing else.  Where that is too long for
one request, `_compact_handoff_context` cuts it into chunks, each as long as a binary search finds. -/

namespace Oveo.Context

open Oveo.Lib Oveo.Docx Oveo.Protocol Oveo.Store Oveo.Work Oveo.Lifecycle

/-! ## The user-only envelope -/

/-- An entry of `user_messages`. -/
structure UserInstruction where
  textParts : List Str
  attachment : Option (AttachmentRole × List DocxBlock)
deriving DecidableEq

/-- A request of purpose `prompt_handoff`. -/
structure HandoffSnapshot where
  mode : Mode
  userMessages : List UserInstruction
deriving DecidableEq

/-- The entry of one message. -/
def userInstruction (entry : TranscriptEntry) : UserInstruction :=
  { textParts := entry.content.map ContentBlock.text
    attachment := entry.attachment.map fun document => (document.role, document.documentBlocks) }

/-- The loop of `_user_instruction_envelope`. -/
def collectInstructions (surroundings : Surroundings) (threadId : Id) (attachments : Id → Option AttachmentDocument) :
    List Nat → List Message → Except ContextError (List UserInstruction)
  | _, [] => .ok []
  | seen, message :: messages =>
    if message.threadId ≠ threadId then .error .otherThread
    else if message.ordinal ∈ seen then .error .duplicateOrdinal
    else if message.role ≠ .user then collectInstructions surroundings threadId attachments (message.ordinal :: seen) messages
    else do
      let entry ← transcriptEntry surroundings message (attachments message.id)
      let entries ← collectInstructions surroundings threadId attachments (message.ordinal :: seen) messages
      return userInstruction entry :: entries

/-- `_request_snapshot` with purpose `prompt_handoff`. -/
def handoffSnapshot (surroundings : Surroundings) (db : Db) (thread : Thread) (afterOrdinal throughOrdinal : Option Nat) :
    Except ContextError HandoffSnapshot := do
  let messages := selectMessages db thread.id afterOrdinal throughOrdinal
  let documents ← documentsBy surroundings db.attachmentOf? messages
  let userMessages ← collectInstructions surroundings thread.id
    (fun id => (documents.find? fun entry => entry.1 == id).map Prod.snd) [] messages
  return { mode := thread.mode, userMessages }

/-! ## Planning -/

/-- What the planning raises. -/
inductive HandoffError where
  /-- `handoff_turn_too_large`. -/
  | turnTooLarge
  | context (error : ContextError)
deriving DecidableEq

/-- The user messages of a thread, in order. -/
def userMessages (db : Db) (threadId : Id) : List Message :=
  byOrdinal (db.messages.filter fun message => message.threadId == threadId && message.role == .user)

section

variable (surroundings : Surroundings) (db : Db) (thread : Thread) (fits : HandoffSnapshot → Bool) (userOrdinals : List Nat)

/-- One probe of the search: the request up to the ordinal at `middle`, if it fits. -/
def probeChunk (afterOrdinal : Option Nat) (middle : Nat) : Except ContextError (Option HandoffSnapshot) :=
  match userOrdinals[middle]? with
  | none => .ok none
  | some ordinal => (handoffSnapshot surroundings db thread afterOrdinal (some ordinal)).map fun candidate =>
      if fits candidate then some candidate else none

/-- The outer loop, with fuel for the ordinals left; `none` where the fuel ran out. -/
def planChunks : Nat → Nat → Option Nat → Option (Except HandoffError (List HandoffSnapshot))
  | 0, start, _ => if start < userOrdinals.length then none else some (.ok [])
  | fuel + 1, start, afterOrdinal =>
    if start < userOrdinals.length then
      match bisect (probeChunk surroundings db thread fits userOrdinals afterOrdinal) start userOrdinals.length with
      | .error error => some (.error (.context error))
      | .ok none => some (.error .turnTooLarge)
      | .ok (some (bestEnd, bestSnapshot)) =>
        (planChunks fuel (bestEnd + 1) userOrdinals[bestEnd]?).map fun rest => rest.map fun chunks => bestSnapshot :: chunks
    else some (.ok [])

/-- The source chunks of `_compact_handoff_context`. -/
def sourceChunks : Option (Except HandoffError (List HandoffSnapshot)) :=
  planChunks surroundings db thread fits ((userMessages db thread.id).map Message.ordinal) (userMessages db thread.id).length 0 none

end

/-! ## What a request holds -/

/-- What a user wrote: the texts of the message and its document. -/
def instructionOf (db : Db) (message : Message) : UserInstruction :=
  { textParts := message.content.map ContentBlock.text
    attachment := (documentOf? (db.attachmentOf? message.id)).map fun document => (document.role, document.documentBlocks) }

section

variable {surroundings : Surroundings} {db : Db} {thread : Thread}

theorem collectInstructions_eq {threadId : Id} {attachments : Id → Option AttachmentDocument} {seen : List Nat} {messages : List Message}
    {entries : List UserInstruction} (collected : collectInstructions surroundings threadId attachments seen messages = .ok entries)
    (own : ∀ message ∈ messages, attachments message.id = documentOf? (db.attachmentOf? message.id)) :
    entries = (messages.filter fun message => message.role == .user).map (instructionOf db) := by
  induction messages generalizing seen entries with
  | nil =>
    cases collected
    rfl
  | cons message messages inductionHypothesis =>
    obtain ⟨ownFirst, ownRest⟩ := List.forall_mem_cons.mp own
    simp only [collectInstructions, ite_error_eq_ok] at collected
    obtain ⟨-, -, collected⟩ := collected
    split at collected
    next assistant =>
      rw [List.filter_cons_of_neg (by simpa using assistant)]
      exact inductionHypothesis collected ownRest
    next user =>
      simp only [ok_bind_iff, pure_eq_ok, Except.ok.injEq] at collected
      obtain ⟨entry, isEntry, rest, isRest, rfl⟩ := collected
      rw [List.filter_cons_of_pos (by simpa using user), List.map_cons, inductionHypothesis isRest ownRest]
      simp only [transcriptEntry, ok_bind_iff, pure_eq_ok, Except.ok.injEq] at isEntry
      obtain ⟨content, isContent, actor, -, rfl⟩ := isEntry
      rw [userInstruction, instructionOf, transcriptBlocks_eq isContent, ownFirst]

/-- A request holds what the users wrote between its bounds. -/
theorem handoffSnapshot_eq {afterOrdinal throughOrdinal : Option Nat} {snapshot : HandoffSnapshot}
    (built : handoffSnapshot surroundings db thread afterOrdinal throughOrdinal = .ok snapshot) :
    snapshot = ⟨thread.mode, ((selectMessages db thread.id afterOrdinal throughOrdinal).filter fun message =>
      message.role == .user).map (instructionOf db)⟩ := by
  simp only [handoffSnapshot, ok_bind_iff, pure_eq_ok, Except.ok.injEq] at built
  obtain ⟨documents, isDocuments, entries, isEntries, rfl⟩ := built
  rw [collectInstructions_eq isEntries fun message member => findDocument_eq isDocuments member]

end

end Oveo.Context
