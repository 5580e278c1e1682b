import Oveo.Context.Snapshot
import Oveo.Lifecycle.System

/-! # Compaction

What `_compact_chat_context` does in the task of a chat generation, on top of everything else the
generation manager does: every step of the lifecycle may come between two steps of a compaction.  A
compaction looks at its snapshot, makes a summary call outside any transaction, and stores what the call
returned, until its snapshot fits.  Whether a snapshot fits is the tokenizer's answer, given with a step. -/

namespace Oveo.Context

open Oveo.Lib Oveo.Protocol Oveo.Store Oveo.Work Oveo.Lifecycle

/-- `_MIN_RECENT_MESSAGES`. -/
def minRecentMessages : Nat := 4

/-- `context_recent_messages`, with the bounds `config.py` puts on it. -/
structure CompactionSettings where
  contextRecentMessages : Nat := 12
  recent_min : 4 ≤ contextRecentMessages := by decide
  recent_max : contextRecentMessages ≤ 100 := by decide

/-! ## Summary calls -/

/-- `_parse_context_summary` of the payload `json.loads` returned; `none` is a `SummaryFormatError`. -/
def parseContextSummary (payload : Json) : Option Str :=
  match payload with
  | .obj members =>
    if !Json.hasExactKeys members [str "version", str "summary", str "unresolved"] then none
    else if !isVersionOne (Json.get? members (str "version")) then none
    else
      match Json.get? members (str "summary"), Json.get? members (str "unresolved") with
      | some (.str summary), some (.arr unresolved) =>
        if isBlank summary then none
        else do
          let items ← unresolved.mapM fun
            | .str item => some item
            | _ => none
          let items := (items.map strip).filter fun item => !item.isEmpty
          let compacted :=
            if items.isEmpty then strip summary
            else strip summary ++ str "\n\nUnresolved:\n" ++ [lineFeed].intercalate (items.map fun item => str "- " ++ item)
          if compacted.any isSurrogate then none else some compacted
      | _, _ => none
  | _ => none

/-- The binary search of `_largest_bounded_summary_snapshot`, between `low` and `stop`, which is `high + 1`. -/
def searchSnapshot (snapshotThrough : Nat → Except ContextError RequestSnapshot) (fits : RequestSnapshot → Bool)
    (candidates : List Message) : Nat → Nat → Nat → Option (Nat × RequestSnapshot) → Except ContextError (Option (Nat × RequestSnapshot))
  | 0, _, _, best => .ok best
  | fuel + 1, low, stop, best =>
    if low < stop then
      let middle := (low + stop - 1) / 2
      match candidates[middle]? with
      | none => .ok best
      | some message => do
        let candidate ← snapshotThrough message.ordinal
        if fits candidate then searchSnapshot snapshotThrough fits candidates fuel (middle + 1) stop (some (message.ordinal, candidate))
        else searchSnapshot snapshotThrough fits candidates fuel low middle best
    else .ok best

/-- `_largest_bounded_summary_snapshot`. -/
def largestBoundedSummarySnapshot (surroundings : Surroundings) (db : Db) (thread : Thread) (summary : Summary)
    (fits : RequestSnapshot → Bool) (candidates : List Message) : Except ContextError (Option (Nat × RequestSnapshot)) :=
  searchSnapshot (fun cutoff => requestSnapshot surroundings db thread summary .summary none (some cutoff)) fits candidates
    candidates.length 0 candidates.length none

/-! ## One compaction -/

/-- The messages no summary covers. -/
def unsummarized (db : Db) (threadId : Id) (summary : Summary) : List Message :=
  byOrdinal (db.messages.filter fun message => message.threadId == threadId && decide (summary.through < message.ordinal))

/-- `unsummarized[:-retain]`. -/
def summaryCandidates (settings : CompactionSettings) (messages : List Message) : List Message :=
  let retain :=
    if settings.contextRecentMessages < messages.length then settings.contextRecentMessages else minRecentMessages
  messages.take (messages.length - retain)

/-- Where the compaction of a generation is. -/
inductive CompactionPhase where
  /-- The snapshot of the request was composed. -/
  | composed (snapshot : RequestSnapshot)
  /-- The head of the loop, with the snapshot of the request. -/
  | looking (snapshot : RequestSnapshot)
  /-- A summary call through this ordinal is under way. -/
  | calling (cutoff : Nat) (input : RequestSnapshot) (attempt : Nat)
  /-- The call returned a summary. -/
  | storing (cutoff : Nat) (input : RequestSnapshot) (compacted : Str)
  /-- The snapshot fits, and the request is made of it. -/
  | requesting (snapshot : RequestSnapshot)
  /-- It was cancelled, or something was raised. -/
  | ended

structure Compaction where
  generationId : Id
  threadId : Id
  phase : CompactionPhase

/-- How one summary call ends. -/
inductive SummaryReply where
  /-- With this payload, or with something that is not JSON. -/
  | answered (payload : Option Json)
  /-- With an error of the provider, or one of its own. -/
  | failed

/-- A summary call whose result was stored. -/
structure StoredSummary where
  threadId : Id
  cutoff : Nat
  input : RequestSnapshot
  compacted : Str

structure CompactionState where
  system : System
  /-- The two columns of each thread. -/
  summaries : Id → Summary
  compactions : List Compaction
  /-- History only: the summary calls whose result was stored, in order. -/
  stored : List StoredSummary

inductive CompactionAction where
  | lifecycle (action : Action)
  | compose (generationId : Id) (surroundings : Surroundings)
  | look (index : Nat) (surroundings : Surroundings) (fits : RequestSnapshot → Bool)
  | reply (index : Nat) (reply : SummaryReply)
  | store (index : Nat) (surroundings : Surroundings) (outcome : CommitOutcome)
  | cancel (index : Nat)

def CompactionState.setPhase (s : CompactionState) (index : Nat) (compaction : Compaction) (phase : CompactionPhase) : CompactionState :=
  { s with compactions := s.compactions.set index { compaction with phase } }

/-- `_require_compactable_floor`: does the conversation fit with all but the latest messages summarized? -/
def fitsAtFloor (surroundings : Surroundings) (fits : RequestSnapshot → Bool) (db : Db) (thread : Thread) (summary : Summary) :
    Except ContextError Bool :=
  let messages := unsummarized db thread.id summary
  let recent := (messages.drop (messages.length - minRecentMessages)).map Message.ordinal
  let floorAfter :=
    match recent with
    | [] => summary.throughOrdinal
    | first :: rest => some (rest.foldl min first - 1)
  (requestSnapshot surroundings db thread summary .chat floorAfter none).map fits

/-- The body of the loop up to the summary call. -/
def beginSummary (settings : CompactionSettings) (surroundings : Surroundings) (fits : RequestSnapshot → Bool) (db : Db)
    (thread : Thread) (summary : Summary) : CompactionPhase :=
  let messages := unsummarized db thread.id summary
  if messages.length ≤ minRecentMessages then .ended
  else
    match largestBoundedSummarySnapshot surroundings db thread summary fits (summaryCandidates settings messages) with
    | .ok (some (cutoff, input)) => .calling cutoff input 1
    | .ok none | .error _ => .ended

/-- `_maybe_compact_context` up to the loop, and the head of the loop. -/
def lookAt (settings : CompactionSettings) (surroundings : Surroundings) (fits : RequestSnapshot → Bool) (db : Db)
    (thread? : Option Thread) (summary : Summary) : CompactionPhase → Option CompactionPhase
  | .composed snapshot =>
    if fits snapshot then some (.requesting snapshot)
    else
      match thread? with
      | none => some .ended
      | some thread =>
        match fitsAtFloor surroundings fits db thread summary with
        | .ok true => some (.looking snapshot)
        | .ok false | .error _ => some .ended
  | .looking snapshot =>
    if fits snapshot then some (.requesting snapshot)
    else
      match thread? with
      | none => some .ended
      | some thread => some (beginSummary settings surroundings fits db thread summary)
  | _ => none

/-- What `_generate_context_summary` does with the end of a call. -/
def replyTo (reply : SummaryReply) : CompactionPhase → Option CompactionPhase
  | .calling cutoff input attempt =>
    match reply with
    | .failed => some .ended
    | .answered payload =>
      match payload.bind parseContextSummary with
      | some compacted => some (.storing cutoff input compacted)
      | none => if attempt = 1 then some (.calling cutoff input 2) else some .ended
  | _ => none

/-- The transaction that stores a summary. -/
def CompactionState.store (s : CompactionState) (index : Nat) (compaction : Compaction) (surroundings : Surroundings)
    (outcome : CommitOutcome) (cutoff : Nat) (input : RequestSnapshot) (compacted : Str) : CompactionState :=
  match s.system.db.thread? compaction.threadId, s.system.db.generation? compaction.generationId with
  | some thread, some current =>
    if current.status = .running then
      let summary : Summary := ⟨some compacted, some cutoff⟩
      match requestSnapshot surroundings s.system.db thread summary .chat none none, outcome with
      | .ok snapshot, .applied =>
        { s.setPhase index compaction (.looking snapshot) with
          summaries := fun id => if id = compaction.threadId then summary else s.summaries id
          stored := s.stored ++ [⟨compaction.threadId, cutoff, input, compacted⟩] }
      | _, _ => s.setPhase index compaction .ended
    else s.setPhase index compaction .ended
  | _, _ => s.setPhase index compaction .ended

section

variable (settings : Settings) (compactionSettings : CompactionSettings)

/-- A task composes its request once, after `_set_running` claimed its row. -/
def CompactionState.compose (s : CompactionState) (generationId : Id) (surroundings : Surroundings) : Option CompactionState := do
  let row ← s.system.db.generation? generationId
  let threadId ← row.threadId
  if row.purpose = .chat ∧ row.status ≠ .queued ∧ s.compactions.all (fun compaction => compaction.generationId != generationId) then
    let thread ← s.system.db.thread? threadId
    match requestSnapshot surroundings s.system.db thread (s.summaries threadId) .chat none none with
    | .ok snapshot => some { s with compactions := s.compactions ++ [⟨generationId, threadId, .composed snapshot⟩] }
    | .error _ => none
  else none

def compactionStep (s : CompactionState) : CompactionAction → Option CompactionState
  | .lifecycle action => do
    let system ← step settings s.system action
    match action with
    -- A restart ends every task.
    | .restart => some { s with system, compactions := s.compactions.map fun compaction => { compaction with phase := .ended } }
    | _ => some { s with system }
  | .compose generationId surroundings => s.compose generationId surroundings
  | .look index surroundings fits => do
    let compaction ← s.compactions[index]?
    let phase ← lookAt compactionSettings surroundings fits s.system.db (s.system.db.thread? compaction.threadId)
      (s.summaries compaction.threadId) compaction.phase
    some (s.setPhase index compaction phase)
  | .reply index reply => do
    let compaction ← s.compactions[index]?
    let phase ← replyTo reply compaction.phase
    some (s.setPhase index compaction phase)
  | .store index surroundings outcome => do
    let compaction ← s.compactions[index]?
    match compaction.phase with
    | .storing cutoff input compacted => some (s.store index compaction surroundings outcome cutoff input compacted)
    | _ => none
  | .cancel index => do
    let compaction ← s.compactions[index]?
    some (s.setPhase index compaction .ended)

def compactionMachine : Machine CompactionState CompactionAction where
  init s := s.system = System.empty ∧ s.summaries = (fun _ => Summary.empty) ∧ s.compactions = [] ∧ s.stored = []
  step := compactionStep settings compactionSettings

end

end Oveo.Context
