import Oveo.Lib.Machine
import Oveo.Stream.Draft

/-! # Writers of the live status

The task of one generation and the Stops that are asked for it, over the stored status and the live
draft.  A transaction is a step, and so is each later call of `_set_live_status` or `_mark_finished`:
the session is closed in between, where other tasks run. -/

namespace Oveo.Stream

open Oveo.Lib Oveo.Protocol Oveo.Store

/-- Where the task of the generation is. -/
inductive RunPhase where
  /-- Before the transaction of `_set_running`. -/
  | setRunning
  /-- It committed; before the call of `_set_live_status`. -/
  | publishRunning
  /-- Streaming attempts, or about to commit the answer. -/
  | respond
  /-- Before the transaction of `_fail`. -/
  | fail
  /-- Before the transaction of `_finish_stopped`. -/
  | finishStopped
  /-- Before `_mark_finished`. -/
  | mark (status : Status)
  /-- `_fail` found nothing to finish. -/
  | notify
  | marked
  /-- The task is done, its callback not run yet. -/
  | done
  | removed
deriving DecidableEq

/-- `_is_live`. -/
def RunPhase.isLive : RunPhase → Bool
  | .done | .removed => false
  | _ => true

/-- An exception ends up in a handler of `_run`. -/
def RunPhase.isGuarded : RunPhase → Bool
  | .setRunning | .publishRunning | .respond | .finishStopped | .marked => true
  | _ => false

/-- Where a call of `stop` is. -/
inductive StopPhase where
  /-- Before its transaction. -/
  | request
  /-- Nothing was requested; before it reads the status. -/
  | read
  /-- Before the call of `_set_live_status`. -/
  | publish
  /-- No task is left; before the transaction of `_finish_stopped`. -/
  | finishStopped
  /-- Before `_mark_finished`. -/
  | mark
  | returned
deriving DecidableEq

structure WriterState where
  /-- The stored status, while the row is there. -/
  row : Option Status
  live : Option LiveGeneration
  run : RunPhase
  stops : List StopPhase
  /-- History only: the status of the draft, at first and after each change. -/
  held : List Status
  /-- History only: the statuses published in deltas. -/
  published : List Status

inductive WriterAction where
  | setRunning
  | publishRunning
  | applyLiveEvents (events : List ProtocolEvent)
  | resetDraftForRetry
  /-- The transaction of `_commit_success`. -/
  | commitSuccess
  | fail
  | finishStopped
  | mark
  | notify
  /-- An exception is caught by a handler that fails the generation. -/
  | raised
  /-- The task is cancelled, or a Stop was seen at a safe point. -/
  | cancelled
  /-- The task ends. -/
  | finish
  /-- Its done callback. -/
  | taskFinished
  | stop
  | requestStop (stop : Nat)
  | readStatus (stop : Nat)
  | publishStopping (stop : Nat)
  | finishStop (stop : Nat)
  | markStop (stop : Nat)
  /-- The call ends with an exception. -/
  | abandonStop (stop : Nat)
  | deleteRow

/-- The statuses an item carries. -/
def statusesOf : Option StreamItem → List Status
  | some (.delta delta) =>
    delta.ops.filterMap fun
      | .status status => some status
      | _ => none
  | _ => []

/-- A change of the draft, where there is one. -/
def WriterState.change (s : WriterState) (change : LiveGeneration → Change) : WriterState :=
  match s.live with
  | none => s
  | some live =>
    { s with
      live := some (change live).1
      held := s.held ++ [(change live).1.status]
      published := s.published ++ statusesOf (change live).2 }

/-- `_transition`: compare and set. -/
def transition (allowed : List Status) (status : Status) (row : Option Status) : Option (Option Status) :=
  match row with
  | some current => if allowed.contains current then some (some status) else none
  | none => none

/-- `_fail`, and what it is to mark. -/
def failRow (row : Option Status) : Option Status × Option Status :=
  match transition [.queued, .running] .failed row with
  | some row => (row, some .failed)
  | none =>
    match transition [.stopping] .stopped row with
    | some row => (row, some .stopped)
    | none => (row, none)

/-- One call of `stop` takes a step. -/
def WriterState.onStop (s : WriterState) (index : Nat) (phase : StopPhase) (move : WriterState → WriterState × StopPhase) :
    Option WriterState :=
  if s.stops[index]? = some phase then
    let (next, after) := move s
    some { next with stops := s.stops.set index after }
  else none

def writerStep (s : WriterState) : WriterAction → Option WriterState
  | .setRunning =>
    if s.run = .setRunning then
      match transition [.queued] .running s.row with
      | some row => some { s with row, run := .publishRunning }
      -- Stopped before it started.
      | none => some { s with run := .finishStopped }
    else none
  | .publishRunning =>
    if s.run = .publishRunning then some { s.change (setLiveStatus .running) with run := .respond } else none
  | .applyLiveEvents events =>
    if s.run = .respond then some (s.change fun live => applyLiveEvents live events) else none
  | .resetDraftForRetry => if s.run = .respond then some (s.change resetDraftForRetry) else none
  | .commitSuccess =>
    if s.run = .respond then
      match transition [.running] .completed s.row with
      | some row => some { s with row, run := .mark .completed }
      | none => some { s with run := .finishStopped }
    else none
  | .fail =>
    if s.run = .fail then
      let (row, finished) := failRow s.row
      some { s with
        row
        run :=
          match finished with
          | some status => .mark status
          | none => .notify }
    else none
  | .finishStopped =>
    if s.run = .finishStopped then
      some { s with row := (transition activeGenerationStatuses .stopped s.row).getD s.row, run := .mark .stopped }
    else none
  | .mark =>
    match s.run with
    | .mark status => some { s.change (setLiveStatus status) with run := .marked }
    | _ => none
  | .notify => if s.run = .notify then some { s with run := .marked } else none
  | .raised => if s.run.isGuarded then some { s with run := .fail } else none
  | .cancelled => if s.run.isGuarded then some { s with run := .finishStopped } else none
  | .finish => if s.run.isLive then some { s with run := .done } else none
  | .taskFinished => if s.run = .done then some { s with live := none, run := .removed } else none
  | .stop => some { s with stops := s.stops ++ [.request] }
  | .requestStop index =>
    s.onStop index .request fun s =>
      match transition [.queued, .running] .stopping s.row with
      | some row => ({ s with row }, .publish)
      | none => (s, .read)
  | .readStatus index =>
    s.onStop index .read fun s => (s, if s.row = some .stopping then .publish else .returned)
  | .publishStopping index =>
    s.onStop index .publish fun s =>
      (s.change (setLiveStatus .stopping), if s.run.isLive then .returned else .finishStopped)
  | .finishStop index =>
    s.onStop index .finishStopped fun s =>
      ({ s with row := (transition activeGenerationStatuses .stopped s.row).getD s.row }, .mark)
  | .markStop index => s.onStop index .mark fun s => (s.change (setLiveStatus .stopped), .returned)
  | .abandonStop index =>
    match s.stops[index]? with
    | some _ => some { s with stops := s.stops.set index .returned }
    | none => none
  | .deleteRow => some { s with row := none }

/-- A generation as it is scheduled. -/
def WriterState.initial : WriterState where
  row := some .queued
  live := some .new
  run := .setRunning
  stops := []
  held := [.queued]
  published := []

def writers : Machine WriterState WriterAction where
  init s := s = .initial
  step := writerStep

end Oveo.Stream
