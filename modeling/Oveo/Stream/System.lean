import Oveo.Lib.Machine
import Oveo.Stream.Draft

/-! # Drafts, rows and readers

One generation from the moment `_schedule` creates its draft, with any number of open event
streams.  A step is what runs between two awaits: a change of the draft and the offers it makes,
a committed change of the stored row, or one part of a reader's loop in `_events`. -/

namespace Oveo.Stream

open Oveo.Lib Oveo.Protocol Oveo.Store

/-- How a stream ended. -/
inductive StreamEnd where
  /-- After the snapshot of a terminal row. -/
  | finished
  /-- By a close signal or an invalid sign-in session. -/
  | closed
  /-- The row was gone. -/
  | missing
  /-- The browser went away. -/
  | dropped
deriving DecidableEq

/-- Where the reader of a stream is suspended. -/
inductive ReaderPhase where
  /-- At a frame or at the queue. -/
  | waiting
  /-- At `session_valid`, with the item it took or, after a timeout, with none. -/
  | holding (item : Option StreamItem)
  /-- In `get_snapshot`, at the database, for its first or a later snapshot. -/
  | reading (first : Bool)
  /-- There still, the row read. -/
  | fetched (first : Bool) (row : Option StoredRow)
  | ended (how : StreamEnd)

/-- The local variables of `_events`, and the frames it has sent. -/
structure Reader where
  phase : ReaderPhase
  queue : List StreamItem
  pending : Option StreamItem
  lastSeq : Nat
  frames : List Frame

def Reader.isOpen (reader : Reader) : Bool :=
  match reader.phase with
  | .ended _ => false
  | _ => true

/-- One reader's share of `_publish`: a stream that ended has been discarded. -/
def Reader.offered (item : StreamItem) (reader : Reader) : Reader :=
  if reader.isOpen then { reader with queue := offer reader.queue item } else reader

/-- The draft `get_snapshot` serves without the database. -/
def activeDraft (live : Option LiveGeneration) : Option LiveGeneration :=
  live.filter fun live => live.status.isActive

/-- The start of `_events`, up to its first await. -/
def subscribe (live : Option LiveGeneration) : Reader :=
  match activeDraft live with
  | some live =>
    { phase := .waiting, queue := [], pending := none, lastSeq := live.seq, frames := [.snapshot live.snapshot] }
  | none => { phase := .reading true, queue := [], pending := none, lastSeq := 0, frames := [] }

def Reader.send (shown : Snapshot) (reader : Reader) : Reader :=
  { reader with
    phase := if shown.status.isTerminal then .ended .finished else .waiting
    lastSeq := shown.seq, frames := reader.frames ++ [.snapshot shown] }

/-- A later snapshot is sent when it is terminal or tells something new. -/
def Reader.settle (shown : Snapshot) (reader : Reader) : Reader :=
  if shown.status.isTerminal ∨ shown.seq ≠ reader.lastSeq then reader.send shown else { reader with phase := .waiting }

/-- The last part of the loop: read the authoritative snapshot again. -/
def Reader.refresh (live : Option LiveGeneration) (reader : Reader) : Reader :=
  match activeDraft live with
  | some live => reader.settle live.snapshot
  | none => { reader with phase := .reading false }

/-- An item was taken; a close signal ends the stream before anything else. -/
def Reader.receive (item : StreamItem) (reader : Reader) : Reader :=
  { reader with phase := if item.isClose then .ended .closed else .holding (some item) }

def Reader.take (reader : Reader) : Option Reader :=
  match reader.phase, reader.pending, reader.queue with
  | .waiting, some item, _ => some ({ reader with pending := none }.receive item)
  | .waiting, none, item :: queue => some ({ reader with queue }.receive item)
  | _, _, _ => none

/-- `wait_for` gave up. -/
def Reader.timeout (reader : Reader) : Option Reader :=
  match reader.phase, reader.pending with
  | .waiting, none => some { reader with phase := .holding none }
  | _, _ => none

/-- The rest of the loop's body for the item it holds. -/
def Reader.handle (live : Option LiveGeneration) (reader : Reader) : Option Reader :=
  match reader.phase with
  | .holding none =>
    if live.isSome then some { reader with phase := .waiting } else some (reader.refresh live)
  | .holding (some (.delta delta)) =>
    if delta.seq ≤ reader.lastSeq then some { reader with phase := .waiting }
    else if delta.seq ≠ reader.lastSeq + 1 then some (reader.refresh live)
    else
      let (ops, lastSeq, pending, queue) := coalesce delta.ops delta.seq reader.queue
      some { reader with
        phase := .waiting, queue, pending, lastSeq, frames := reader.frames ++ [.delta delta.seq lastSeq ops] }
  | .holding (some .resync) => some (reader.refresh live)
  | _ => none

def Reader.readRow (row : Option StoredRow) (reader : Reader) : Option Reader :=
  match reader.phase with
  | .reading first => some { reader with phase := .fetched first row }
  | _ => none

/-- `get_snapshot` returned. -/
def Reader.deliver (reader : Reader) : Option Reader :=
  match reader.phase with
  | .fetched _ none => some { reader with phase := .ended .missing }
  | .fetched true (some row) => some (reader.send row.snapshot)
  | .fetched false (some row) => some (reader.settle row.snapshot)
  | _ => none

/-- The session check said no. -/
def Reader.revoke (reader : Reader) : Option Reader :=
  match reader.phase with
  | .holding _ => some { reader with phase := .ended .closed }
  | _ => none

def Reader.drop (reader : Reader) : Option Reader :=
  if reader.isOpen then some { reader with phase := .ended .dropped } else none

/-- `close_session_streams`, for one of the session's streams. -/
def Reader.closeSession (reader : Reader) : Option Reader :=
  if reader.isOpen then some { reader with queue := [.close] } else none

structure StreamState where
  live : Option LiveGeneration
  row : Option StoredRow
  readers : List Reader
  /-- What the draft was at each sequence number so far; no step reads it. -/
  drafts : List Snapshot

inductive StreamAction where
  | applyLiveEvents (events : List ProtocolEvent)
  | resetDraftForRetry
  | setLiveStatus (status : Status)
  | notify
  /-- The done callback of the task. -/
  | taskFinished
  /-- A transaction changed the row, which it may while the row is not terminal. -/
  | storeRow (row : StoredRow)
  | deleteRow
  | subscribe
  | take (reader : Nat)
  | timeout (reader : Nat)
  | handle (reader : Nat)
  | readRow (reader : Nat)
  | deliver (reader : Nat)
  | revoke (reader : Nat)
  | drop (reader : Nat)
  | closeSession (reader : Nat)

/-- `_publish`. -/
def publish (item : Option StreamItem) (readers : List Reader) : List Reader :=
  match item with
  | none => readers
  | some item => readers.map (Reader.offered item)

/-- A change of the draft, where there is one. -/
def StreamState.change (s : StreamState) (change : LiveGeneration → Change) : StreamState :=
  match s.live with
  | none => s
  | some live =>
    { s with
      live := some (change live).1
      readers := publish (change live).2 s.readers
      drafts := if (change live).1.seq = live.seq then s.drafts else s.drafts ++ [(change live).1.snapshot] }

/-- One reader takes a step of its own. -/
def StreamState.onReader (s : StreamState) (index : Nat) (move : Reader → Option Reader) : Option StreamState := do
  let reader ← s.readers[index]?
  let reader ← move reader
  return { s with readers := s.readers.set index reader }

def streamStep (s : StreamState) : StreamAction → Option StreamState
  | .applyLiveEvents events => some (s.change fun live => applyLiveEvents live events)
  | .resetDraftForRetry => some (s.change resetDraftForRetry)
  | .setLiveStatus status => some (s.change (setLiveStatus status))
  | .notify => some { s with readers := publish (some .resync) s.readers }
  | .taskFinished => some { s with live := none, readers := publish (some .resync) s.readers }
  | .storeRow row =>
    match s.row with
    | some current => if current.status.isTerminal then none else some { s with row := some row }
    | none => none
  | .deleteRow => some { s with row := none }
  | .subscribe => some { s with readers := s.readers ++ [subscribe s.live] }
  | .take index => s.onReader index Reader.take
  | .timeout index => s.onReader index Reader.timeout
  | .handle index => s.onReader index (Reader.handle s.live)
  | .readRow index => s.onReader index (Reader.readRow s.row)
  | .deliver index => s.onReader index Reader.deliver
  | .revoke index => s.onReader index Reader.revoke
  | .drop index => s.onReader index Reader.drop
  | .closeSession index => s.onReader index Reader.closeSession

/-- What `_schedule` finds and creates. -/
def StreamState.initial : StreamState :=
  { live := some LiveGeneration.new, row := some ⟨.queued, [], 0⟩, readers := [],
    drafts := [LiveGeneration.new.snapshot] }

def streams : Machine StreamState StreamAction where
  init := fun s => s = StreamState.initial
  step := streamStep

end Oveo.Stream
