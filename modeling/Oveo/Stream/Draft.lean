import Oveo.Protocol.Decoder
import Oveo.Store.Rows

/-! # Live drafts and their frames

The draft of one generation that runs in this process, the items its readers' queues hold, the
frames a reader sends, and the reducer of `stream.ts` that a browser applies to them.  Of a
snapshot's fields only those the draft has are kept: the blocks, the status and the sequence
number. -/

namespace Oveo.Stream

open Oveo.Lib Oveo.Protocol Oveo.Store

/-- An entry of a delta's `ops`. -/
inductive DeltaOp where
  | start (type : BlockType)
  | append (text : Str)
  | status (status : Status)

/-- `_Delta`. -/
structure Delta where
  seq : Nat
  ops : List DeltaOp

/-- `_StreamItem`: a delta, `_RESYNC` or `_CLOSE`. -/
inductive StreamItem where
  | delta (delta : Delta)
  | resync
  | close

def StreamItem.isClose : StreamItem → Bool
  | .close => true
  | _ => false

/-- `_LiveGeneration`. -/
structure LiveGeneration where
  status : Status
  seq : Nat
  blocks : List (BlockType × List Str)

/-- What `_schedule` creates. -/
def LiveGeneration.new : LiveGeneration := { status := .queued, seq := 0, blocks := [] }

def snapshotBlocks (blocks : List (BlockType × List Str)) : List ContentBlock :=
  blocks.map fun block => ⟨block.1, block.2.flatten⟩

/-- The columns of a stored generation that a snapshot reads. -/
structure StoredRow where
  status : Status
  partialBlocks : List ContentBlock
  streamRevision : Nat

/-- A snapshot, and the state of a browser that follows the generation. -/
structure Snapshot where
  status : Status
  blocks : List ContentBlock
  seq : Nat
deriving DecidableEq

def LiveGeneration.snapshot (live : LiveGeneration) : Snapshot :=
  { status := live.status, blocks := snapshotBlocks live.blocks, seq := live.seq }

def StoredRow.snapshot (row : StoredRow) : Snapshot :=
  { status := row.status, blocks := row.partialBlocks, seq := row.streamRevision }

/-! ## Changes of the draft -/

/-- `live.blocks[-1][1].append(text)`, where there is a block. -/
def appendPart (text : Str) (blocks : List (BlockType × List Str)) : Option (List (BlockType × List Str)) :=
  match blocks.getLast? with
  | none => none
  | some (type, parts) => some (blocks.dropLast ++ [(type, parts ++ [text])])

/-- The loop of `_apply_live_events`; `none` where it raises.  It can only raise while there is no
block, so it has not changed the draft then. -/
def collectOps (blocks : List (BlockType × List Str)) :
    List ProtocolEvent → Option (List (BlockType × List Str) × List DeltaOp)
  | [] => some (blocks, [])
  | .blockStart _ type :: events => do
    let (blocks, ops) ← collectOps (blocks ++ [(type, [])]) events
    return (blocks, .start type :: ops)
  | .blockDelta _ _ text :: events => do
    let blocks ← appendPart text blocks
    let (blocks, ops) ← collectOps blocks events
    return (blocks, .append text :: ops)
  | .responseStart :: events | .blockEnd _ :: events | .state _ :: events | .responseEnd :: events =>
    collectOps blocks events

/-- A change of the draft: the draft after it and the item it publishes. -/
abbrev Change := LiveGeneration × Option StreamItem

/-- `_apply_live_events`, where it does not raise. -/
def applyLiveEvents (live : LiveGeneration) (events : List ProtocolEvent) : Change :=
  if live.status ≠ .running then (live, none)
  else
    match collectOps live.blocks events with
    | none => (live, none)
    | some (blocks, ops) =>
      if ops.isEmpty then ({ live with blocks }, none)
      else ({ live with blocks, seq := live.seq + 1 }, some (.delta ⟨live.seq + 1, ops⟩))

/-- `_reset_draft_for_retry`. -/
def resetDraftForRetry (live : LiveGeneration) : Change :=
  if live.status ≠ .running then (live, none)
  else ({ live with blocks := [], seq := live.seq + 1 }, some .resync)

/-- `_set_live_status`. -/
def setLiveStatus (status : Status) (live : LiveGeneration) : Change :=
  if live.status.isTerminal then (live, some .resync)
  else if status.isTerminal then ({ live with status }, some .resync)
  else ({ live with status, seq := live.seq + 1 }, some (.delta ⟨live.seq + 1, [.status status]⟩))

theorem setLiveStatus_blocks (status : Status) (live : LiveGeneration) : (setLiveStatus status live).1.blocks = live.blocks := by
  unfold setLiveStatus
  split
  next => rfl
  next => split <;> rfl

/-! ## Queues -/

/-- `_STREAM_QUEUE_SIZE`. -/
def streamQueueSize : Nat := 256

/-- `_offer`. -/
def offer (queue : List StreamItem) (item : StreamItem) : List StreamItem :=
  if queue.length < streamQueueSize then queue ++ [item]
  else [if item.isClose || queue.any StreamItem.isClose then .close else .resync]

/-- The coalescing loop of `_events`: the operations and the sequence number after it, the item it
puts aside, and the rest of the queue. -/
def coalesce (ops : List DeltaOp) (lastSeq : Nat) :
    List StreamItem → List DeltaOp × Nat × Option StreamItem × List StreamItem
  | [] => (ops, lastSeq, none, [])
  | .delta delta :: queue =>
    if delta.seq = lastSeq + 1 then coalesce (ops ++ delta.ops) delta.seq queue
    else (ops, lastSeq, some (.delta delta), queue)
  | item :: queue => (ops, lastSeq, some item, queue)

/-! ## Frames -/

/-- The events a stream sends; a keep-alive comment carries nothing. -/
inductive Frame where
  | snapshot (shown : Snapshot)
  | delta (start seq : Nat) (ops : List DeltaOp)

/-- The sequence number a frame carries. -/
def Frame.seq : Frame → Nat
  | .snapshot shown => shown.seq
  | .delta _ seq _ => seq

/-- One operation of `applyDelta`. -/
def applyOp (blocks : List ContentBlock) (status : Status) : DeltaOp → Option (List ContentBlock × Status)
  | .start type => some (blocks ++ [⟨type, []⟩], status)
  | .append text =>
    match blocks.getLast? with
    | none => none
    | some last => some (blocks.dropLast ++ [{ last with text := last.text ++ text }], status)
  | .status status => some (blocks, status)

def applyOps (blocks : List ContentBlock) (status : Status) : List DeltaOp → Option (List ContentBlock × Status)
  | [] => some (blocks, status)
  | op :: ops => do
    let (blocks, status) ← applyOp blocks status op
    applyOps blocks status ops

/-- `applyDelta`: `none` on a sequence gap. -/
def applyDelta (snapshot : Snapshot) (start seq : Nat) (ops : List DeltaOp) : Option Snapshot :=
  if start ≠ snapshot.seq + 1 then none
  else do
    let (blocks, status) ← applyOps snapshot.blocks snapshot.status ops
    return { status, blocks, seq }

/-- A browser takes a frame; before its first snapshot it has no state. -/
def consume (current : Option Snapshot) : Frame → Option Snapshot
  | .snapshot shown => some shown
  | .delta start seq ops => current.bind fun shown => applyDelta shown start seq ops

/-- The state of a browser after these frames. -/
def replay (frames : List Frame) : Option Snapshot := frames.foldl consume none

/-! ## The reducer follows the draft -/

@[simp] theorem replay_append (frames : List Frame) (frame : Frame) :
    replay (frames ++ [frame]) = consume (replay frames) frame := by
  simp [replay]

theorem applyOps_append {blocks : List ContentBlock} {status : Status} (left right : List DeltaOp) :
    applyOps blocks status (left ++ right) =
      (applyOps blocks status left).bind fun after => applyOps after.1 after.2 right := by
  induction left generalizing blocks status with
  | nil => rfl
  | cons op left inductionHypothesis =>
    simp only [List.cons_append, applyOps]
    cases applyOp blocks status op with
    | none => rfl
    | some after => exact inductionHypothesis

/-- Appending to the draft is appending to its snapshot. -/
theorem applyOp_append {text : Str} {blocks after : List (BlockType × List Str)} {status : Status}
    (appended : appendPart text blocks = some after) :
    applyOp (snapshotBlocks blocks) status (.append text) = some (snapshotBlocks after, status) := by
  rcases List.eq_nil_or_concat blocks with rfl | ⟨earlier, ⟨type, parts⟩, rfl⟩
  · cases appended
  · simp only [appendPart, List.concat_eq_append, List.getLast?_concat, List.dropLast_concat, Option.some.injEq] at appended
    subst appended
    simp [applyOp, snapshotBlocks]

/-- The operations of a batch of events turn the snapshot before it into the one after it. -/
theorem collectOps_applyOps {blocks after : List (BlockType × List Str)} {events : List ProtocolEvent}
    {ops : List DeltaOp} {status : Status} (collected : collectOps blocks events = some (after, ops)) :
    applyOps (snapshotBlocks blocks) status ops = some (snapshotBlocks after, status) := by
  induction events generalizing blocks ops with
  | nil =>
    cases collected
    rfl
  | cons event events inductionHypothesis =>
    cases event with
    | blockStart id type =>
      obtain ⟨⟨_, rest⟩, later, same⟩ := Option.bind_eq_some_iff.mp collected
      cases same
      have started : applyOp (snapshotBlocks blocks) status (.start type) =
          some (snapshotBlocks (blocks ++ [(type, [])]), status) := by
        simp [applyOp, snapshotBlocks]
      simp only [applyOps, started]
      exact inductionHypothesis later
    | blockDelta id type text =>
      obtain ⟨middle, appended, rest⟩ := Option.bind_eq_some_iff.mp collected
      obtain ⟨⟨_, rest⟩, later, same⟩ := Option.bind_eq_some_iff.mp rest
      cases same
      simp only [applyOps, applyOp_append appended]
      exact inductionHypothesis later
    | responseStart | blockEnd _ | state _ | responseEnd => exact inductionHypothesis collected

/-- A batch without operations leaves the blocks alone. -/
theorem collectOps_nil {blocks after : List (BlockType × List Str)} {events : List ProtocolEvent}
    (collected : collectOps blocks events = some (after, [])) : after = blocks := by
  induction events generalizing blocks with
  | nil =>
    cases collected
    rfl
  | cons event events inductionHypothesis =>
    cases event with
    | blockStart id type =>
      obtain ⟨⟨_, _⟩, -, same⟩ := Option.bind_eq_some_iff.mp collected
      cases same
    | blockDelta id type text =>
      obtain ⟨_, -, rest⟩ := Option.bind_eq_some_iff.mp collected
      obtain ⟨⟨_, _⟩, -, same⟩ := Option.bind_eq_some_iff.mp rest
      cases same
    | responseStart | blockEnd _ | state _ | responseEnd => exact inductionHypothesis collected

end Oveo.Stream
