import Oveo.Protocol.State

/-! # The stream decoder

`ProtocolDecoder`: UTF-8 NDJSON, decoded one chunk at a time.  `consumeRecord` is the part of
`_consume_line` after the line was parsed, `consumeLine` the whole of it. -/

namespace Oveo.Protocol

open Oveo.Lib Oveo.Docx

/-! ## Lines -/

def loadErrorCode : Json.LoadError → ProtocolCode
  | .constant => .invalidJsonNumber
  | .duplicateKey => .duplicateJsonKey
  | .malformed => .invalidJson

/-- `_load_object`. -/
def loadObject (runtime : Json.Runtime) (line : Str) : Except ProtocolCode Members :=
  match Json.loads runtime line with
  | .error error => .error (loadErrorCode error)
  | .ok (.obj members) =>
    -- Only an escape can put a lone surrogate into a decoded line.
    if occursIn (str "\\u") line && Json.hasSurrogate (.obj members) then .error .invalidUnicode else .ok members
  | .ok _ => .error .eventNotObject

/-- `value == 1` for a value that is no boolean. -/
def isVersionOne : Option Json → Bool
  | some (.int value) => value == 1
  | some (.float literal) => Json.floatIsOne literal
  | _ => false

inductive ProtocolEvent where
  | responseStart
  | blockStart (id : Str) (type : BlockType)
  | blockDelta (id : Str) (type : BlockType) (text : Str)
  | blockEnd (id : Str)
  | state (state : StateOperation)
  | responseEnd

/-- The open block: its id, its type and the deltas so far. -/
structure ActiveBlock where
  id : Str
  type : BlockType
  parts : List Str

/-- What the decoder has read of the response. -/
structure ResponseState where
  started : Bool
  completed : Bool
  /-- `_state`; `_state_seen` holds exactly when it is set. -/
  state : Option StateOperation
  active : Option ActiveBlock
  blocks : List ContentBlock
  totalChars : Nat

def ResponseState.initial : ResponseState :=
  { started := false, completed := false, state := none, active := none, blocks := [], totalChars := 0 }

structure Decoder where
  utf8 : Utf8
  /-- The text since the last newline. -/
  pending : Str
  pendingBytes : Nat
  response : ResponseState

def Decoder.initial : Decoder :=
  { utf8 := Utf8.start, pending := [], pendingBytes := 0, response := .initial }

/-- `f"b{number}"`, which always has the shape `_BLOCK_ID` asks for. -/
def eventBlockId (number : Nat) : Str := codePoint 'b' :: digits number

/-- `validate_content_blocks` of the blocks so far. -/
def ResponseState.checkBlocks (r : ResponseState) (limits : Limits) : Except ProtocolCode (List ContentBlock) :=
  validateContentBlocks (r.blocks.map .block) limits.maxBlocks limits.maxTextChars

/-! ## Records -/

/-- `block_id != self._active_id`, or no block is open. -/
def ResponseState.activeFor? (r : ResponseState) (payload : Members) : Option ActiveBlock :=
  match r.active, Json.get? payload (str "id") with
  | some active, some (.str id) => if id = active.id then some active else none
  | _, _ => none

def consumeResponseStart (r : ResponseState) (payload : Members) : Except ProtocolCode (ResponseState × ProtocolEvent) := do
  requireExactKeys payload [str "v", str "event"]
  if r.started then throw .duplicateResponseStart
  return ({ r with started := true }, .responseStart)

def consumeBlockStart (limits : Limits) (r : ResponseState) (payload : Members) :
    Except ProtocolCode (ResponseState × ProtocolEvent) := do
  requireExactKeys payload [str "v", str "event", str "id", str "type"]
  if r.active.isSome then throw .interleavedBlocks
  if limits.maxBlocks ≤ r.blocks.length then throw .invalidBlockCount
  let id := eventBlockId (r.blocks.length + 1)
  match Json.get? payload (str "id") with
  | some (.str candidate) =>
    if candidate = id then
      match Json.get? payload (str "type") with
      | some (.str name) =>
        match BlockType.ofName? name with
        | some type => return ({ r with active := some ⟨id, type, []⟩ }, .blockStart id type)
        | none => throw .invalidBlockType
      | _ => throw .invalidBlockType
    else throw .invalidBlockId
  | _ => throw .invalidBlockId

def consumeBlockDelta (limits : Limits) (r : ResponseState) (payload : Members) :
    Except ProtocolCode (ResponseState × ProtocolEvent) := do
  requireExactKeys payload [str "v", str "event", str "id", str "text"]
  match r.activeFor? payload with
  | none => throw .deltaWithoutActiveBlock
  | some active =>
    match Json.get? payload (str "text") with
    | some (.str text) =>
      if text = [] then throw .emptyDelta
      let totalChars := r.totalChars + text.length
      if limits.maxTextChars < totalChars then throw .responseTooLarge
      return ({ r with totalChars, active := some { active with parts := active.parts ++ [text] } },
        .blockDelta active.id active.type text)
    | _ => throw .emptyDelta

def consumeBlockEnd (r : ResponseState) (payload : Members) : Except ProtocolCode (ResponseState × ProtocolEvent) := do
  requireExactKeys payload [str "v", str "event", str "id"]
  match r.activeFor? payload with
  | none => throw .endWithoutActiveBlock
  | some active =>
    if active.parts.isEmpty || isBlank active.parts.flatten then throw .emptyBlock
    return ({ r with active := none, blocks := r.blocks ++ [⟨active.type, active.parts.flatten⟩] }, .blockEnd active.id)

def consumeState (runtime : Json.Runtime) (limits : Limits) (r : ResponseState) (payload : Members) :
    Except ProtocolCode (ResponseState × ProtocolEvent) := do
  if r.active.isSome then throw .stateWithOpenBlock
  let blocks ← r.checkBlocks limits
  let state ← decodeState runtime limits payload
  if (blocks.head?.map ContentBlock.type) = some .conversation ∧ !state.isNone then throw .invalidStateForConversation
  return ({ r with state := some state }, .state state)

def consumeResponseEnd (limits : Limits) (r : ResponseState) (payload : Members) :
    Except ProtocolCode (ResponseState × ProtocolEvent) := do
  requireExactKeys payload [str "v", str "event"]
  if r.active.isSome then throw .responseEndedWithOpenBlock
  if r.state.isNone then throw .missingState
  let _ ← r.checkBlocks limits
  return ({ r with completed := true }, .responseEnd)

/-- The part of `_consume_line` after `_load_object`. -/
def consumeRecord (runtime : Json.Runtime) (limits : Limits) (r : ResponseState) (payload : Members) :
    Except ProtocolCode (ResponseState × ProtocolEvent) :=
  if !isVersionOne (Json.get? payload (str "v")) then .error .unsupportedVersion
  else
    match Json.get? payload (str "event") with
    | some (.str name) =>
      if r.state.isSome ∧ name ≠ str "response_end" then
        if name = str "state" then .error .duplicateState else .error .eventAfterState
      else if name = str "response_start" then consumeResponseStart r payload
      else if !r.started then .error .missingResponseStart
      else if name = str "block_start" then consumeBlockStart limits r payload
      else if name = str "block_delta" then consumeBlockDelta limits r payload
      else if name = str "block_end" then consumeBlockEnd r payload
      else if name = str "state" then consumeState runtime limits r payload
      else if name = str "response_end" then consumeResponseEnd limits r payload
      else .error .unknownEvent
    | _ => .error .invalidEvent

def consumeLine (runtime : Json.Runtime) (limits : Limits) (r : ResponseState) (line : Str) :
    Except ProtocolCode (ResponseState × ProtocolEvent) :=
  if line = [] then .error .blankLine
  else if limits.maxLineBytes < utf8Size line then .error .eventTooLarge
  else if r.completed then .error .dataAfterResponseEnd
  else do
    let payload ← loadObject runtime line
    consumeRecord runtime limits r payload

/-! ## Chunks -/

def lineFeed : CodePoint := 0x0A

def carriageReturn : CodePoint := 0x0D

/-- `line.removesuffix("\r")`. -/
def removeReturn (line : Str) : Str :=
  if line.getLast? = some carriageReturn then line.dropLast else line

/-- `_take_pending`, then `_consume_line`. -/
def Decoder.consumePending (runtime : Json.Runtime) (limits : Limits) (d : Decoder) :
    Except ProtocolCode (Decoder × ProtocolEvent) := do
  let (response, event) ← consumeLine runtime limits d.response (removeReturn d.pending)
  return ({ d with pending := [], pendingBytes := 0, response }, event)

/-- The loop of `_drain_complete_lines`; `piece` is the text since the last newline. -/
def drainLines (runtime : Json.Runtime) (limits : Limits) (d : Decoder) (piece : Str) :
    Str → Except ProtocolCode (Decoder × List ProtocolEvent)
  | [] =>
    if piece = [] then .ok (d, [])
    else
      let d := { d with pending := d.pending ++ piece, pendingBytes := d.pendingBytes + utf8Size piece }
      if limits.maxLineBytes < d.pendingBytes then .error .eventTooLarge else .ok (d, [])
  | c :: text =>
    if c = lineFeed then do
      let (d, event) ← { d with pending := d.pending ++ piece }.consumePending runtime limits
      let (d, events) ← drainLines runtime limits d [] text
      return (d, event :: events)
    else drainLines runtime limits d (piece ++ [c]) text

/-- `_drain_complete_lines`. -/
def drainCompleteLines (runtime : Json.Runtime) (limits : Limits) (d : Decoder) (text : Str) :
    Except ProtocolCode (Decoder × List ProtocolEvent) :=
  drainLines runtime limits d [] text

def feed (runtime : Json.Runtime) (limits : Limits) (d : Decoder) (chunk : List UInt8) :
    Except ProtocolCode (Decoder × List ProtocolEvent) :=
  if d.response.completed ∧ chunk ≠ [] then .error .dataAfterResponseEnd
  else
    match Utf8.decode d.utf8 chunk with
    | none => .error .invalidUtf8
    | some (utf8, text) => drainCompleteLines runtime limits { d with utf8 } text

def finish (runtime : Json.Runtime) (limits : Limits) (d : Decoder) : Except ProtocolCode ProtocolDocument := do
  if !d.utf8.isFinal then throw .invalidUtf8
  let d ←
    if d.pending = [] then pure d
    else do
      let (d, _) ← d.consumePending runtime limits
      pure d
  if !d.response.completed then throw .incompleteResponse
  match d.response.state with
  | none => throw .missingState
  | some state =>
    let blocks ← d.response.checkBlocks limits
    return { blocks, state }

/-- Feed the chunks one by one: the decoder after them and all events they returned. -/
def feedAll (runtime : Json.Runtime) (limits : Limits) (d : Decoder) :
    List (List UInt8) → Except ProtocolCode (Decoder × List ProtocolEvent)
  | [] => .ok (d, [])
  | chunk :: chunks => do
    let (d, events) ← feed runtime limits d chunk
    let (d, rest) ← feedAll runtime limits d chunks
    return (d, events ++ rest)

/-- Feed the chunks to a new decoder, then call `finish`. -/
def decodeChunks (runtime : Json.Runtime) (limits : Limits) (chunks : List (List UInt8)) :
    Except ProtocolCode (ProtocolDocument × List ProtocolEvent) := do
  let (d, events) ← feedAll runtime limits Decoder.initial chunks
  let document ← finish runtime limits d
  return (document, events)

end Oveo.Protocol
