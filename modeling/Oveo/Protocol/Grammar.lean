import Oveo.Protocol.Content
import Oveo.Protocol.Lines
import Oveo.Protocol.Schema

/-! # The grammar of a response

A response is a sequence of events: `response_start`, the blocks, one `state`, `response_end`.
`Spells` says which record carries which event, `Admits` when the decoder, having read part of a
response, takes an event, and `Response` is the grammar itself.  The events the decoder takes from
its first state to `response_end` are those of a well-formed response (`run_iff_response`). -/

namespace Oveo.Protocol

open Oveo.Lib Oveo.Docx

variable {runtime : Json.Runtime} {limits : Limits}

/-! ## Records -/

/-- A record of a named event with exactly these further keys. -/
def EventFields (payload : Members) (name : String) (keys : List Str) : Prop :=
  Field payload (str "event") IsText (str name) ∧ Json.hasExactKeys payload (str "v" :: str "event" :: keys) = true

/-- The record of an event.  A delta does not repeat the type of its block. -/
def Spells (runtime : Json.Runtime) (limits : Limits) (payload : Members) : ProtocolEvent → Prop
  | .responseStart => EventFields payload "response_start" []
  | .blockStart id type =>
    EventFields payload "block_start" [str "id", str "type"] ∧ Field payload (str "id") IsText id ∧
      Field payload (str "type") IsText type.name
  | .blockDelta id _ text =>
    EventFields payload "block_delta" [str "id", str "text"] ∧ Field payload (str "id") IsText id ∧
      Field payload (str "text") IsText text
  | .blockEnd id => EventFields payload "block_end" [str "id"] ∧ Field payload (str "id") IsText id
  | .state state =>
    Field payload (str "event") IsText (str "state") ∧ StateRecord runtime limits payload state
  | .responseEnd => EventFields payload "response_end" []

/-! ## The decoder on events -/

/-- Between `response_start` and the state. -/
structure ResponseState.InBlocks (r : ResponseState) : Prop where
  started : r.started = true
  unfinished : r.completed = false
  stateless : r.state = none

/-- The decoder takes an event. -/
inductive Admits (limits : Limits) : ResponseState → ProtocolEvent → ResponseState → Prop where
  | responseStart {r} : r.started = false → r.completed = false → r.state = none →
      Admits limits r .responseStart { r with started := true }
  | blockStart {r} (type) : r.InBlocks → r.active = none → r.blocks.length < limits.maxBlocks →
      Admits limits r (.blockStart (eventBlockId (r.blocks.length + 1)) type)
        { r with active := some ⟨eventBlockId (r.blocks.length + 1), type, []⟩ }
  | blockDelta {r} (active) {text} : r.InBlocks → r.active = some active → text ≠ [] →
      r.totalChars + text.length ≤ limits.maxTextChars →
      Admits limits r (.blockDelta active.id active.type text)
        { r with totalChars := r.totalChars + text.length, active := some { active with parts := active.parts ++ [text] } }
  | blockEnd {r} (active) : r.InBlocks → r.active = some active → active.parts ≠ [] → isBlank active.parts.flatten = false →
      Admits limits r (.blockEnd active.id)
        { r with active := none, blocks := r.blocks ++ [⟨active.type, active.parts.flatten⟩] }
  | state {r} (state) : r.InBlocks → r.active = none → ValidBlocks limits.maxBlocks limits.maxTextChars r.blocks →
      (r.blocks.map ContentBlock.type = [.conversation] → state.isNone = true) →
      Admits limits r (.state state) { r with state := some state }
  | responseEnd {r} : r.started = true → r.completed = false → r.state.isSome = true → r.active = none →
      ValidBlocks limits.maxBlocks limits.maxTextChars r.blocks →
      Admits limits r .responseEnd { r with completed := true }

/-- A valid sequence of blocks that starts with a conversation is one conversation. -/
theorem KindOrder.head_conversation {types : List BlockType} (order : KindOrder types) :
    types.head? = some .conversation ↔ types = [.conversation] := by
  cases order <;> simp

theorem activeFor?_eq_some {r : ResponseState} {payload : Members} {active : ActiveBlock} :
    r.activeFor? payload = some active ↔ r.active = some active ∧ Field payload (str "id") IsText active.id := by
  constructor
  · intro found
    unfold ResponseState.activeFor? at found
    split at found
    next current id isActive idFound =>
      split at found
      next same =>
        cases found
        exact ⟨isActive, _, idFound, congrArg Json.str same⟩
      next => cases found
    next => cases found
  · rintro ⟨isActive, _, idFound, rfl⟩
    simp [ResponseState.activeFor?, isActive, idFound]

section

variable {r r' : ResponseState} {payload : Members} {event : ProtocolEvent}

theorem consumeResponseStart_eq_ok :
    consumeResponseStart r payload = .ok (r', event) ↔
      Json.hasExactKeys payload [str "v", str "event"] = true ∧ r.started = false ∧
        event = .responseStart ∧ r' = { r with started := true } := by
  simp only [consumeResponseStart, ok_bind_iff, requireExactKeys_eq_ok, throw_bind, ite_error_eq_ok, pure_eq_ok,
    Except.ok.injEq, Prod.mk.injEq, Bool.not_eq_true, exists_const]
  grind

theorem BlockType.ofName?_eq_some {name : Str} {type : BlockType} : BlockType.ofName? name = some type ↔ name = type.name := by
  constructor
  · intro found
    simp only [BlockType.ofName?, beq_iff_eq] at found
    split_ifs at found with conversation deliverable advice
    · cases found
      exact conversation
    · cases found
      exact deliverable
    · cases found
      exact advice
  · rintro rfl
    exact BlockType.ofName?_name type

theorem consumeBlockStart_eq_ok :
    consumeBlockStart limits r payload = .ok (r', event) ↔
      Json.hasExactKeys payload [str "v", str "event", str "id", str "type"] = true ∧ r.active = none ∧
        r.blocks.length < limits.maxBlocks ∧ Field payload (str "id") IsText (eventBlockId (r.blocks.length + 1)) ∧
        ∃ type, Field payload (str "type") IsText type.name ∧
          event = .blockStart (eventBlockId (r.blocks.length + 1)) type ∧
          r' = { r with active := some ⟨eventBlockId (r.blocks.length + 1), type, []⟩ } := by
  simp only [consumeBlockStart, ok_bind_iff, requireExactKeys_eq_ok, throw_bind, ite_error_eq_ok, exists_const,
    Nat.not_le, Bool.not_eq_true, Option.isSome_eq_false_iff, Option.isNone_iff_eq_none]
  refine and_congr_right fun _ => and_congr_right fun _ => and_congr_right fun _ => ?_
  constructor
  · intro read
    split at read
    next candidate idFound =>
      split_ifs at read with same
      · split at read
        next name typeFound =>
          split at read
          next type known =>
            cases read
            refine ⟨⟨_, idFound, congrArg Json.str same⟩, type, ⟨_, typeFound, ?_⟩, rfl, rfl⟩
            exact congrArg Json.str (BlockType.ofName?_eq_some.mp known)
          next => cases read
        next => cases read
    next => cases read
  · rintro ⟨⟨_, idFound, rfl⟩, type, ⟨_, typeFound, rfl⟩, rfl, rfl⟩
    simp [idFound, typeFound]

theorem consumeBlockDelta_eq_ok :
    consumeBlockDelta limits r payload = .ok (r', event) ↔
      Json.hasExactKeys payload [str "v", str "event", str "id", str "text"] = true ∧
        ∃ active text, r.active = some active ∧ Field payload (str "id") IsText active.id ∧
          Field payload (str "text") IsText text ∧ text ≠ [] ∧ r.totalChars + text.length ≤ limits.maxTextChars ∧
          event = .blockDelta active.id active.type text ∧
          r' = { r with
            totalChars := r.totalChars + text.length, active := some { active with parts := active.parts ++ [text] } } := by
  simp only [consumeBlockDelta, ok_bind_iff, requireExactKeys_eq_ok, exists_const]
  refine and_congr_right fun _ => ?_
  constructor
  · intro read
    split at read
    next => cases read
    next active isActive =>
      obtain ⟨isActive, idField⟩ := activeFor?_eq_some.mp isActive
      split at read
      next text textFound =>
        simp only [throw_bind, ite_error_eq_ok, pure_eq_ok, Except.ok.injEq, Prod.mk.injEq, Nat.not_lt] at read
        obtain ⟨nonempty, small, rfl, rfl⟩ := read
        exact ⟨active, text, isActive, idField, ⟨_, textFound, rfl⟩, nonempty, small, rfl, rfl⟩
      next => cases read
  · rintro ⟨active, text, isActive, idField, ⟨_, textFound, rfl⟩, nonempty, small, rfl, rfl⟩
    have found := activeFor?_eq_some.mpr ⟨isActive, idField⟩
    simp [found, textFound, nonempty, Nat.not_lt.mpr small]

theorem consumeBlockEnd_eq_ok :
    consumeBlockEnd r payload = .ok (r', event) ↔
      Json.hasExactKeys payload [str "v", str "event", str "id"] = true ∧
        ∃ active, r.active = some active ∧ Field payload (str "id") IsText active.id ∧ active.parts ≠ [] ∧
          isBlank active.parts.flatten = false ∧ event = .blockEnd active.id ∧
          r' = { r with active := none, blocks := r.blocks ++ [⟨active.type, active.parts.flatten⟩] } := by
  simp only [consumeBlockEnd, ok_bind_iff, requireExactKeys_eq_ok, exists_const]
  refine and_congr_right fun _ => ?_
  constructor
  · intro read
    split at read
    next => cases read
    next active isActive =>
      obtain ⟨isActive, idField⟩ := activeFor?_eq_some.mp isActive
      simp only [throw_bind, ite_error_eq_ok, pure_eq_ok, Except.ok.injEq, Prod.mk.injEq, Bool.or_eq_true,
        List.isEmpty_iff, not_or, Bool.not_eq_true] at read
      obtain ⟨⟨nonempty, filled⟩, rfl, rfl⟩ := read
      exact ⟨active, isActive, idField, nonempty, filled, rfl, rfl⟩
  · rintro ⟨active, isActive, idField, nonempty, filled, rfl, rfl⟩
    have found := activeFor?_eq_some.mpr ⟨isActive, idField⟩
    simp [found, nonempty, filled]

theorem consumeState_eq_ok :
    consumeState runtime limits r payload = .ok (r', event) ↔
      r.active = none ∧ ValidBlocks limits.maxBlocks limits.maxTextChars r.blocks ∧
        ∃ state, StateRecord runtime limits payload state ∧
          (r.blocks.map ContentBlock.type = [.conversation] → state.isNone = true) ∧
          event = .state state ∧ r' = { r with state := some state } := by
  simp only [consumeState, throw_bind, ite_error_eq_ok, ok_bind_iff, checkBlocks_eq_ok, decodeState_eq_ok, pure_eq_ok,
    Except.ok.injEq, Prod.mk.injEq, Bool.not_eq_true, Option.isSome_eq_false_iff, Option.isNone_iff_eq_none]
  refine and_congr_right fun _ => ?_
  constructor
  · rintro ⟨_, ⟨rfl, valid⟩, state, record, conversation, rfl, rfl⟩
    refine ⟨valid, state, record, fun single => ?_, rfl, rfl⟩
    by_contra other
    refine conversation ⟨?_, by simpa using other⟩
    rw [← List.head?_map]
    exact valid.kinds.head_conversation.mpr single
  · rintro ⟨valid, state, record, conversation, rfl, rfl⟩
    refine ⟨_, ⟨rfl, valid⟩, state, record, ?_, rfl, rfl⟩
    rintro ⟨first, other⟩
    rw [← List.head?_map] at first
    rw [conversation (valid.kinds.head_conversation.mp first)] at other
    cases other

theorem consumeResponseEnd_eq_ok :
    consumeResponseEnd limits r payload = .ok (r', event) ↔
      Json.hasExactKeys payload [str "v", str "event"] = true ∧ r.active = none ∧ r.state.isSome = true ∧
        ValidBlocks limits.maxBlocks limits.maxTextChars r.blocks ∧ event = .responseEnd ∧
        r' = { r with completed := true } := by
  simp only [consumeResponseEnd, throw_bind, ite_error_eq_ok, ok_bind_iff, requireExactKeys_eq_ok, checkBlocks_eq_ok,
    pure_eq_ok, Except.ok.injEq, Prod.mk.injEq, Bool.not_eq_true, Option.isSome_eq_false_iff, Option.isNone_iff_eq_none,
    exists_const]
  constructor
  · rintro ⟨keys, closed, stated, _, ⟨-, valid⟩, rfl, rfl⟩
    exact ⟨keys, closed, by simpa [Option.isSome_iff_ne_none] using stated, valid, rfl, rfl⟩
  · rintro ⟨keys, closed, stated, valid, rfl, rfl⟩
    exact ⟨keys, closed, by simpa [Option.isSome_iff_ne_none] using stated, _, ⟨rfl, valid⟩, rfl, rfl⟩

/-- Before the state every event but `response_end` is looked up by its name. -/
theorem consumeRecord_inBlocks {name : Str} (version : isVersionOne (Json.get? payload (str "v")) = true)
    (named : Field payload (str "event") IsText name) (stateless : r.state = none) :
    consumeRecord runtime limits r payload =
      if name = str "response_start" then consumeResponseStart r payload
      else if !r.started then .error .missingResponseStart
      else if name = str "block_start" then consumeBlockStart limits r payload
      else if name = str "block_delta" then consumeBlockDelta limits r payload
      else if name = str "block_end" then consumeBlockEnd r payload
      else if name = str "state" then consumeState runtime limits r payload
      else if name = str "response_end" then consumeResponseEnd limits r payload
      else .error .unknownEvent := by
  obtain ⟨_, found, rfl⟩ := named
  simp [consumeRecord, version, found, stateless]

/-- One record: the decoder takes it when it spells an event that may come now. -/
theorem consumeRecord_eq_ok (version : isVersionOne (Json.get? payload (str "v")) = true) (unfinished : r.completed = false) :
    consumeRecord runtime limits r payload = .ok (r', event) ↔
      Spells runtime limits payload event ∧ Admits limits r event r' := by
  constructor
  · intro taken
    simp only [consumeRecord, version, Bool.not_true, Bool.false_eq_true, if_false] at taken
    split at taken
    next name found =>
      have named : Field payload (str "event") IsText name := ⟨_, found, rfl⟩
      have stateless (late : ¬ (r.state.isSome = true ∧ name ≠ str "response_end")) (other : name ≠ str "response_end") :
          r.state = none := by
        by_contra stated
        exact late ⟨Option.isSome_iff_ne_none.mpr stated, other⟩
      split_ifs at taken with late _ isStart notStarted isBlockStart isDelta isBlockEnd isState isEnd
      · subst isStart
        obtain ⟨keys, notStarted, rfl, rfl⟩ := consumeResponseStart_eq_ok.mp taken
        exact ⟨⟨named, keys⟩, .responseStart notStarted unfinished (stateless late (by decide))⟩
      · subst isBlockStart
        have inBlocks : r.InBlocks := ⟨by simpa using notStarted, unfinished, stateless late (by decide)⟩
        obtain ⟨keys, closed, few, idField, type, typeField, rfl, rfl⟩ := consumeBlockStart_eq_ok.mp taken
        exact ⟨⟨⟨named, keys⟩, idField, typeField⟩, .blockStart type inBlocks closed few⟩
      · subst isDelta
        have inBlocks : r.InBlocks := ⟨by simpa using notStarted, unfinished, stateless late (by decide)⟩
        obtain ⟨keys, active, text, isActive, idField, textField, nonempty, small, rfl, rfl⟩ :=
          consumeBlockDelta_eq_ok.mp taken
        exact ⟨⟨⟨named, keys⟩, idField, textField⟩, .blockDelta active inBlocks isActive nonempty small⟩
      · subst isBlockEnd
        have inBlocks : r.InBlocks := ⟨by simpa using notStarted, unfinished, stateless late (by decide)⟩
        obtain ⟨keys, active, isActive, idField, nonempty, filled, rfl, rfl⟩ := consumeBlockEnd_eq_ok.mp taken
        exact ⟨⟨⟨named, keys⟩, idField⟩, .blockEnd active inBlocks isActive nonempty filled⟩
      · subst isState
        have inBlocks : r.InBlocks := ⟨by simpa using notStarted, unfinished, stateless late (by decide)⟩
        obtain ⟨closed, valid, state, record, conversation, rfl, rfl⟩ := consumeState_eq_ok.mp taken
        exact ⟨⟨named, record⟩, .state state inBlocks closed valid conversation⟩
      · subst isEnd
        obtain ⟨keys, closed, stated, valid, rfl, rfl⟩ := consumeResponseEnd_eq_ok.mp taken
        exact ⟨⟨named, keys⟩, .responseEnd (by simpa using notStarted) unfinished stated closed valid⟩
    next => cases taken
  · rintro ⟨spells, admits⟩
    cases admits with
    | responseStart notStarted _ stateless =>
      obtain ⟨named, keys⟩ := spells
      rw [consumeRecord_inBlocks version named stateless, if_pos rfl]
      exact consumeResponseStart_eq_ok.mpr ⟨keys, notStarted, rfl, rfl⟩
    | blockStart type inBlocks closed few =>
      obtain ⟨⟨named, keys⟩, idField, typeField⟩ := spells
      rw [consumeRecord_inBlocks version named inBlocks.stateless, if_neg (by decide), if_neg (by simp [inBlocks.started]),
        if_pos rfl]
      exact consumeBlockStart_eq_ok.mpr ⟨keys, closed, few, idField, type, typeField, rfl, rfl⟩
    | blockDelta active inBlocks isActive nonempty small =>
      obtain ⟨⟨named, keys⟩, idField, textField⟩ := spells
      rw [consumeRecord_inBlocks version named inBlocks.stateless, if_neg (by decide), if_neg (by simp [inBlocks.started]),
        if_neg (by decide), if_pos rfl]
      exact consumeBlockDelta_eq_ok.mpr ⟨keys, active, _, isActive, idField, textField, nonempty, small, rfl, rfl⟩
    | blockEnd active inBlocks isActive nonempty filled =>
      obtain ⟨⟨named, keys⟩, idField⟩ := spells
      rw [consumeRecord_inBlocks version named inBlocks.stateless, if_neg (by decide), if_neg (by simp [inBlocks.started]),
        if_neg (by decide), if_neg (by decide), if_pos rfl]
      exact consumeBlockEnd_eq_ok.mpr ⟨keys, active, isActive, idField, nonempty, filled, rfl, rfl⟩
    | state state inBlocks closed valid conversation =>
      obtain ⟨named, record⟩ := spells
      rw [consumeRecord_inBlocks version named inBlocks.stateless, if_neg (by decide), if_neg (by simp [inBlocks.started]),
        if_neg (by decide), if_neg (by decide), if_neg (by decide), if_pos rfl]
      exact consumeState_eq_ok.mpr ⟨closed, valid, state, record, conversation, rfl, rfl⟩
    | responseEnd started _ stated closed valid =>
      obtain ⟨⟨_, found, rfl⟩, keys⟩ := spells
      have ended : consumeResponseEnd limits r payload = .ok ({ r with completed := true }, .responseEnd) :=
        consumeResponseEnd_eq_ok.mpr ⟨keys, closed, stated, valid, rfl, rfl⟩
      rw [← ended]
      simp only [consumeRecord, version, found, started]
      rw [if_neg (by decide), if_neg (by simp), if_neg (by decide), if_neg (by decide), if_neg (by decide),
        if_neg (by decide), if_neg (by decide), if_neg (by decide), if_pos trivial]

end

/-! ## Lines -/

/-- A line within the limit whose JSON object spells an event. -/
structure Line (runtime : Json.Runtime) (limits : Limits) (line : Str) (event : ProtocolEvent) : Prop where
  size : utf8Size line ≤ limits.maxLineBytes
  record : ∃ payload, loadObject runtime line = .ok payload ∧ isVersionOne (Json.get? payload (str "v")) = true ∧
    Spells runtime limits payload event

/-- A blank line holds no JSON. -/
theorem loadObject_nil : loadObject runtime [] = .error .invalidJson := rfl

theorem Admits.unfinished {r r' : ResponseState} {event : ProtocolEvent} (admits : Admits limits r event r') :
    r.completed = false := by
  cases admits with
  | responseStart _ unfinished _ => exact unfinished
  | blockStart _ inBlocks | blockDelta _ inBlocks | blockEnd _ inBlocks | state _ inBlocks => exact inBlocks.unfinished
  | responseEnd _ unfinished => exact unfinished

theorem consumeLine_eq_ok {r r' : ResponseState} {line : Str} {event : ProtocolEvent} :
    consumeLine runtime limits r line = .ok (r', event) ↔ Line runtime limits line event ∧ Admits limits r event r' := by
  simp only [consumeLine, ite_error_eq_ok, ok_bind_iff, Nat.not_lt, Bool.not_eq_true]
  constructor
  · rintro ⟨-, size, unfinished, payload, loaded, taken⟩
    have version : isVersionOne (Json.get? payload (str "v")) = true := by
      by_contra other
      simp [consumeRecord, other] at taken
    obtain ⟨spells, admits⟩ := (consumeRecord_eq_ok version unfinished).mp taken
    exact ⟨⟨size, payload, loaded, version, spells⟩, admits⟩
  · rintro ⟨⟨size, payload, loaded, version, spells⟩, admits⟩
    refine ⟨?_, size, admits.unfinished, payload, loaded, (consumeRecord_eq_ok version admits.unfinished).mpr ⟨spells, admits⟩⟩
    rintro rfl
    rw [loadObject_nil] at loaded
    cases loaded

/-- The decoder takes the events one after the other. -/
inductive Run (limits : Limits) : ResponseState → List ProtocolEvent → ResponseState → Prop where
  | nil (r) : Run limits r [] r
  | cons {r middle r' event events} : Admits limits r event middle → Run limits middle events r' →
      Run limits r (event :: events) r'

theorem Run.append {r middle r' : ResponseState} {left right : List ProtocolEvent} (first : Run limits r left middle)
    (second : Run limits middle right r') : Run limits r (left ++ right) r' := by
  induction first with
  | nil => exact second
  | cons admits _ inductionHypothesis => exact .cons admits (inductionHypothesis second)

theorem consumeLines_eq_ok {r r' : ResponseState} {lines : List Str} {events : List ProtocolEvent} :
    consumeLines runtime limits r lines = .ok (r', events) ↔
      List.Forall₂ (Line runtime limits) (lines.map removeReturn) events ∧ Run limits r events r' := by
  induction lines generalizing r events with
  | nil =>
    constructor
    · intro consumed
      cases consumed
      exact ⟨.nil, .nil _⟩
    · rintro ⟨each, run⟩
      cases each
      cases run
      rfl
  | cons line lines inductionHypothesis =>
    simp only [consumeLines_cons_ok, consumeLine_eq_ok, inductionHypothesis, List.map_cons]
    constructor
    · rintro ⟨middle, event, rest, ⟨head, admits⟩, ⟨each, run⟩, rfl⟩
      exact ⟨.cons head each, .cons admits run⟩
    · rintro ⟨each, run⟩
      cases each with
      | cons head each =>
        cases run with
        | cons admits run => exact ⟨_, _, _, ⟨head, admits⟩, ⟨each, run⟩, rfl⟩

/-! ## Responses -/

/-- A block as the stream carries it. -/
structure StreamedBlock where
  type : BlockType
  deltas : List Str

def StreamedBlock.content (block : StreamedBlock) : ContentBlock := ⟨block.type, block.deltas.flatten⟩

/-- One start, the deltas, one end, all with the id of the block's place. -/
def StreamedBlock.events (number : Nat) (block : StreamedBlock) : List ProtocolEvent :=
  .blockStart (eventBlockId number) block.type ::
    block.deltas.map (.blockDelta (eventBlockId number) block.type) ++ [.blockEnd (eventBlockId number)]

/-- Blocks numbered from `number` on. -/
def blocksEvents (number : Nat) : List StreamedBlock → List ProtocolEvent
  | [] => []
  | block :: blocks => block.events number ++ blocksEvents (number + 1) blocks

structure Response where
  blocks : List StreamedBlock
  state : StateOperation

def Response.events (response : Response) : List ProtocolEvent :=
  .responseStart :: blocksEvents 1 response.blocks ++ [.state response.state, .responseEnd]

def Response.document (response : Response) : ProtocolDocument :=
  { blocks := response.blocks.map StreamedBlock.content, state := response.state }

/-- Every delta holds something, and so does every block. -/
structure StreamedBlock.WellFormed (block : StreamedBlock) : Prop where
  nonempty : block.deltas ≠ []
  deltas : ∀ delta ∈ block.deltas, delta ≠ []
  filled : isBlank block.content.text = false

structure Response.WellFormed (limits : Limits) (response : Response) : Prop where
  blocks : ∀ block ∈ response.blocks, block.WellFormed
  content : ValidBlocks limits.maxBlocks limits.maxTextChars (response.blocks.map StreamedBlock.content)
  conversation : response.blocks.map StreamedBlock.type = [.conversation] → response.state.isNone = true

theorem blocksEvents_append (number : Nat) (left right : List StreamedBlock) :
    blocksEvents number (left ++ right) = blocksEvents number left ++ blocksEvents (number + left.length) right := by
  induction left generalizing number with
  | nil => rfl
  | cons block left inductionHypothesis =>
    simp only [List.cons_append, blocksEvents, inductionHypothesis, List.append_assoc, List.length_cons]
    congr 3
    omega

theorem blocksEvents_concat (blocks : List StreamedBlock) (block : StreamedBlock) :
    blocksEvents 1 (blocks ++ [block]) = blocksEvents 1 blocks ++ block.events (blocks.length + 1) := by
  rw [blocksEvents_append, Nat.add_comm]
  simp [blocksEvents]

/-- The characters of blocks. -/
def streamedChars (blocks : List StreamedBlock) : Nat := (blocks.map fun block => block.content.text.length).sum

/-- The decoder after the blocks of a response. -/
def afterBlocks (blocks : List StreamedBlock) : ResponseState :=
  { started := true, completed := false, state := none, active := none,
    blocks := blocks.map StreamedBlock.content, totalChars := streamedChars blocks }

/-- The decoder in the middle of a block. -/
def inBlock (blocks : List StreamedBlock) (block : StreamedBlock) : ResponseState :=
  { started := true, completed := false, state := none,
    active := some ⟨eventBlockId (blocks.length + 1), block.type, block.deltas⟩,
    blocks := blocks.map StreamedBlock.content, totalChars := streamedChars blocks + block.content.text.length }

/-- The decoder after the state. -/
def afterState (response : Response) : ResponseState :=
  { afterBlocks response.blocks with state := some response.state }

def Response.completed (response : Response) : ResponseState :=
  { afterState response with completed := true }

/-! ### From a response to a run -/

theorem run_deltas {blocks : List StreamedBlock} {block : StreamedBlock} (rest : List Str)
    (deltas : ∀ delta ∈ rest, delta ≠ [])
    (size : streamedChars blocks + (block.deltas ++ rest).flatten.length ≤ limits.maxTextChars) :
    Run limits (inBlock blocks block) (rest.map (.blockDelta (eventBlockId (blocks.length + 1)) block.type))
      (inBlock blocks { block with deltas := block.deltas ++ rest }) := by
  induction rest generalizing block with
  | nil =>
    rw [List.append_nil]
    exact .nil _
  | cons delta rest inductionHypothesis =>
    simp only [List.flatten_append, List.flatten_cons, List.length_append] at size
    have fits : (inBlock blocks block).totalChars + delta.length ≤ limits.maxTextChars := by
      simp only [inBlock, StreamedBlock.content]
      omega
    have admits := Admits.blockDelta ⟨eventBlockId (blocks.length + 1), block.type, block.deltas⟩
      (show (inBlock blocks block).InBlocks from ⟨rfl, rfl, rfl⟩) rfl (deltas delta List.mem_cons_self) fits
    have next : Admits limits (inBlock blocks block) (.blockDelta (eventBlockId (blocks.length + 1)) block.type delta)
        (inBlock blocks { block with deltas := block.deltas ++ [delta] }) := by
      simpa [inBlock, StreamedBlock.content, Nat.add_assoc] using admits
    have later : Run limits (inBlock blocks { block with deltas := block.deltas ++ [delta] })
        (rest.map (.blockDelta (eventBlockId (blocks.length + 1)) block.type))
        (inBlock blocks { block with deltas := (block.deltas ++ [delta]) ++ rest }) := by
      refine inductionHypothesis (fun other listed => deltas other (List.mem_cons_of_mem _ listed)) ?_
      simp only [List.flatten_append, List.flatten_cons, List.flatten_nil, List.append_nil, List.length_append]
      omega
    refine .cons next ?_
    simpa using later

@[simp] theorem streamedChars_nil : streamedChars [] = 0 := rfl

@[simp] theorem streamedChars_append (left right : List StreamedBlock) :
    streamedChars (left ++ right) = streamedChars left + streamedChars right := by
  simp [streamedChars]

@[simp] theorem streamedChars_cons (block : StreamedBlock) (blocks : List StreamedBlock) :
    streamedChars (block :: blocks) = block.content.text.length + streamedChars blocks := by
  simp [streamedChars]

theorem run_block {blocks : List StreamedBlock} {block : StreamedBlock} (wellFormed : block.WellFormed)
    (few : blocks.length < limits.maxBlocks) (size : streamedChars (blocks ++ [block]) ≤ limits.maxTextChars) :
    Run limits (afterBlocks blocks) (block.events (blocks.length + 1)) (afterBlocks (blocks ++ [block])) := by
  have starts : Admits limits (afterBlocks blocks) (.blockStart (eventBlockId (blocks.length + 1)) block.type)
      (inBlock blocks { block with deltas := [] }) := by
    have admits := Admits.blockStart block.type (show (afterBlocks blocks).InBlocks from ⟨rfl, rfl, rfl⟩) rfl
      (show (afterBlocks blocks).blocks.length < limits.maxBlocks by simpa [afterBlocks] using few)
    simpa [afterBlocks, inBlock, StreamedBlock.content] using admits
  have deltas : Run limits (inBlock blocks { block with deltas := [] })
      (block.deltas.map (.blockDelta (eventBlockId (blocks.length + 1)) block.type)) (inBlock blocks block) := by
    refine run_deltas block.deltas wellFormed.deltas ?_
    simpa [StreamedBlock.content, streamedChars] using size
  have ends : Admits limits (inBlock blocks block) (.blockEnd (eventBlockId (blocks.length + 1)))
      (afterBlocks (blocks ++ [block])) := by
    have admits : Admits limits (inBlock blocks block) _ _ :=
      Admits.blockEnd ⟨eventBlockId (blocks.length + 1), block.type, block.deltas⟩
        (show (inBlock blocks block).InBlocks from ⟨rfl, rfl, rfl⟩) rfl wellFormed.nonempty wellFormed.filled
    simpa [afterBlocks, inBlock, StreamedBlock.content, streamedChars] using admits
  exact .cons starts (deltas.append (.cons ends (.nil _)))

theorem run_blocks {blocks : List StreamedBlock} (rest : List StreamedBlock)
    (wellFormed : ∀ block ∈ rest, block.WellFormed) (few : blocks.length + rest.length ≤ limits.maxBlocks)
    (size : streamedChars blocks + streamedChars rest ≤ limits.maxTextChars) :
    Run limits (afterBlocks blocks) (blocksEvents (blocks.length + 1) rest) (afterBlocks (blocks ++ rest)) := by
  induction rest generalizing blocks with
  | nil =>
    rw [List.append_nil]
    exact .nil _
  | cons block rest inductionHypothesis =>
    rw [streamedChars_cons] at size
    rw [List.length_cons] at few
    have first := run_block (wellFormed block List.mem_cons_self) (show blocks.length < limits.maxBlocks by omega)
      (by
        simp only [streamedChars_append, streamedChars_cons, streamedChars_nil]
        omega)
    have later : Run limits (afterBlocks (blocks ++ [block])) (blocksEvents ((blocks ++ [block]).length + 1) rest)
        (afterBlocks (blocks ++ [block] ++ rest)) := by
      refine inductionHypothesis (fun other listed => wellFormed other (List.mem_cons_of_mem _ listed)) ?_ ?_
      · simp only [List.length_append, List.length_cons, List.length_nil]
        omega
      · simp only [streamedChars_append, streamedChars_cons, streamedChars_nil]
        omega
    rw [List.append_assoc, List.length_append] at later
    exact first.append later

theorem streamedChars_eq (blocks : List StreamedBlock) :
    streamedChars blocks = ((blocks.map StreamedBlock.content).map fun block => block.text.length).sum := by
  simp [streamedChars, Function.comp_def]

/-- The decoder takes the events of a well-formed response. -/
theorem run_response {response : Response} (wellFormed : response.WellFormed limits) :
    Run limits ResponseState.initial response.events response.completed := by
  have content := wellFormed.content
  have starts : Admits limits ResponseState.initial .responseStart (afterBlocks []) :=
    .responseStart rfl rfl rfl
  have blocks : Run limits (afterBlocks []) (blocksEvents 1 response.blocks) (afterBlocks response.blocks) := by
    refine run_blocks response.blocks wellFormed.blocks ?_ ?_
    · simpa using content.few
    · have size := content.size
      rw [← streamedChars_eq] at size
      simpa [streamedChars] using size
  have states : Admits limits (afterBlocks response.blocks) (.state response.state) (afterState response) := by
    refine .state response.state ⟨rfl, rfl, rfl⟩ rfl content fun single => wellFormed.conversation ?_
    simpa [afterBlocks, StreamedBlock.content, Function.comp_def] using single
  have ends : Admits limits (afterState response) .responseEnd response.completed :=
    .responseEnd rfl rfl rfl rfl content
  exact .cons starts (blocks.append (.cons states (.cons ends (.nil _))))

/-! ### From a run to a response -/

/-- The states the decoder can be in, with the events it has taken. -/
inductive Reached (limits : Limits) : ResponseState → List ProtocolEvent → Prop where
  | initial : Reached limits ResponseState.initial []
  | blocks (blocks : List StreamedBlock) : (∀ block ∈ blocks, block.WellFormed) →
      Reached limits (afterBlocks blocks) (.responseStart :: blocksEvents 1 blocks)
  | inside (blocks : List StreamedBlock) (block : StreamedBlock) : (∀ block ∈ blocks, block.WellFormed) →
      (∀ delta ∈ block.deltas, delta ≠ []) →
      Reached limits (inBlock blocks block)
        (.responseStart :: blocksEvents 1 blocks ++ .blockStart (eventBlockId (blocks.length + 1)) block.type ::
          block.deltas.map (.blockDelta (eventBlockId (blocks.length + 1)) block.type))
  | state (response : Response) : response.WellFormed limits →
      Reached limits (afterState response) (.responseStart :: blocksEvents 1 response.blocks ++ [.state response.state])
  | completed (response : Response) : response.WellFormed limits → Reached limits response.completed response.events

theorem Reached.step {r r' : ResponseState} {events : List ProtocolEvent} {event : ProtocolEvent}
    (reached : Reached limits r events) (admits : Admits limits r event r') : Reached limits r' (events ++ [event]) := by
  cases reached with
  | initial =>
    cases admits with
    | responseStart => exact .blocks [] (by simp)
    | blockStart _ inBlocks | blockDelta _ inBlocks | blockEnd _ inBlocks | state _ inBlocks => cases inBlocks.started
    | responseEnd started => cases started
  | blocks blocks wellFormed =>
    cases admits with
    | responseStart notStarted => cases notStarted
    | blockStart type _ _ few =>
      have reached : Reached limits _ _ := Reached.inside blocks ⟨type, []⟩ wellFormed (by simp)
      simpa [inBlock, afterBlocks, StreamedBlock.content] using reached
    | blockDelta _ _ isActive | blockEnd _ _ isActive => cases isActive
    | state state _ _ content conversation =>
      refine .state ⟨blocks, state⟩ ⟨wellFormed, content, fun single => conversation ?_⟩
      simpa [afterBlocks, StreamedBlock.content, Function.comp_def] using single
    | responseEnd _ _ stated => cases stated
  | inside blocks block wellFormed deltas =>
    cases admits with
    | responseStart notStarted => cases notStarted
    | blockStart _ _ closed => cases closed
    | @blockDelta active text _ isActive nonempty _ =>
      cases isActive
      have reached : Reached limits _ _ := Reached.inside blocks { block with deltas := block.deltas ++ [text] } wellFormed (by
        intro delta listed
        rcases List.mem_append.mp listed with earlier | last
        · exact deltas delta earlier
        · rwa [List.mem_singleton.mp last])
      simpa [inBlock, StreamedBlock.content, Nat.add_assoc] using reached
    | blockEnd active _ isActive nonempty filled =>
      cases isActive
      have reached : Reached limits _ _ := Reached.blocks (blocks ++ [block]) (by
        intro other listed
        rcases List.mem_append.mp listed with earlier | last
        · exact wellFormed other earlier
        · rw [List.mem_singleton.mp last]
          exact ⟨nonempty, deltas, filled⟩)
      rw [blocksEvents_concat] at reached
      simpa [inBlock, afterBlocks, StreamedBlock.content, StreamedBlock.events] using reached
    | state _ _ closed | responseEnd _ _ _ closed => cases closed
  | state response wellFormed =>
    cases admits with
    | responseStart notStarted => cases notStarted
    | blockStart _ inBlocks | blockDelta _ inBlocks | blockEnd _ inBlocks | state _ inBlocks => cases inBlocks.stateless
    | responseEnd =>
      have reached := Reached.completed response wellFormed
      simpa [Response.completed, Response.events] using reached
  | completed response wellFormed => cases admits.unfinished

theorem Reached.run {r r' : ResponseState} {before events : List ProtocolEvent} (reached : Reached limits r before)
    (run : Run limits r events r') : Reached limits r' (before ++ events) := by
  induction run generalizing before with
  | nil =>
    rw [List.append_nil]
    exact reached
  | cons admits _ inductionHypothesis =>
    rw [List.append_cons]
    exact inductionHypothesis (reached.step admits)

/-- The events the decoder takes up to the end of a response are those of a well-formed one. -/
theorem run_iff_response {r : ResponseState} {events : List ProtocolEvent} :
    Run limits ResponseState.initial events r ∧ r.completed = true ↔
      ∃ response : Response, response.WellFormed limits ∧ events = response.events ∧ r = response.completed := by
  constructor
  · rintro ⟨run, completed⟩
    have reached := Reached.initial.run run
    rw [List.nil_append] at reached
    cases reached with
    | initial | blocks | inside | state => cases completed
    | completed response wellFormed => exact ⟨response, wellFormed, rfl, rfl⟩
  · rintro ⟨response, wellFormed, rfl, rfl⟩
    exact ⟨run_response wellFormed, rfl⟩

end Oveo.Protocol
