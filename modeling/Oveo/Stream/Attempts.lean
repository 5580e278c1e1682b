import Oveo.Lib.Machine
import Oveo.Lifecycle.Tables
import Oveo.Protocol.Transcript
import Oveo.Stream.Draft

/-! # Attempts at a response

`_respond` streams up to three attempts into one live draft and clears it between them.  A step is
one chunk, the end of the stream, an attempt that broke off, the next attempt, or another task's change of the
live status. -/

namespace Oveo.Stream

open Oveo.Lib Oveo.Protocol Oveo.Store

/-- Where `_respond` is.  Once `finish` returned a document, it is remembered until the next attempt. -/
inductive RespondPhase where
  | streaming
  /-- `finish` returned; the answer is about to be committed. -/
  | decoded (document : ProtocolDocument)
  /-- A `ProtocolError` was caught. -/
  | broken (kept : Option ProtocolDocument)
  /-- An error left the loop. -/
  | left (kept : Option ProtocolDocument)

def RespondPhase.document? : RespondPhase → Option ProtocolDocument
  | .streaming => none
  | .decoded document => some document
  | .broken kept | .left kept => kept

/-- An attempt is under way. -/
def RespondPhase.isAttempt : RespondPhase → Bool
  | .streaming | .decoded _ => true
  | .broken _ | .left _ => false

structure Respond where
  live : LiveGeneration
  decoder : Decoder
  attempt : Nat
  phase : RespondPhase

inductive RespondAction where
  /-- `emit` of `_live_emitter`. -/
  | emit (chunk : List UInt8)
  /-- `decoder.finish()`. -/
  | finish
  /-- The provider's call or the commit raised a `ProtocolError`. -/
  | breakOff
  /-- They raised another error, or the answer was committed. -/
  | leave
  /-- The handler of the `ProtocolError`, and the next attempt. -/
  | retry
  | setLiveStatus (status : Status)

variable (runtime : Json.Runtime) (limits : Limits)

def respondStep (s : Respond) : RespondAction → Option Respond
  | .emit chunk =>
    match s.phase with
    | .streaming =>
      match feed runtime limits s.decoder chunk with
      | .error _ => some { s with phase := .broken none }
      | .ok (decoder, events) =>
        -- a Stop or shutdown owns the row now
        if s.live.status ≠ .running then some { s with decoder, phase := .left none }
        else
          match collectOps s.live.blocks events with
          | none => some { s with decoder, phase := .broken none }
          | some _ => some { s with decoder, live := (applyLiveEvents s.live events).1 }
    | _ => none
  | .finish =>
    match s.phase with
    | .streaming =>
      match Protocol.finish runtime limits s.decoder with
      | .error _ => some { s with phase := .broken none }
      | .ok document => some { s with phase := .decoded document }
    | _ => none
  | .breakOff => if s.phase.isAttempt then some { s with phase := .broken s.phase.document? } else none
  | .leave => if s.phase.isAttempt then some { s with phase := .left s.phase.document? } else none
  | .retry =>
    match s.phase with
    | .broken kept =>
      if s.attempt = 2 ∨ s.live.status ≠ .running then some { s with phase := .left kept }
      else some { live := (resetDraftForRetry s.live).1, decoder := .initial, attempt := s.attempt + 1, phase := .streaming }
    | _ => none
  | .setLiveStatus status => some { s with live := (setLiveStatus status s.live).1 }

/-- The draft is empty when the first attempt starts. -/
def respondMachine : Machine Respond RespondAction where
  init s := s.live.blocks = [] ∧ s.decoder = .initial ∧ s.attempt = 0 ∧ s.phase = .streaming
  step := respondStep runtime limits

/-- `_live_blocks`. -/
def liveBlocks (live : Option LiveGeneration) : List ContentBlock :=
  match live with
  | some live => snapshotBlocks live.blocks
  | none => []

variable {runtime limits}

/-! ## The draft mirrors the decoder -/

/-- The draft holds the blocks of the decoder, and the one that is open. -/
structure Mirrors (blocks : List (BlockType × List Str)) (r : ResponseState) : Prop where
  same : snapshotBlocks blocks = r.blocks ++ r.active.toList.map fun active => ⟨active.type, active.parts.flatten⟩
  closed : r.completed = true → r.active = none

theorem mirrors_initial : Mirrors [] .initial := ⟨rfl, fun _ => rfl⟩

theorem snapshotBlocks_append (left right : List (BlockType × List Str)) :
    snapshotBlocks (left ++ right) = snapshotBlocks left ++ snapshotBlocks right := List.map_append

/-- The decoder's events keep the draft in step with it. -/
theorem Mirrors.run {blocks : List (BlockType × List Str)} {r r' : ResponseState} {events : List ProtocolEvent}
    (mirrors : Mirrors blocks r) (run : Run limits r events r') :
    ∃ blocks' ops, collectOps blocks events = some (blocks', ops) ∧ Mirrors blocks' r' := by
  induction run generalizing blocks with
  | nil => exact ⟨blocks, [], rfl, mirrors⟩
  | @cons r middle r' event events admits _ inductionHypothesis =>
    cases admits with
    | responseStart =>
      exact inductionHypothesis ⟨mirrors.same, mirrors.closed⟩
    | blockStart type inBlocks noActive =>
      obtain ⟨blocks', ops, collected, mirrors'⟩ := @inductionHypothesis (blocks ++ [(type, [])])
        ⟨by rw [snapshotBlocks_append, mirrors.same, noActive]; simp [snapshotBlocks],
          fun completed => absurd completed (by simp [inBlocks.unfinished])⟩
      refine ⟨blocks', .start type :: ops, ?_, mirrors'⟩
      rw [collectOps, collected]
      rfl
    | @blockDelta active text inBlocks isActive =>
      -- The last block of the draft is the open one.
      have open_ := mirrors.same
      rw [isActive] at open_
      rcases List.eq_nil_or_concat blocks with rfl | ⟨earlier, ⟨type, parts⟩, rfl⟩
      · simp [snapshotBlocks] at open_
      · rw [List.concat_eq_append] at open_ ⊢
        rw [snapshotBlocks_append] at open_
        obtain ⟨isEarlier, isLast⟩ := List.append_inj' open_ rfl
        simp only [snapshotBlocks, List.map_cons, List.map_nil, Option.toList_some, List.cons.injEq, ContentBlock.mk.injEq, and_true] at isLast
        obtain ⟨rfl, sameText⟩ := isLast
        have appended : appendPart text (earlier ++ [(active.type, parts)]) = some (earlier ++ [(active.type, parts ++ [text])]) := by
          simp [appendPart]
        obtain ⟨blocks', ops, collected, mirrors'⟩ := @inductionHypothesis (earlier ++ [(active.type, parts ++ [text])])
          ⟨by rw [snapshotBlocks_append, isEarlier]; simp [snapshotBlocks, sameText],
            fun completed => absurd completed (by simp [inBlocks.unfinished])⟩
        refine ⟨blocks', .append text :: ops, ?_, mirrors'⟩
        rw [collectOps, appended, Option.bind_eq_bind, Option.bind_some, collected]
        rfl
    | blockEnd active inBlocks isActive =>
      refine inductionHypothesis ⟨?_, fun _ => rfl⟩
      rw [mirrors.same, isActive]
      simp
    | state state inBlocks noActive =>
      exact inductionHypothesis ⟨mirrors.same, mirrors.closed⟩
    | responseEnd started unfinished isState noActive =>
      exact inductionHypothesis ⟨mirrors.same, fun _ => noActive⟩

theorem Mirrors.feed {blocks : List (BlockType × List Str)} {d d' : Decoder} {chunk : List UInt8} {events : List ProtocolEvent}
    (mirrors : Mirrors blocks d.response) (measured : d.Measured limits) (fed : Protocol.feed runtime limits d chunk = .ok (d', events)) :
    ∃ blocks' ops, collectOps blocks events = some (blocks', ops) ∧ Mirrors blocks' d'.response := by
  obtain ⟨-, utf8, text, response, -, consumed, -, rfl⟩ := (feed_eq_ok measured).mp fed
  exact mirrors.run (consumeLines_eq_ok.mp consumed).2

/-- What `finish` still reads is no part of a block. -/
theorem Mirrors.finish {blocks : List (BlockType × List Str)} {d : Decoder} {document : ProtocolDocument}
    (mirrors : Mirrors blocks d.response) (finished : Protocol.finish runtime limits d = .ok document) :
    snapshotBlocks blocks = document.blocks := by
  obtain ⟨-, response, last, completed, -, checked⟩ := finish_eq_ok.mp finished
  obtain ⟨isBlocks, -⟩ := checkBlocks_eq_ok.mp checked
  rcases last with ⟨-, rfl⟩ | ⟨-, event, consumed⟩
  · rw [mirrors.same, mirrors.closed completed, isBlocks]
    simp
  · cases (consumeLine_eq_ok.mp consumed).2 with
    | responseEnd started unfinished isState noActive =>
      rw [mirrors.same, noActive, isBlocks]
      simp
    | responseStart _ unfinished => exact absurd completed (by simp [unfinished])
    | blockStart _ inBlocks | blockDelta _ inBlocks | blockEnd _ inBlocks | state _ inBlocks =>
      exact absurd completed (by simp [inBlocks.unfinished])

/-! ## Every run -/

/-- What holds of a run of `_respond`. -/
structure RespondInv (limits : Limits) (s : Respond) : Prop where
  streaming : s.phase = .streaming → Mirrors s.live.blocks s.decoder.response ∧ s.decoder.Measured limits
  decoded : ∀ document, s.phase.document? = some document → snapshotBlocks s.live.blocks = document.blocks

/-- Without a document there is nothing to show outside an attempt. -/
theorem RespondInv.idle {s : Respond} (phase : s.phase ≠ .streaming) (noDocument : s.phase.document? = none) :
    RespondInv limits s :=
  ⟨fun streaming => absurd streaming phase, fun _ decoded => by rw [noDocument] at decoded; cases decoded⟩

theorem applyLiveEvents_blocks {live : LiveGeneration} {events : List ProtocolEvent} {blocks : List (BlockType × List Str)}
    {ops : List DeltaOp} (running : live.status = .running) (collected : collectOps live.blocks events = some (blocks, ops)) :
    (applyLiveEvents live events).1.blocks = blocks := by
  unfold applyLiveEvents
  rw [if_neg (not_not_intro running), collected]
  simp only
  split <;> rfl

theorem respondStep_inv {s s' : Respond} {action : RespondAction} (invariant : RespondInv limits s)
    (taken : respondStep runtime limits s action = some s') : RespondInv limits s' := by
  cases action with
  | emit chunk =>
    simp only [respondStep] at taken
    split at taken
    next streaming =>
      obtain ⟨mirrors, measured⟩ := invariant.streaming streaming
      split at taken
      next =>
        cases taken
        exact .idle (by simp) rfl
      next decoder events fed =>
        split at taken
        next =>
          cases taken
          exact .idle (by simp) rfl
        next running =>
          obtain ⟨blocks, ops, collected, mirrors'⟩ := mirrors.feed measured fed
          rw [collected] at taken
          cases taken
          refine ⟨fun _ => ⟨?_, feed_measured measured fed⟩, fun _ decoded => ?_⟩
          · rw [applyLiveEvents_blocks (not_not.mp running) collected]
            exact mirrors'
          · simp [streaming, RespondPhase.document?] at decoded
    next => cases taken
  | finish =>
    simp only [respondStep] at taken
    split at taken
    next streaming =>
      obtain ⟨mirrors, measured⟩ := invariant.streaming streaming
      split at taken
      next =>
        cases taken
        exact .idle (by simp) rfl
      next document finished =>
        cases taken
        refine ⟨(by cases ·), fun _ decoded => ?_⟩
        cases decoded
        exact mirrors.finish finished
    next => cases taken
  | breakOff | leave =>
    simp only [respondStep, Option.ite_none_right_eq_some] at taken
    cases taken.2
    exact ⟨(by cases ·), invariant.decoded⟩
  | retry =>
    simp only [respondStep] at taken
    split at taken
    next kept broken =>
      split at taken
      next =>
        cases taken
        refine ⟨(by cases ·), fun document decoded => invariant.decoded document ?_⟩
        rw [broken]
        exact decoded
      next goesOn =>
        cases taken
        rw [not_or, not_not] at goesOn
        have cleared : (resetDraftForRetry s.live).1.blocks = [] := by
          rw [resetDraftForRetry, if_neg (not_not_intro goesOn.2)]
        refine ⟨fun _ => ⟨?_, Decoder.measured_initial⟩, fun _ => (by cases ·)⟩
        rw [cleared]
        exact mirrors_initial
    next => cases taken
  | setLiveStatus status =>
    cases taken
    constructor
    · rw [setLiveStatus_blocks]
      exact invariant.streaming
    · rw [setLiveStatus_blocks]
      exact invariant.decoded

theorem reachable_respondInv {s : Respond} (reachable : (respondMachine runtime limits).Reachable s) : RespondInv limits s := by
  refine Machine.invariant (RespondInv limits) ?_ (fun _ _ _ invariant _ taken => respondStep_inv invariant taken) reachable
  rintro ⟨live, decoder, attempt, phase⟩ ⟨empty, rfl, -, rfl⟩
  exact ⟨fun _ => ⟨empty ▸ mirrors_initial, Decoder.measured_initial⟩, fun _ => (by cases ·)⟩

/-! ## What a failure keeps -/

/-- The blocks stored with a generation. -/
def storedBlocks (db : Db) (id : Id) : Option (List ContentBlock) := (db.generation? id).map Generation.partialBlocks

/-- `_fail` keeps the blocks it is given with a running generation. -/
theorem storedBlocks_fail {db : Db} {id : Id} {row : Generation} {code : ErrorCode} {blocks : List ContentBlock}
    (found : db.generation? id = some row) (running : row.status = .running) :
    storedBlocks (Lifecycle.fail db id code blocks) id = some blocks := by
  obtain ⟨member, sameId⟩ := Lifecycle.generation?_mem found
  have isMatch : Lifecycle.matchesTransition id [.queued, .running] row = true := by
    simp [Lifecycle.matchesTransition, sameId, running]
  have matched : db.generations.any (Lifecycle.matchesTransition id [.queued, .running]) = true :=
    List.any_eq_true.mpr ⟨row, member, isMatch⟩
  unfold Lifecycle.fail Lifecycle.transition
  rw [matched]
  simp only [storedBlocks, Db.generation?] at found ⊢
  rw [Lifecycle.find?_map_id (fun other _ => by split <;> rfl), found]
  simp [isMatch, Lifecycle.setStatus]

/-- So does a commit. -/
theorem storedBlocks_committed {settings : Work.Settings} {db db' : Db} {id : Id} {document : ProtocolDocument}
    {templates : Work.Templates} {ids : Lifecycle.AnswerIds} {answer : Option Lifecycle.Answer}
    (committed : Lifecycle.Committed settings db id document templates ids db' answer) :
    storedBlocks db' id = some document.blocks ∧ ∃ row, db.generation? id = some row ∧ row.status = .running := by
  have completed {row : Generation} (result : Option Id) (found : db.generation? id = some row) :
      ((db.generations.map (Lifecycle.completeRow id document result)).find? fun row => row.id == id) =
        some (Lifecycle.completedRow document result row) := by
    rw [Lifecycle.find?_map_id fun other _ => Lifecycle.completeRow_id result other]
    simp only [Db.generation?] at found
    rw [found]
    simp [Lifecycle.completeRow, (Lifecycle.generation?_mem found).2]
  cases committed with
  | chat found running _ _ _ _ _ _ _ _ generations =>
    refine ⟨?_, _, found, running⟩
    rw [storedBlocks, Db.generation?, generations, completed _ found]
    rfl
  | handoff found running =>
    refine ⟨?_, _, found, running⟩
    rw [storedBlocks, Db.generation?, completed _ found]
    rfl

/-- Once a response was decoded, the draft shows its blocks, and a failure then keeps the blocks a commit would. -/
theorem live_draft_is_document {s : Respond} {document : ProtocolDocument} (reachable : (respondMachine runtime limits).Reachable s)
    (decoded : s.phase.document? = some document) :
    liveBlocks (some s.live) = document.blocks ∧
      ∀ {settings db id code templates ids answers db' answer}, Lifecycle.DbInvariant db answers →
        Lifecycle.commitSuccessOnce settings db id document templates ids = .ok (some (db', answer)) →
        storedBlocks (Lifecycle.fail db id code (liveBlocks (some s.live))) id = storedBlocks db' id := by
  have shown := (reachable_respondInv reachable).decoded document decoded
  refine ⟨shown, fun invariant committed => ?_⟩
  obtain ⟨stored, row, found, running⟩ := storedBlocks_committed (Lifecycle.commitSuccessOnce_committed invariant committed)
  rw [stored, storedBlocks_fail found running]
  exact congrArg some shown

/-- One attempt that broke off, and one that was decoded. -/
def retriedRun : List RespondAction :=
  [.emit (ascii greetingStart), .breakOff, .retry, .emit (ascii greetingStart), .emit (ascii greetingEnd), .finish]

def retriedStart : Respond :=
  { live := { LiveGeneration.new with status := .running }, decoder := .initial, attempt := 0, phase := .streaming }

theorem live_draft_is_document_retried :
    ∃ (s : Respond) (document : ProtocolDocument), s.attempt = 1 ∧ s.phase.document? = some document ∧
      liveBlocks (some s.live) = document.blocks ∧ document.blocks ≠ [] := by
  have reached : (((respondMachine deepRuntime shortLines).run retriedStart retriedRun).any fun s =>
      s.attempt == 1 && s.phase.document?.any fun document => !document.blocks.isEmpty) = true := by
    decide +kernel
  obtain ⟨s, ran, checked⟩ := (Option.any_eq_true ..).mp reached
  simp only [Bool.and_eq_true, beq_iff_eq, Option.any_eq_true] at checked
  obtain ⟨second, document, decoded, filled⟩ := checked
  have starts : (respondMachine deepRuntime shortLines).init retriedStart := ⟨rfl, rfl, rfl, rfl⟩
  have reachable := Machine.reachable_of_run (.init starts) ran
  exact ⟨s, document, second, decoded, (live_draft_is_document reachable decoded).1, by simpa using filled⟩

end Oveo.Stream
