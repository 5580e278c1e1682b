import Oveo.Lifecycle.Calls

/-! # Generation lifecycle safety

What any interleaving of the write transactions keeps about one generation: its status only
moves forward, a completed chat has exactly one answer, a failed or stopped one has none, and
the orphan finalization of a submission leaves every live row alone. -/

namespace Oveo.Lifecycle

open Oveo.Lib Oveo.Docx Oveo.Protocol Oveo.Store Oveo.Work

section

variable {settings : Settings} {s s' : System}

/-! ## Statuses only move forward -/

/-- Every row is still there, and its status has only moved along `Status.follows`. -/
def Forward (db db' : Db) : Prop :=
  ∀ row ∈ db.generations, ∃ row' ∈ db'.generations, row'.id = row.id ∧ row.status.follows row'.status = true

theorem Forward.refl (db : Db) : Forward db db :=
  fun row member => ⟨row, member, rfl, Status.follows_refl _⟩

theorem Forward.trans {first second third : Db} (left : Forward first second) (right : Forward second third) :
    Forward first third := by
  intro row member
  obtain ⟨middle, middleMember, sameId, follows⟩ := left row member
  obtain ⟨last, lastMember, sameId', follows'⟩ := right middle middleMember
  exact ⟨last, lastMember, sameId'.trans sameId, Status.follows_trans follows follows'⟩

theorem Updates.forward {db db' : Db} {change} (updates : Updates db db' change) : Forward db db' := by
  intro row member
  have evolves := updates.evolves row member
  exact ⟨change row, updates.generations ▸ List.mem_map_of_mem member, evolves.same.id, evolves.follows⟩

theorem Committed.forward {db db' : Db} {id : Id} {document : ProtocolDocument} {templates : Templates}
    {ids : AnswerIds} {answer : Option Answer} (nodup : (db.generations.map Generation.id).Nodup)
    (committed : Committed settings db id document templates ids db' answer) : Forward db db' := by
  intro row member
  cases committed with
  | chat found running _ _ _ _ _ _ _ _ generations =>
    exact ⟨_, generations ▸ List.mem_map_of_mem member, completeRow_id _ row,
      completeRow_follows nodup found running _ member⟩
  | handoff found running =>
    exact ⟨_, List.mem_map_of_mem member, completeRow_id _ row, completeRow_follows nodup found running _ member⟩

theorem submission_forward {db db' : Db} {requesterId clientRequestId : Id} {ids : SubmissionIds} {plan : Plan}
    {orphans : List (Id × Status)} {now : Nat}
    (committed : submissionTransaction db requesterId clientRequestId ids plan orphans now = some db') :
    Forward db db' := by
  obtain ⟨change, finalized⟩ := finalizeOrphans_updates orphans db
  have inserted := submissionTransaction_inserted committed
  intro row member
  obtain ⟨row', member', sameId, follows⟩ := finalized.toUpdates.forward row member
  refine ⟨row', ?_, sameId, follows⟩
  rw [inserted.generations]
  exact List.mem_append_left _ member'

theorem step_forward {action : Action} (invariant : SystemInv s) (taken : step settings s action = some s') :
    Forward s.db s'.db := by
  cases step_tableStep invariant taken with
  | update updates => exact updates.forward
  | commit _ _ committed => exact committed.forward invariant.db.generationIds
  | insert _ _ _ committed => exact submission_forward committed

theorem steps_forward (reachable : (machine settings).Reachable s) (steps : (machine settings).Steps s s') :
    Forward s.db s'.db :=
  Machine.steps_invariant (fun state => Forward s.db state.db) (Forward.refl s.db) reachable
    (fun _ _ _ reached forward taken => forward.trans (step_forward (reachable_systemInv reached) taken)) steps

/-! ## Live rows -/

/-- The only rows a call writes besides its own are the orphans it found without a task. -/
theorem advance_keeps_live {id now : Id} {outcome : CommitOutcome} (invariant : SystemInv s)
    (taken : step settings s (.advance id now outcome) = some s') {row : Generation} (member : row ∈ s.db.generations)
    (live : s.isLive row.id = true) : row ∈ s'.db.generations := by
  simp only [step] at taken
  split at taken
  next call found =>
    have callInv := invariant.calls call (call?_mem found)
    cases advance_callStep callInv taken with
    | @commit plan orphans _ db' phase _ committed =>
      have phaseInv := callInv.phase
      rw [phase] at phaseInv
      obtain ⟨change, finalized⟩ := finalizeOrphans_updates orphans s.db
      have others : row.id ∉ orphans.map Prod.fst := by
        intro orphan
        obtain ⟨entry, entryMember, sameId⟩ := List.mem_map.mp orphan
        have notLive := (phaseInv.2 entry entryMember).2
        rw [sameId, live] at notLive
        cases notLive
      simp only [(submissionTransaction_inserted committed).generations, finalized.generations]
      refine List.mem_append_left _ (List.mem_map.mpr ⟨row, member, finalized.others row others⟩)
    | conflict => simpa [System.setPhase] using member
    | move | leave | schedule | close => exact member
  next => cases taken

/-! ## Answers -/

/-- The one answer of a completed chat: its message, and its version unless its state operation
was `none`. -/
structure AnsweredOnce (s : System) (row : Generation) (answer : Answer) : Prop where
  sole : s.answers.filter (fun answer => answer.generationId == row.id) = [answer]
  result : row.resultMessageId = some answer.messageId
  message : ∃ message ∈ s.db.messages, message.id = answer.messageId ∧ message.role = .assistant
  version : answer.state.isNone = false → (versionIds s.db).count answer.versionId = 1

/-- Every assistant message and every work version was committed by an answer of the history. -/
theorem SystemInv.ledger (invariant : SystemInv s) :
    assistantMessages s.db = s.answers.map Answer.messageId ∧ versionIds s.db = versionsAdded s.answers :=
  ⟨invariant.db.assistant, invariant.db.versions⟩

theorem SystemInv.answeredOnce (invariant : SystemInv s) {row : Generation} (member : row ∈ s.db.generations)
    (answered : row.resultMessageId.isSome) : ∃ answer, AnsweredOnce s row answer := by
  obtain ⟨messageId, result⟩ := Option.isSome_iff_exists.mp answered
  have answersOf := invariant.db.answersOf row member
  simp only [Lifecycle.answersOf, result, Option.toList_some, List.map_eq_singleton_iff] at answersOf
  obtain ⟨answer, sole, rfl⟩ := answersOf
  have answerMember : answer ∈ s.answers := (List.mem_filter.mp (sole ▸ List.mem_singleton_self answer)).1
  refine ⟨answer, sole, result, ?_, fun visible => ?_⟩
  · have present : answer.messageId ∈ assistantMessages s.db := by
      rw [invariant.db.assistant]
      exact List.mem_map_of_mem answerMember
    obtain ⟨message, filtered, sameId⟩ := List.mem_map.mp present
    obtain ⟨messageMember, assistant⟩ := List.mem_filter.mp filtered
    exact ⟨message, messageMember, sameId, by simpa using assistant⟩
  · refine List.count_eq_one_of_mem invariant.unique.versions ?_
    rw [versionIds, invariant.db.versions]
    exact List.mem_map_of_mem (List.mem_filter.mpr ⟨answerMember, by simpa using visible⟩)

theorem SystemInv.unanswered (invariant : SystemInv s) {row : Generation} (member : row ∈ s.db.generations)
    (unanswered : row.resultMessageId = none) : ∀ answer ∈ s.answers, answer.generationId ≠ row.id := by
  intro answer answerMember sameId
  have answersOf := invariant.db.answersOf row member
  simp only [Lifecycle.answersOf, unanswered, Option.toList_none, List.map_eq_nil_iff, List.filter_eq_nil_iff,
    beq_iff_eq] at answersOf
  exact answersOf answer answerMember sameId

/-! ## Main result -/

/-- What holds of one generation row in a state, and in every state a run goes on to. -/
structure GenerationSafe (settings : Settings) (s : System) (row : Generation) : Prop where
  terminal : row.status.isTerminal = true → ∀ s', (machine settings).Steps s s' →
    ∃ row' ∈ s'.db.generations, row'.id = row.id ∧ row'.status = row.status
  stopping : row.status = .stopping → ∀ s', (machine settings).Steps s s' →
    ∃ row' ∈ s'.db.generations, row'.id = row.id ∧ (row'.status = .stopping ∨ row'.status = .stopped)
  completed : row.purpose = .chat → (row.status = .completed ↔ row.resultMessageId.isSome)
  answered : row.purpose = .chat → row.status = .completed → ∃ answer, AnsweredOnce s row answer
  unanswered : row.status = .failed ∨ row.status = .stopped → ∀ answer ∈ s.answers, answer.generationId ≠ row.id
  live : s.isLive row.id = true → ∀ id now outcome s', step settings s (.advance id now outcome) = some s' →
    row ∈ s'.db.generations

theorem generation_lifecycle_safe (reachable : (machine settings).Reachable s) :
    (∀ row ∈ s.db.generations, GenerationSafe settings s row) ∧
      (s.db.generations.map Generation.id).Nodup ∧ (s.db.messages.map Message.id).Nodup ∧
      assistantMessages s.db = s.answers.map Answer.messageId ∧ versionIds s.db = versionsAdded s.answers := by
  have invariant := reachable_systemInv reachable
  refine ⟨fun row member => ?_, invariant.db.generationIds, invariant.db.messageIds, invariant.ledger⟩
  have results := invariant.db.results row member
  constructor
  case terminal =>
    intro terminal s' steps
    obtain ⟨row', member', sameId, follows⟩ := steps_forward reachable steps row member
    exact ⟨row', member', sameId, Status.follows_terminal terminal follows⟩
  case stopping =>
    intro stopping s' steps
    obtain ⟨row', member', sameId, follows⟩ := steps_forward reachable steps row member
    refine ⟨row', member', sameId, ?_⟩
    rw [stopping] at follows
    simpa [Status.follows] using follows
  case completed => exact fun chat => ⟨fun completed => results.mpr ⟨chat, completed⟩, fun answered => (results.mp answered).2⟩
  case answered => exact fun chat completed => invariant.answeredOnce member (results.mpr ⟨chat, completed⟩)
  case unanswered =>
    intro finished
    refine invariant.unanswered member (Option.not_isSome_iff_eq_none.mp fun answered => ?_)
    have completed := (results.mp answered).2
    rw [completed] at finished
    simp at finished
  case live => exact fun live _ _ _ _ taken => advance_keeps_live invariant taken member live

end

/-- The actions of a submission that is never interrupted. -/
def submitted (call : Call) : List Action :=
  .enter call :: List.replicate 8 (.advance call.ids.generationId 0 .applied)

/-- A new conversation and its first message. -/
def firstCall : Call :=
  { ids := { generationId := 1, threadId := 2, messageId := 3, attachmentId := 4 }
    requesterId := 0
    clientRequestId := 0
    request := .turn none (some 0) (some .translate) { text := str "Hi", attachment := none }
    phase := .entered }

/-- The run of a generation whose answer is one conversation block. -/
def answeredRun (generationId messageId : Id) : List Action :=
  [.setRunning generationId,
   .commitSuccess generationId { blocks := [⟨.conversation, str "Hello"⟩], state := .none }
     { messageId, work := { workItemId := messageId + 1, versionId := messageId + 2 } }]

theorem generation_lifecycle_safe_firstTurn :
    ∃ s, (machine {}).run System.empty (submitted firstCall ++ answeredRun 1 5) = some s ∧
      s.db.generations.map Generation.status = [.completed] ∧ ∀ row ∈ s.db.generations, GenerationSafe {} s row := by
  obtain ⟨s, ran⟩ := Option.isSome_iff_exists.mp
    (by decide : ((machine {}).run System.empty (submitted firstCall ++ answeredRun 1 5)).isSome = true)
  refine ⟨s, ran, ?_, (generation_lifecycle_safe (Machine.reachable_of_run (.init rfl) ran)).1⟩
  have statuses : ((machine {}).run System.empty (submitted firstCall ++ answeredRun 1 5)).map
      (fun s => s.db.generations.map Generation.status) = some [.completed] := by decide
  rw [ran] at statuses
  exact Option.some.inj statuses

end Oveo.Lifecycle
