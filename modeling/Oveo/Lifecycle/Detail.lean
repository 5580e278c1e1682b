import Oveo.Lifecycle.Safety

/-! # Loading a conversation

`thread_detail` reads the messages, then the latest chat generation, then its snapshot.  SQLite
opens no transaction for reads, so each of them sees the tables as they are by then, and an answer
may be committed between the first two. -/

namespace Oveo.Lifecycle

open Oveo.Lib Oveo.Docx Oveo.Protocol Oveo.Store Oveo.Work

/-! ## The endpoint -/

/-- What the browser gets of the messages and of the generation to follow. -/
structure Detail where
  messages : List Message
  /-- The generation whose snapshot is shown. -/
  generation : Option Id
deriving DecidableEq, Repr

/-- The messages of a thread above `after_ordinal`, in order. -/
def messagesAfter (db : Db) (threadId : Id) (afterOrdinal : Option Nat) : List Message :=
  (db.messages.filter fun message =>
    message.threadId == threadId && afterOrdinal.all fun after => decide (after < message.ordinal)).mergeSort
      fun first second => decide (first.ordinal ≤ second.ordinal)

/-- `get_snapshot` of a generation, which has a draft in memory or not. -/
def getSnapshot (hasDraft : Bool) (db : Db) (generationId : Id) : Option Id :=
  if hasDraft then some generationId else (db.generation? generationId).map Generation.id

/-- `thread_detail`, with the tables as each of its reads finds them. -/
def threadDetail (atThread atMessages atLatest atSnapshot : Db) (hasDraft : Bool) (ownerId threadId : Id)
    (afterOrdinal : Option Nat) : Except CallError Detail :=
  match atThread.thread? threadId with
  | none => .error .threadNotFound
  | some thread =>
    if thread.ownerId ≠ ownerId then .error .threadNotFound
    else
      .ok {
        messages := messagesAfter atMessages threadId afterOrdinal
        generation := (latestChat? atLatest threadId).bind fun latest =>
          if latest.status = .completed then none else getSnapshot hasDraft atSnapshot latest.id }

theorem mem_messagesAfter {db : Db} {threadId : Id} {afterOrdinal : Option Nat} {message : Message} :
    message ∈ messagesAfter db threadId afterOrdinal ↔
      message ∈ db.messages ∧ message.threadId = threadId ∧ ∀ after ∈ afterOrdinal, after < message.ordinal := by
  cases afterOrdinal <;> simp [messagesAfter, List.mem_mergeSort]

theorem newest_mem {rows : List Generation} {row : Generation} (found : newest rows = some row) : row ∈ rows := by
  induction rows with
  | nil => cases found
  | cons first rest inductionHypothesis =>
    simp only [newest] at found
    split at found
    next other isOther =>
      split at found
      · cases found
        exact List.mem_cons_self
      · cases found
        exact List.mem_cons_of_mem _ (inductionHypothesis isOther)
    next =>
      cases found
      exact List.mem_cons_self

theorem latestChat?_mem {db : Db} {threadId : Id} {row : Generation} (found : latestChat? db threadId = some row) :
    row ∈ db.generations ∧ row.threadId = some threadId ∧ row.purpose = .chat := by
  obtain ⟨member, isChat⟩ := List.mem_filter.mp (newest_mem found)
  simp only [Bool.and_eq_true, beq_iff_eq] at isChat
  exact ⟨member, isChat.1, isChat.2⟩

section

variable {settings : Settings} {s s' : System}

/-! ## Answers and their messages -/

/-- The message of every answer is in the thread of its generation. -/
def AnswersInThread (db : Db) : Prop :=
  ∀ row ∈ db.generations, ∀ messageId, row.resultMessageId = some messageId →
    ∃ message ∈ db.messages, message.id = messageId ∧ message.role = .assistant ∧ row.threadId = some message.threadId

/-- Messages and answers are only ever added. -/
structure Appends (s s' : System) : Prop where
  messages : s.db.messages <+: s'.db.messages
  answers : s.answers <+: s'.answers

theorem Committed.messages {db db' : Db} {id : Id} {document : ProtocolDocument} {templates : Templates} {ids : AnswerIds}
    {answer : Option Answer} (committed : Committed settings db id document templates ids db' answer) :
    db.messages <+: db'.messages := by
  cases committed with
  | chat _ _ _ _ _ messages _ _ _ _ _ messages' =>
    rw [messages', messages]
    exact List.prefix_append _ _
  | handoff => exact List.prefix_refl _

theorem Committed.answersInThread {db db' : Db} {id : Id} {document : ProtocolDocument} {templates : Templates} {ids : AnswerIds}
    {answer : Option Answer} (nodup : (db.generations.map Generation.id).Nodup) (before : AnswersInThread db)
    (committed : Committed settings db id document templates ids db' answer) : AnswersInThread db' := by
  have kept : ∀ message ∈ db.messages, message ∈ db'.messages := fun message member => committed.messages.subset member
  have old : ∀ row ∈ db.generations, ∀ messageId, row.resultMessageId = some messageId → ∃ message ∈ db'.messages,
      message.id = messageId ∧ message.role = .assistant ∧ row.threadId = some message.threadId := by
    intro row member messageId result
    obtain ⟨message, isMessage, rest⟩ := before row member messageId result
    exact ⟨message, kept message isMessage, rest⟩
  cases committed with
  | @chat claimed _ thread answered _ _ found _ _ ofThread _ messages _ _ _ _ generations messages' =>
    intro row' member' messageId result
    rw [generations] at member'
    obtain ⟨row, member, rfl⟩ := List.mem_map.mp member'
    by_cases claims : row.id = id
    · -- the claimed row, and the message its commit inserted
      obtain ⟨claimedMember, claimedId⟩ := generation?_mem found
      have same : row = claimed := List.inj_on_of_nodup_map nodup member claimedMember (claims.trans claimedId.symm)
      have isNew : messageId = ids.messageId := by
        simpa [completeRow, claims, completedRow] using result.symm
      refine ⟨answerMessage db thread.id ids.messageId document, ?_, isNew.symm, rfl, ?_⟩
      · rw [messages', messages]
        exact List.mem_append_right _ (List.mem_singleton_self _)
      · rw [(completeRow_same (some ids.messageId) row).threadId, same, ofThread]
        rfl
    · simp only [completeRow, claims, if_false] at result ⊢
      exact old row member messageId result
  | handoff =>
    intro row' member' messageId result
    obtain ⟨row, member, rfl⟩ := List.mem_map.mp member'
    rw [(completeRow_same none row).threadId]
    refine old row member messageId ?_
    by_cases claims : row.id = id
    · simpa [completeRow, claims, completedRow, setStatus] using result
    · simpa [completeRow, claims] using result

theorem step_appends {action : Action} (invariant : SystemInv s) (taken : step settings s action = some s') : Appends s s' := by
  cases step_tableStep invariant taken with
  | update updates same => exact ⟨by rw [updates.tables], by rw [same]⟩
  | commit _ _ committed added =>
    exact ⟨committed.messages, added ▸ List.prefix_append _ _⟩
  | @insert _ _ _ _ _ orphans _ _ _ committed same =>
    obtain ⟨change, finalized⟩ := finalizeOrphans_updates orphans s.db
    refine ⟨?_, by rw [same]⟩
    rw [(submissionTransaction_inserted committed).messages, finalized.tables]
    exact List.prefix_append _ _

theorem steps_appends (reachable : (machine settings).Reachable s) (steps : (machine settings).Steps s s') : Appends s s' :=
  Machine.steps_invariant (fun state => Appends s state) ⟨List.prefix_refl _, List.prefix_refl _⟩ reachable
    (fun _ _ _ reached before taken =>
      have last := step_appends (reachable_systemInv reached) taken
      ⟨before.messages.trans last.messages, before.answers.trans last.answers⟩) steps

theorem step_answersInThread {action : Action} (invariant : SystemInv s) (before : AnswersInThread s.db)
    (taken : step settings s action = some s') : AnswersInThread s'.db := by
  have kept : ∀ message ∈ s.db.messages, message ∈ s'.db.messages :=
    fun message member => (step_appends invariant taken).messages.subset member
  cases step_tableStep invariant taken with
  | @update change updates =>
    intro row' member' messageId result
    rw [updates.generations] at member'
    obtain ⟨row, member, rfl⟩ := List.mem_map.mp member'
    have evolves := updates.evolves row member
    obtain ⟨message, isMessage, sameId, role, thread⟩ := before row member messageId (evolves.result.symm.trans result)
    exact ⟨message, kept message isMessage, sameId, role, evolves.same.threadId.trans thread⟩
  | commit _ _ committed => exact committed.answersInThread invariant.db.generationIds before
  | @insert _ _ _ _ _ orphans _ _ _ committed =>
    obtain ⟨change, finalized⟩ := finalizeOrphans_updates orphans s.db
    intro row' member' messageId result
    rw [(submissionTransaction_inserted committed).generations] at member'
    rcases List.mem_append.mp member' with old | new
    · rw [finalized.generations] at old
      obtain ⟨row, member, rfl⟩ := List.mem_map.mp old
      have evolves := finalized.evolves row member
      obtain ⟨message, isMessage, sameId, role, thread⟩ := before row member messageId (evolves.result.symm.trans result)
      exact ⟨message, kept message isMessage, sameId, role, evolves.same.threadId.trans thread⟩
    · rw [List.mem_singleton.mp new] at result
      cases result

theorem reachable_answersInThread (reachable : (machine settings).Reachable s) : AnswersInThread s.db := by
  have both : SystemInv s ∧ AnswersInThread s.db := by
    refine Machine.invariant (fun state => SystemInv state ∧ AnswersInThread state.db) ?_ ?_ reachable
    · rintro _ rfl
      exact ⟨systemInv_empty, fun row member => nomatch member⟩
    · exact fun state action next invariant _ taken =>
        ⟨step_systemInv invariant.1 taken, step_answersInThread invariant.1 invariant.2 taken⟩
  exact both.2

/-! ## The reads -/

/-- Is this generation completed, as the tables have it? -/
def IsCompleted (db : Db) (generationId : Id) : Prop := ∃ row ∈ db.generations, row.id = generationId ∧ row.status = .completed

theorem step_sameRow {action : Action} (invariant : SystemInv s) (taken : step settings s action = some s') :
    ∀ row ∈ s.db.generations, ∃ row' ∈ s'.db.generations, SameRow row row' := by
  intro row member
  cases step_tableStep invariant taken with
  | @update change updates =>
    exact ⟨change row, updates.generations ▸ List.mem_map_of_mem member, (updates.evolves row member).same⟩
  | commit _ _ committed => exact committed.ids.rows row member
  | @insert _ _ _ _ _ orphans _ _ _ committed =>
    obtain ⟨change, finalized⟩ := finalizeOrphans_updates orphans s.db
    refine ⟨change row, ?_, (finalized.evolves row member).same⟩
    rw [(submissionTransaction_inserted committed).generations, finalized.generations]
    exact List.mem_append_left _ (List.mem_map_of_mem member)

theorem steps_sameRow (reachable : (machine settings).Reachable s) (steps : (machine settings).Steps s s') :
    ∀ row ∈ s.db.generations, ∃ row' ∈ s'.db.generations, SameRow row row' := by
  refine Machine.steps_invariant (fun state => ∀ row ∈ s.db.generations, ∃ row' ∈ state.db.generations, SameRow row row')
    (fun row member => ⟨row, member, .refl row⟩) reachable (fun state action next reached before taken => ?_) steps
  intro row member
  obtain ⟨middle, middleMember, same⟩ := before row member
  obtain ⟨last, lastMember, same'⟩ := step_sameRow (reachable_systemInv reached) taken middle middleMember
  exact ⟨last, lastMember, same.trans same'⟩

theorem mem_answersOf {answers : List Answer} {generationId messageId : Id} :
    messageId ∈ answersOf answers generationId ↔
      ∃ answer ∈ answers, answer.generationId = generationId ∧ answer.messageId = messageId := by
  simp [answersOf, and_assoc]

/-- The result of a row is the answer the history has of it. -/
theorem SystemInv.result_iff (invariant : SystemInv s) {row : Generation} (member : row ∈ s.db.generations) {messageId : Id} :
    row.resultMessageId = some messageId ↔
      ∃ answer ∈ s.answers, answer.generationId = row.id ∧ answer.messageId = messageId := by
  rw [← mem_answersOf, invariant.db.answersOf row member, Option.mem_toList]

/-- A row whose answer the first of two states has was completed there. -/
theorem completed_of_answer_present (reachable : (machine settings).Reachable s) (steps : (machine settings).Steps s s')
    {row : Generation} (member : row ∈ s'.db.generations) {message : Message} (result : row.resultMessageId = some message.id)
    (present : message ∈ s.db.messages) : IsCompleted s.db row.id := by
  have invariant := reachable_systemInv reachable
  have reachable' := Machine.reachable_of_steps reachable steps
  have invariant' := reachable_systemInv reachable'
  have appends := steps_appends reachable steps
  obtain ⟨answer, isAnswer, ofRow, named⟩ := (invariant'.result_iff member).mp result
  -- the message is an assistant's, so the history had its answer by then
  obtain ⟨other, isOther, sameId, role, -⟩ := reachable_answersInThread reachable' row member message.id result
  have sameMessage : other = message :=
    List.inj_on_of_nodup_map invariant'.db.messageIds isOther (appends.messages.subset present) sameId
  have assistant : message.id ∈ assistantMessages s.db :=
    List.mem_map_of_mem (List.mem_filter.mpr ⟨present, by simp [← sameMessage, role]⟩)
  rw [invariant.db.assistant] at assistant
  obtain ⟨earlier, isEarlier, namedEarlier⟩ := List.mem_map.mp assistant
  have nodup : (s'.answers.map Answer.messageId).Nodup := by
    rw [← invariant'.db.assistant]
    exact invariant'.db.messageIds.sublist (List.filter_sublist.map _)
  have sameAnswer : earlier = answer :=
    List.inj_on_of_nodup_map nodup (appends.answers.subset isEarlier) isAnswer (namedEarlier.trans named.symm)
  obtain ⟨before, isBefore, sameRow⟩ := List.mem_map.mp (invariant.db.answered earlier isEarlier)
  have ofBefore : before.id = row.id := by rw [sameRow, sameAnswer, ofRow]
  have answered : before.resultMessageId = some message.id :=
    (invariant.result_iff isBefore).mpr ⟨earlier, isEarlier, sameRow.symm, namedEarlier⟩
  exact ⟨before, isBefore, ofBefore, ((invariant.db.results before isBefore).mp (by simp [answered])).2⟩

/-- The answer of a row that was completed in the first of two states is there already. -/
theorem answer_present_of_completed (reachable : (machine settings).Reachable s) (steps : (machine settings).Steps s s')
    {row : Generation} (member : row ∈ s'.db.generations) (chat : row.purpose = .chat) (completed : IsCompleted s.db row.id) :
    ∃ message ∈ s.db.messages, row.resultMessageId = some message.id ∧ row.threadId = some message.threadId := by
  have invariant := reachable_systemInv reachable
  have invariant' := reachable_systemInv (Machine.reachable_of_steps reachable steps)
  obtain ⟨before, isBefore, sameId, wasCompleted⟩ := completed
  obtain ⟨after, isAfter, same⟩ := steps_sameRow reachable steps before isBefore
  have isRow : after = row := List.inj_on_of_nodup_map invariant'.db.generationIds isAfter member (same.id.trans sameId)
  rw [isRow] at same
  obtain ⟨messageId, result⟩ := Option.isSome_iff_exists.mp
    ((invariant.db.results before isBefore).mpr ⟨same.purpose ▸ chat, wasCompleted⟩)
  obtain ⟨answer, isAnswer, ofRow, named⟩ := (invariant.result_iff isBefore).mp result
  obtain ⟨message, isMessage, isNamed, -, inThread⟩ := reachable_answersInThread reachable before isBefore messageId result
  refine ⟨message, isMessage, ?_, same.threadId.trans inThread⟩
  exact (invariant'.result_iff member).mpr
    ⟨answer, (steps_appends reachable steps).answers.subset isAnswer, ofRow.trans sameId, named.trans isNamed.symm⟩

/-! ## Main result -/

/-- A response that carries no generation, of a thread that has a chat generation, shows the answer
of the latest one, unless it comes no later than `after_ordinal`. -/
def HidesNothing (detail : Detail) (db : Db) (threadId : Id) (afterOrdinal : Option Nat) : Prop :=
  detail.generation = none → ∀ row, latestChat? db threadId = some row →
    ∃ message ∈ db.messages, row.resultMessageId = some message.id ∧
      (message ∈ detail.messages ∨ ∃ after ∈ afterOrdinal, message.ordinal ≤ after)

/-- The answer of the latest chat generation came between the two reads, above `after_ordinal`. -/
def AnsweredBetween (atMessages atLatest : Db) (threadId : Id) (afterOrdinal : Option Nat) : Prop :=
  ∃ row, latestChat? atLatest threadId = some row ∧ row.status = .completed ∧ ¬ IsCompleted atMessages row.id ∧
    ∀ message ∈ atLatest.messages, row.resultMessageId = some message.id → ∀ after ∈ afterOrdinal, after < message.ordinal

theorem threadDetail_ok {atThread atMessages atLatest atSnapshot : Db} {hasDraft : Bool} {ownerId threadId : Id}
    {afterOrdinal : Option Nat} {detail : Detail}
    (loaded : threadDetail atThread atMessages atLatest atSnapshot hasDraft ownerId threadId afterOrdinal = .ok detail) :
    detail = {
      messages := messagesAfter atMessages threadId afterOrdinal
      generation := (latestChat? atLatest threadId).bind fun latest =>
        if latest.status = .completed then none else getSnapshot hasDraft atSnapshot latest.id } := by
  unfold threadDetail at loaded
  split at loaded
  next => cases loaded
  next =>
    split at loaded
    · cases loaded
    · exact (Except.ok.inj loaded).symm

/-- A conversation load hides a finished answer exactly when that answer is committed between the
read of the messages and the read of the latest chat generation. -/
theorem thread_detail_hides_nothing_iff {atThread atMessages atLatest atSnapshot : System} {hasDraft : Bool}
    {ownerId threadId : Id} {afterOrdinal : Option Nat} {detail : Detail}
    (reachable : (machine settings).Reachable atMessages) (untilLatest : (machine settings).Steps atMessages atLatest)
    (untilSnapshot : (machine settings).Steps atLatest atSnapshot)
    (loaded : threadDetail atThread.db atMessages.db atLatest.db atSnapshot.db hasDraft ownerId threadId afterOrdinal = .ok detail) :
    HidesNothing detail atLatest.db threadId afterOrdinal ↔ ¬ AnsweredBetween atMessages.db atLatest.db threadId afterOrdinal := by
  have isDetail := threadDetail_ok loaded
  have reachable' := Machine.reachable_of_steps reachable untilLatest
  cases latest : latestChat? atLatest.db threadId with
  | none => simp [HidesNothing, AnsweredBetween, latest]
  | some row =>
    obtain ⟨member, inThread, chat⟩ := latestChat?_mem latest
    by_cases completed : row.status = .completed
    · have noGeneration : detail.generation = none := by simp [isDetail, latest, completed]
      have messages : detail.messages = messagesAfter atMessages.db threadId afterOrdinal := by rw [isDetail]
      constructor
      · rintro hidesNothing ⟨_, isLatest, -, late, above⟩
        cases latest.symm.trans isLatest
        obtain ⟨message, isMessage, result, shown | ⟨after, isAfter, low⟩⟩ := hidesNothing noGeneration row latest
        · rw [messages, mem_messagesAfter] at shown
          exact late (completed_of_answer_present reachable untilLatest member result shown.1)
        · exact absurd (above message isMessage result after isAfter) (by omega)
      · intro notBetween _ _ isLatest
        cases latest.symm.trans isLatest
        by_cases early : IsCompleted atMessages.db row.id
        · obtain ⟨message, isMessage, result, ofThread⟩ := answer_present_of_completed reachable untilLatest member chat early
          refine ⟨message, (steps_appends reachable untilLatest).messages.subset isMessage, result, ?_⟩
          by_cases low : ∃ after ∈ afterOrdinal, message.ordinal ≤ after
          · exact .inr low
          · have sameThread : message.threadId = threadId := Option.some.inj (ofThread.symm.trans inThread)
            refine .inl (messages ▸ mem_messagesAfter.mpr ⟨isMessage, sameThread, fun after isAfter => ?_⟩)
            by_contra notAbove
            exact low ⟨after, isAfter, by omega⟩
        · by_contra hidden
          refine notBetween ⟨row, latest, completed, early, fun message isMessage result after isAfter => ?_⟩
          by_contra notAbove
          exact hidden ⟨message, isMessage, result, .inr ⟨after, isAfter, by omega⟩⟩
    · -- the snapshot of the latest generation is returned, whatever happened to it since
      have followed : detail.generation ≠ none := by
        obtain ⟨later, isLater, same⟩ := steps_sameRow reachable' untilSnapshot row member
        have invariant := reachable_systemInv (Machine.reachable_of_steps reachable' untilSnapshot)
        have found : atSnapshot.db.generation? row.id = some later :=
          same.id ▸ generation?_of_mem invariant.db.generationIds isLater
        cases hasDraft <;> simp [isDetail, latest, completed, getSnapshot, found]
      constructor
      · rintro - ⟨_, isLatest, isCompleted, -⟩
        cases latest.symm.trans isLatest
        exact completed isCompleted
      · exact fun _ none => absurd none followed

end

/-! ## An answer between the reads -/

/-- The first turn of a conversation up to its provider call. -/
def turnUnderWay : List Action := submitted firstCall ++ [.setRunning 1]

/-- Its answer. -/
def answerArrives : List Action :=
  [.commitSuccess 1 { blocks := [⟨.conversation, str "Hello"⟩], state := .none }
    { messageId := 5, work := { workItemId := 6, versionId := 7 } }]

theorem answer_between_reads_hidden :
    ∃ atMessages atLatest : System, (machine {}).Reachable atMessages ∧ (machine {}).Steps atMessages atLatest ∧
      ∃ detail, threadDetail atMessages.db atMessages.db atLatest.db atLatest.db false 0 2 none = .ok detail ∧
        ¬ HidesNothing detail atLatest.db 2 none := by
  have facts : ((machine {}).run System.empty turnUnderWay).bind (fun s => ((machine {}).run s answerArrives).map fun s' =>
      (s.db.messages.map Message.id, (s.db.thread? 2).map Thread.ownerId,
        (latestChat? s'.db 2).map fun row => (row.status, row.resultMessageId))) =
      some ([3], some 0, some (.completed, some 5)) := by decide
  obtain ⟨s, ran, answered⟩ := Option.bind_eq_some_iff.mp facts
  obtain ⟨s', ran', read⟩ := Option.map_eq_some_iff.mp answered
  simp only [Prod.mk.injEq, Option.map_eq_some_iff] at read
  obtain ⟨messages, ⟨thread, isThread, owner⟩, row, latest, completed, result⟩ := read
  refine ⟨s, s', Machine.reachable_of_run (.init rfl) ran, Machine.steps_of_run ran',
    { messages := messagesAfter s.db 2 none, generation := none }, ?_, fun hidesNothing => ?_⟩
  · simp [threadDetail, isThread, owner, latest, completed]
  · obtain ⟨message, -, isResult, shown | ⟨_, after, -⟩⟩ := hidesNothing rfl row latest
    · have present : message.id ∈ s.db.messages.map Message.id := List.mem_map_of_mem (mem_messagesAfter.mp shown).1
      rw [messages, List.mem_singleton] at present
      rw [result, present] at isResult
      cases isResult
    · cases after

/-- The answer is there before the messages are read. -/
theorem thread_detail_hides_nothing_answered :
    ∃ (s : System) (detail : Detail), (machine {}).Reachable s ∧
      threadDetail s.db s.db s.db s.db false 0 2 none = .ok detail ∧ detail.generation = none ∧
      HidesNothing detail s.db 2 none := by
  have facts : ((machine {}).run System.empty (turnUnderWay ++ answerArrives)).map (fun s =>
      ((s.db.thread? 2).map Thread.ownerId, (latestChat? s.db 2).map fun row => (row.id, row.status),
        s.db.generations.map fun row => (row.id, row.status))) =
      some (some 0, some (1, .completed), [(1, .completed)]) := by decide
  obtain ⟨s, ran, read⟩ := Option.map_eq_some_iff.mp facts
  simp only [Prod.mk.injEq, Option.map_eq_some_iff] at read
  obtain ⟨⟨thread, isThread, owner⟩, ⟨row, latest, isRow, completed⟩, generations⟩ := read
  have reachable := Machine.reachable_of_run (.init rfl) ran
  have loaded : threadDetail s.db s.db s.db s.db false 0 2 none =
      .ok { messages := messagesAfter s.db 2 none, generation := none } := by
    simp [threadDetail, isThread, owner, latest, completed]
  refine ⟨s, _, reachable, loaded, rfl, (thread_detail_hides_nothing_iff reachable .refl .refl loaded).mpr ?_⟩
  rintro ⟨other, isLatest, -, late, -⟩
  cases latest.symm.trans isLatest
  exact late ⟨row, (latestChat?_mem latest).1, rfl, completed⟩

end Oveo.Lifecycle
