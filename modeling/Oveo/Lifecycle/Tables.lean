import Oveo.Lifecycle.Evolution
import Oveo.Work.Frame
import Mathlib.Data.List.Nodup

/-! # The tables through each transaction

`DbInvariant` links the status of every generation row with its result, the assistant messages
and the work versions; `answers` is the history of committed chat answers.  Each kind of
transaction has one specification (`Updates`, `Committed`, `Inserted`) and one lemma that it
keeps the invariant. -/

namespace Oveo.Lifecycle

open Oveo.Lib Oveo.Protocol Oveo.Store Oveo.Work

/-! ## The invariant -/

def SameKey (first second : Generation) : Prop :=
  first.requesterId = second.requesterId ∧ first.clientRequestId = second.clientRequestId

/-- Both rows are active on one thread, which the partial unique index forbids. -/
def BothActive (first second : Generation) : Prop :=
  first.status.isActive = true ∧ second.status.isActive = true ∧ first.threadId = second.threadId

/-- The messages committed as answers of one generation. -/
def answersOf (answers : List Answer) (generationId : Id) : List Id :=
  (answers.filter fun answer => answer.generationId == generationId).map Answer.messageId

def assistantMessages (db : Db) : List Id :=
  (db.messages.filter fun message => message.role == .assistant).map Message.id

/-- The versions the answers of a history added. -/
def versionsAdded (answers : List Answer) : List Id :=
  (answers.filter fun answer => !answer.state.isNone).map Answer.versionId

structure DbInvariant (db : Db) (answers : List Answer) : Prop where
  generationIds : (db.generations.map Generation.id).Nodup
  messageIds : (db.messages.map Message.id).Nodup
  threads : ∀ row ∈ db.generations, ∃ threadId, row.threadId = some threadId ∧ (db.thread? threadId).isSome
  results : ∀ row ∈ db.generations, row.resultMessageId.isSome ↔ row.purpose = .chat ∧ row.status = .completed
  keys : db.generations.Pairwise fun first second => ¬ SameKey first second
  oneActive : db.generations.Pairwise fun first second => ¬ BothActive first second
  answersOf : ∀ row ∈ db.generations, answersOf answers row.id = row.resultMessageId.toList
  answered : ∀ answer ∈ answers, answer.generationId ∈ db.generations.map Generation.id
  assistant : assistantMessages db = answers.map Answer.messageId
  versions : db.workVersions.map WorkVersion.id = versionsAdded answers

theorem dbInvariant_empty : DbInvariant Db.empty [] := by
  constructor <;> simp [Db.empty, assistantMessages, versionsAdded]

/-! ## Looking rows up -/

theorem find?_map_id {rows : List Generation} {change : Generation → Generation}
    (sameId : ∀ row ∈ rows, (change row).id = row.id) (id : Id) :
    (rows.map change).find? (fun row => row.id == id) = (rows.find? fun row => row.id == id).map change := by
  induction rows with
  | nil => rfl
  | cons row rows inductionHypothesis =>
    have tail := inductionHypothesis fun other member => sameId other (List.mem_cons_of_mem row member)
    simp only [List.map_cons, List.find?_cons, sameId row List.mem_cons_self, tail]
    split <;> simp

theorem generation?_mem {db : Db} {id : Id} {row : Generation} (found : db.generation? id = some row) :
    row ∈ db.generations ∧ row.id = id := by
  unfold Db.generation? at found
  exact ⟨List.mem_of_find?_eq_some found, by simpa using List.find?_some found⟩

theorem generation?_of_mem {db : Db} (nodup : (db.generations.map Generation.id).Nodup) {row : Generation}
    (member : row ∈ db.generations) : db.generation? row.id = some row := by
  have found : (db.generation? row.id).isSome := by
    simp only [Db.generation?, List.find?_isSome]
    exact ⟨row, member, by simp⟩
  obtain ⟨other, equal⟩ := Option.isSome_iff_exists.mp found
  obtain ⟨otherMember, sameId⟩ := generation?_mem equal
  rw [equal, List.inj_on_of_nodup_map nodup otherMember member sameId]

theorem Updates.ids {db db' : Db} {change} (updates : Updates db db' change) :
    db'.generations.map Generation.id = db.generations.map Generation.id := by
  rw [updates.generations, List.map_map]
  exact List.map_congr_left fun row member => (updates.evolves row member).same.id

theorem Updates.generation? {db db' : Db} {change} (updates : Updates db db' change) (id : Id) :
    db'.generation? id = (db.generation? id).map change := by
  unfold Db.generation?
  rw [updates.generations]
  exact find?_map_id (fun row member => (updates.evolves row member).same.id) id

/-! ## Updates -/

/-- A property of pairs of rows that evolving rows cannot acquire stays pairwise false. -/
theorem pairwise_map {rows : List Generation} {relation : Generation → Generation → Prop}
    {change : Generation → Generation}
    (reflected : ∀ first ∈ rows, ∀ second ∈ rows, relation (change first) (change second) → relation first second)
    (pairwise : rows.Pairwise fun first second => ¬ relation first second) :
    (rows.map change).Pairwise fun first second => ¬ relation first second := by
  rw [List.pairwise_map]
  refine List.Pairwise.imp_of_mem ?_ pairwise
  intro first second firstMember secondMember apart related
  exact apart (reflected first firstMember second secondMember related)

theorem SameRow.sameKey {first second first' second' : Generation} (left : SameRow first first')
    (right : SameRow second second') (same : SameKey first' second') : SameKey first second := by
  unfold SameKey at *
  rwa [left.requesterId, left.clientRequestId, right.requesterId, right.clientRequestId] at same

theorem bothActive_of_follows {first second first' second' : Generation} (left : SameRow first first')
    (right : SameRow second second') (leftFollows : first.status.follows first'.status = true)
    (rightFollows : second.status.follows second'.status = true) (both : BothActive first' second') :
    BothActive first second := by
  refine ⟨Status.follows_active leftFollows both.1, Status.follows_active rightFollows both.2.1, ?_⟩
  rw [← left.threadId, ← right.threadId]
  exact both.2.2

theorem DbInvariant.update {db db' : Db} {answers : List Answer} {change} (invariant : DbInvariant db answers)
    (updates : Updates db db' change) : DbInvariant db' answers := by
  have evolves := updates.evolves
  obtain ⟨rfl, -⟩ := updates
  constructor
  case generationIds =>
    have sameIds := Updates.ids ⟨rfl, evolves⟩
    rw [sameIds]
    exact invariant.generationIds
  case messageIds => exact invariant.messageIds
  case threads =>
    intro row member
    obtain ⟨before, beforeMember, rfl⟩ := List.mem_map.mp member
    rw [(evolves before beforeMember).same.threadId]
    exact invariant.threads before beforeMember
  case results =>
    intro row member
    obtain ⟨before, beforeMember, rfl⟩ := List.mem_map.mp member
    have evolved := evolves before beforeMember
    rw [evolved.result, evolved.same.purpose, evolved.completed_iff]
    exact invariant.results before beforeMember
  case keys =>
    exact pairwise_map (fun first firstMember second secondMember =>
      (evolves first firstMember).same.sameKey (evolves second secondMember).same) invariant.keys
  case oneActive =>
    exact pairwise_map (fun first firstMember second secondMember =>
      bothActive_of_follows (evolves first firstMember).same (evolves second secondMember).same
        (evolves first firstMember).follows (evolves second secondMember).follows) invariant.oneActive
  case answersOf =>
    intro row member
    obtain ⟨before, beforeMember, rfl⟩ := List.mem_map.mp member
    rw [(evolves before beforeMember).same.id, (evolves before beforeMember).result]
    exact invariant.answersOf before beforeMember
  case answered =>
    intro answer member
    have sameIds := Updates.ids ⟨rfl, evolves⟩
    rw [sameIds]
    exact invariant.answered answer member
  case assistant => exact invariant.assistant
  case versions => exact invariant.versions

/-! ## Commits -/

/-- The claimed row after its commit. -/
def completedRow (document : ProtocolDocument) (result : Option Id) (row : Generation) : Generation :=
  { setStatus .completed { partialBlocks := some document.blocks } row with
    resultMessageId := if result.isSome then result else row.resultMessageId }

/-- The rows after a commit claimed one of them. -/
def completeRow (id : Id) (document : ProtocolDocument) (result : Option Id) (row : Generation) : Generation :=
  if row.id = id then completedRow document result row else row

/-- The assistant message of a committed answer. -/
def answerMessage (db : Db) (threadId messageId : Id) (document : ProtocolDocument) : Message :=
  { id := messageId, threadId, ordinal := db.maxOrdinal threadId + 1, role := .assistant,
    actorUserId := none, content := document.blocks }

/-- What a commit that claimed its row did. -/
inductive Committed (settings : Settings) (db : Db) (id : Id) (document : ProtocolDocument)
    (templates : Templates) (ids : AnswerIds) : Db → Option Answer → Prop where
  | chat {row claimed : Generation} {thread : Thread} {answered applied db' : Db} :
      db.generation? id = some row → row.status = .running → row.purpose = .chat →
      row.threadId = some thread.id → claimed = completedRow document none row →
      answered.messages = db.messages ++ [answerMessage db thread.id ids.messageId document] →
      answered.attachments = db.attachments → answered.workItems = db.workItems →
      answered.workVersions = db.workVersions →
      Applied settings answered claimed thread document templates ids.work applied →
      db'.generations = db.generations.map (completeRow id document (some ids.messageId)) →
      db'.messages = answered.messages → db'.threads = db.threads → db'.attachments = db.attachments →
      db'.workItems = applied.workItems → db'.workVersions = applied.workVersions →
      Committed settings db id document templates ids db'
        (some { generationId := id, messageId := ids.messageId, state := document.state,
                versionId := ids.work.versionId })
  | handoff {row : Generation} :
      db.generation? id = some row → row.status = .running → row.purpose = .promptHandoff →
      document.state.isNone = true → Committed settings db id document templates ids
        { db with generations := db.generations.map (completeRow id document none) } none

section

variable {settings : Settings} {db db' : Db} {id : Id} {document : ProtocolDocument} {templates : Templates}
  {ids : AnswerIds} {answers : List Answer} {answer : Option Answer}

/-- With unique ids the compare-and-set of a commit claims exactly the row with that id. -/
theorem claim_eq (nodup : (db.generations.map Generation.id).Nodup) {row : Generation}
    (member : row ∈ db.generations) (running : row.status = .running) :
    (transition db row.id [.running] .completed { partialBlocks := some document.blocks }).1 =
      { db with generations := db.generations.map (completeRow row.id document none) } := by
  simp only [transition]
  congr 1
  apply List.map_congr_left
  intro other otherMember
  by_cases same : other.id = row.id
  · obtain rfl := List.inj_on_of_nodup_map nodup otherMember member same
    simp [matchesTransition, completeRow, completedRow, running, setStatus]
  · simp [matchesTransition, completeRow, same]

theorem completeRow_id (result : Option Id) (row : Generation) : (completeRow id document result row).id = row.id := by
  unfold completeRow
  split <;> rfl

theorem commitSuccessOnce_committed (invariant : DbInvariant db answers)
    (committed : commitSuccessOnce settings db id document templates ids = .ok (some (db', answer))) :
    Committed settings db id document templates ids db' answer := by
  unfold commitSuccessOnce at committed
  split at committed
  next => cases committed
  next claimedDb claim =>
    -- The claim matched, so the row exists and was running.
    have isMatch : db.generations.any (matchesTransition id [.running]) = true := congrArg Prod.snd claim
    obtain ⟨row, member, matched⟩ := List.any_eq_true.mp isMatch
    simp only [matchesTransition, List.contains_eq_mem, List.mem_singleton, Bool.and_eq_true, beq_iff_eq,
      decide_eq_true_eq] at matched
    obtain ⟨rfl, running⟩ := matched
    have claimed : claimedDb = { db with generations := db.generations.map (completeRow row.id document none) } := by
      rw [← claim_eq invariant.generationIds member running, claim]
    have found := generation?_of_mem invariant.generationIds member
    have claimedFound : claimedDb.generation? row.id = some (completedRow document none row) := by
      rw [claimed]
      simp only [Db.generation?] at found ⊢
      rw [find?_map_id fun other _ => completeRow_id none other, found]
      simp [completeRow]
    obtain ⟨threadId, threadEq, -⟩ := invariant.threads row member
    obtain ⟨claimedRow, claimedEq⟩ : ∃ claimedRow, claimedRow = completedRow document none row := ⟨_, rfl⟩
    have sameThread : claimedRow.threadId = some threadId := claimedEq ▸ threadEq
    have samePurpose : claimedRow.purpose = row.purpose := claimedEq ▸ rfl
    rw [← claimedEq] at claimedFound
    simp only [claimedFound, sameThread, samePurpose, throw_bind, ite_error_eq_ok] at committed
    obtain ⟨mutates, -, committed⟩ := committed
    cases purpose : row.purpose with
    | promptHandoff =>
      simp only [purpose, pure_eq_ok, Except.ok.injEq, Option.some.injEq, Prod.mk.injEq] at committed
      obtain ⟨rfl, rfl⟩ := committed
      rw [claimed]
      exact .handoff found running purpose (by simpa [purpose] using mutates)
    | chat =>
      simp only [purpose] at committed
      split at committed
      next => cases committed
      next thread threadFound =>
        split at committed
        next => cases committed
        next applied appliedEq =>
          simp only [pure_eq_ok, Except.ok.injEq, Option.some.injEq, Prod.mk.injEq] at committed
          obtain ⟨rfl, rfl⟩ := committed
          have operation := applyStateOperation_applied appliedEq
          have same := operation.conversation
          have threadIdEq : thread.id = threadId := by simpa using List.find?_some threadFound
          subst claimed
          refine .chat found running purpose (threadEq.trans (congrArg some threadIdEq.symm)) claimedEq ?_ ?_ ?_
            ?_ operation ?_ same.messages same.threads same.attachments rfl rfl
          iterate 4 rfl
          show applied.generations.map _ = _
          rw [same.generations]
          show (db.generations.map _).map _ = _
          rw [List.map_map]
          apply List.map_congr_left
          intro other _
          by_cases sameId : other.id = row.id <;> simp [completeRow, completedRow, setStatus, sameId]

theorem completeRow_same (result : Option Id) (row : Generation) : SameRow row (completeRow id document result row) := by
  unfold completeRow
  split
  · exact ⟨rfl, rfl, rfl, rfl, rfl, rfl, rfl⟩
  · exact .refl row

/-- What a commit changes in each row, given that it claimed a running one. -/
theorem completeRow_follows (nodup : (db.generations.map Generation.id).Nodup) {claimed : Generation}
    (found : db.generation? id = some claimed) (running : claimed.status = .running) (result : Option Id)
    {row : Generation} (member : row ∈ db.generations) :
    row.status.follows (completeRow id document result row).status = true := by
  unfold completeRow
  split
  next same =>
    obtain ⟨claimedMember, claimedId⟩ := generation?_mem found
    have equal := List.inj_on_of_nodup_map nodup member claimedMember (same.trans claimedId.symm)
    rw [equal, running]
    rfl
  next => exact Status.follows_refl _

theorem answersOf_append (answers : List Answer) (answer : Answer) (generationId : Id) :
    answersOf (answers ++ [answer]) generationId =
      answersOf answers generationId ++ if answer.generationId = generationId then [answer.messageId] else [] := by
  by_cases same : answer.generationId = generationId <;> simp [answersOf, same]

theorem DbInvariant.commit (invariant : DbInvariant db answers)
    (committed : Committed settings db id document templates ids db' answer)
    (fresh : ids.messageId ∉ db.messages.map Message.id) :
    DbInvariant db' (answers ++ answer.toList) := by
  have sameIds : ∀ result, (db.generations.map (completeRow id document result)).map Generation.id =
      db.generations.map Generation.id := fun result => by
    rw [List.map_map]
    exact List.map_congr_left fun row _ => completeRow_id result row
  cases committed with
  | @chat row claimed thread answered applied _ found running purpose threadEq claimedEq messages _ _ versions
      operation generations' messages' threads' _ _ versions' =>
    obtain ⟨member, rfl⟩ := generation?_mem found
    have isRow : ∀ other ∈ db.generations, other.id = row.id → other = row := fun other otherMember same =>
      List.inj_on_of_nodup_map invariant.generationIds otherMember member same
    have unanswered : row.resultMessageId = none := by
      have noResult := mt (invariant.results row member).mp (by simp [running])
      simpa using noResult
    constructor
    case generationIds => rw [generations', sameIds]; exact invariant.generationIds
    case messageIds =>
      rw [messages', messages, List.map_append, List.nodup_append]
      refine ⟨invariant.messageIds, List.nodup_singleton _, ?_⟩
      rintro existing existingMember new newMember rfl
      simp only [answerMessage, List.map_cons, List.map_nil, List.mem_singleton] at newMember
      exact fresh (newMember ▸ existingMember)
    case threads =>
      intro row' member'
      rw [generations'] at member'
      obtain ⟨before, beforeMember, rfl⟩ := List.mem_map.mp member'
      obtain ⟨threadId, equal, present⟩ := invariant.threads before beforeMember
      refine ⟨threadId, (completeRow_same _ before).threadId.trans equal, ?_⟩
      simpa only [Db.thread?, threads'] using present
    case results =>
      intro row' member'
      rw [generations'] at member'
      obtain ⟨before, beforeMember, rfl⟩ := List.mem_map.mp member'
      by_cases same : before.id = row.id
      · obtain rfl := isRow before beforeMember same
        simp [completeRow, completedRow, setStatus, purpose]
      · simpa [completeRow, same] using invariant.results before beforeMember
    case keys =>
      rw [generations']
      exact pairwise_map (fun first _ second _ => (completeRow_same _ first).sameKey (completeRow_same _ second))
        invariant.keys
    case oneActive =>
      rw [generations']
      exact pairwise_map (fun first firstMember second secondMember =>
        bothActive_of_follows (completeRow_same _ first) (completeRow_same _ second)
          (completeRow_follows invariant.generationIds found running _ firstMember)
          (completeRow_follows invariant.generationIds found running _ secondMember)) invariant.oneActive
    case answersOf =>
      intro row' member'
      rw [generations'] at member'
      obtain ⟨before, beforeMember, rfl⟩ := List.mem_map.mp member'
      simp only [Option.toList_some, completeRow_id, answersOf_append]
      rw [invariant.answersOf before beforeMember]
      by_cases same : before.id = row.id
      · obtain rfl := isRow before beforeMember same
        simp [completeRow, completedRow, unanswered]
      · simp [completeRow, same, Ne.symm same]
    case answered =>
      intro answer answerMember
      rw [generations', sameIds]
      rcases List.mem_append.mp answerMember with old | new
      · exact invariant.answered answer old
      · simp only [Option.toList_some, List.mem_singleton] at new
        subst new
        exact List.mem_map_of_mem member
    case assistant =>
      have before := invariant.assistant
      unfold assistantMessages at before ⊢
      rw [messages', messages, List.filter_append, List.map_append, before]
      simp [answerMessage]
    case versions =>
      rw [versions', operation.versionIds, versions, invariant.versions]
      unfold versionsAdded
      rw [Option.toList_some, List.filter_append, List.map_append]
      cases isNone : document.state.isNone <;> simp [isNone]
  | @handoff row found running purpose =>
    obtain ⟨member, rfl⟩ := generation?_mem found
    have isRow : ∀ other ∈ db.generations, other.id = row.id → other = row := fun other otherMember same =>
      List.inj_on_of_nodup_map invariant.generationIds otherMember member same
    have sameResult : ∀ other, (completeRow row.id document none other).resultMessageId = other.resultMessageId := by
      intro other
      unfold completeRow
      split <;> rfl
    simp only [Option.toList_none, List.append_nil]
    constructor
    case generationIds => rw [sameIds]; exact invariant.generationIds
    case messageIds => exact invariant.messageIds
    case threads =>
      intro row' member'
      obtain ⟨before, beforeMember, rfl⟩ := List.mem_map.mp member'
      rw [(completeRow_same none before).threadId]
      exact invariant.threads before beforeMember
    case results =>
      intro row' member'
      obtain ⟨before, beforeMember, rfl⟩ := List.mem_map.mp member'
      have old := invariant.results before beforeMember
      rw [sameResult, old, (completeRow_same none before).purpose]
      by_cases same : before.id = row.id
      · obtain rfl := isRow before beforeMember same
        simp [purpose]
      · simp [completeRow, same]
    case keys =>
      exact pairwise_map (fun first _ second _ => (completeRow_same _ first).sameKey (completeRow_same _ second))
        invariant.keys
    case oneActive =>
      exact pairwise_map (fun first firstMember second secondMember =>
        bothActive_of_follows (completeRow_same _ first) (completeRow_same _ second)
          (completeRow_follows invariant.generationIds found running _ firstMember)
          (completeRow_follows invariant.generationIds found running _ secondMember)) invariant.oneActive
    case answersOf =>
      intro row' member'
      obtain ⟨before, beforeMember, rfl⟩ := List.mem_map.mp member'
      rw [completeRow_id, sameResult]
      exact invariant.answersOf before beforeMember
    case answered =>
      intro answer answerMember
      rw [sameIds]
      exact invariant.answered answer answerMember
    case assistant => exact invariant.assistant
    case versions => exact invariant.versions

end

/-! ## Submissions -/

/-- The message a turn inserts. -/
def turnMessage (db : Db) (requesterId : Id) (ids : SubmissionIds) (threadId : Id) (turn : TurnContent) : Message :=
  { id := ids.messageId, threadId, ordinal := db.maxOrdinal threadId + 1, role := .user,
    actorUserId := some requesterId, content := userContent turn.text }

/-- What a submission whose constraints hold did, after the orphans were finalized. -/
structure Inserted (db : Db) (requesterId clientRequestId : Id) (ids : SubmissionIds) (plan : Plan) (now : Nat)
    (db' : Db) : Prop where
  threads : db'.threads = db.threads ++ plan.newThread.toList
  messages : db'.messages = db.messages ++
    (plan.turn.map (turnMessage db requesterId ids plan.threadId)).toList
  attachments : db'.attachments = db.attachments ++ ((plan.turn.bind TurnContent.attachment).map fun upload =>
    ({ id := ids.attachmentId, messageId := ids.messageId, role := upload.role,
       documentBlocks := upload.documentBlocks, wordCount := upload.wordCount } : Attachment)).toList
  generations : db'.generations = db.generations ++ [queuedGeneration requesterId clientRequestId ids plan now]
  workItems : db'.workItems = db.workItems
  workVersions : db'.workVersions = db.workVersions
  newKey : ∀ row ∈ db.generations, ¬ SameKey row (queuedGeneration requesterId clientRequestId ids plan now)
  soleActive : ∀ row ∈ db.generations, ¬ BothActive row (queuedGeneration requesterId clientRequestId ids plan now)
  thread : (db'.thread? plan.threadId).isSome

theorem insertTurnRows_tables (db : Db) (requesterId : Id) (ids : SubmissionIds) (threadId : Id)
    (turn : Option TurnContent) :
    insertTurnRows db requesterId ids threadId turn =
      { db with
        messages := db.messages ++ (turn.map (turnMessage db requesterId ids threadId)).toList
        attachments := db.attachments ++ ((turn.bind TurnContent.attachment).map fun upload =>
          ({ id := ids.attachmentId, messageId := ids.messageId, role := upload.role,
             documentBlocks := upload.documentBlocks, wordCount := upload.wordCount } : Attachment)).toList } := by
  cases turn with
  | none => simp [insertTurnRows]
  | some turn =>
    cases upload : turn.attachment <;>
      simp [insertTurnRows, insertMessage, insertAttachment, turnMessage, upload]

theorem submissionTransaction_inserted {db db' : Db} {requesterId clientRequestId : Id} {ids : SubmissionIds}
    {plan : Plan} {orphans : List (Id × Status)} {now : Nat}
    (committed : submissionTransaction db requesterId clientRequestId ids plan orphans now = some db') :
    Inserted (finalizeOrphans db orphans) requesterId clientRequestId ids plan now db' := by
  unfold submissionTransaction at committed
  simp only [insertTurnRows_tables, Option.ite_none_left_eq_some, Option.some.injEq] at committed
  obtain ⟨allowed, rfl⟩ := committed
  have withThread : (plan.newThread.map (insertThread (finalizeOrphans db orphans))).getD (finalizeOrphans db orphans) =
      { finalizeOrphans db orphans with threads := (finalizeOrphans db orphans).threads ++ plan.newThread.toList } := by
    cases plan.newThread <;> simp [insertThread]
  rw [withThread] at allowed ⊢
  simp only [violatesConstraint, Bool.or_eq_true, List.any_eq_true, not_or, not_exists, not_and,
    Bool.not_eq_true', Bool.not_eq_false] at allowed
  obtain ⟨⟨newKey, soleActive⟩, threadPresent⟩ := allowed
  constructor
  case newKey =>
    rintro row member ⟨sameRequester, sameClient⟩
    exact newKey row member (by simp [sameRequester, sameClient])
  case soleActive =>
    rintro row member ⟨rowActive, newActive, sameThread⟩
    exact soleActive row member (by simp [rowActive, newActive, sameThread])
  case thread =>
    simp only [queuedGeneration, Option.all_some] at threadPresent
    exact threadPresent
  all_goals rfl

theorem DbInvariant.insert {db db' : Db} {answers : List Answer} {requesterId clientRequestId : Id}
    {ids : SubmissionIds} {plan : Plan} {now : Nat} (invariant : DbInvariant db answers)
    (inserted : Inserted db requesterId clientRequestId ids plan now db')
    (freshGeneration : ids.generationId ∉ db.generations.map Generation.id)
    (freshMessage : ids.messageId ∉ db.messages.map Message.id) : DbInvariant db' answers := by
  constructor
  case generationIds =>
    rw [inserted.generations, List.map_append, List.nodup_append]
    refine ⟨invariant.generationIds, List.nodup_singleton _, ?_⟩
    rintro existing existingMember new newMember rfl
    simp only [queuedGeneration, List.map_cons, List.map_nil, List.mem_singleton] at newMember
    exact freshGeneration (newMember ▸ existingMember)
  case messageIds =>
    rw [inserted.messages, List.map_append, List.nodup_append]
    refine ⟨invariant.messageIds, ?_, ?_⟩
    · cases plan.turn <;> simp
    · rintro existing existingMember new newMember rfl
      have equal : existing = ids.messageId := by
        cases turn : plan.turn <;> simp [turn, turnMessage] at newMember
        exact newMember
      exact freshMessage (equal ▸ existingMember)
  case threads =>
    intro row member
    rw [inserted.generations] at member
    rcases List.mem_append.mp member with old | new
    · obtain ⟨threadId, equal, present⟩ := invariant.threads row old
      refine ⟨threadId, equal, ?_⟩
      simp only [Db.thread?, inserted.threads, List.find?_append, Option.isSome_or] at present ⊢
      simp [present]
    · simp only [List.mem_singleton] at new
      subst new
      exact ⟨plan.threadId, rfl, inserted.thread⟩
  case results =>
    intro row member
    rw [inserted.generations] at member
    rcases List.mem_append.mp member with old | new
    · exact invariant.results row old
    · simp only [List.mem_singleton] at new
      subst new
      simp [queuedGeneration]
  case keys =>
    rw [inserted.generations, List.pairwise_append]
    refine ⟨invariant.keys, List.pairwise_singleton _ _, fun row member new newMember => ?_⟩
    simp only [List.mem_singleton] at newMember
    exact newMember ▸ inserted.newKey row member
  case oneActive =>
    rw [inserted.generations, List.pairwise_append]
    refine ⟨invariant.oneActive, List.pairwise_singleton _ _, fun row member new newMember => ?_⟩
    simp only [List.mem_singleton] at newMember
    exact newMember ▸ inserted.soleActive row member
  case answersOf =>
    intro row member
    rw [inserted.generations] at member
    rcases List.mem_append.mp member with old | new
    · exact invariant.answersOf row old
    · simp only [List.mem_singleton] at new
      subst new
      -- No answer names a row that did not exist yet.
      simp only [queuedGeneration, Option.toList_none, Lifecycle.answersOf, List.map_eq_nil_iff,
        List.filter_eq_nil_iff, beq_iff_eq]
      intro answer answerMember same
      exact freshGeneration (same ▸ invariant.answered answer answerMember)
  case answered =>
    intro answer member
    rw [inserted.generations, List.map_append]
    exact List.mem_append_left _ (invariant.answered answer member)
  case assistant =>
    rw [← invariant.assistant]
    unfold assistantMessages
    rw [inserted.messages, List.filter_append]
    cases plan.turn <;> simp [turnMessage]
  case versions => rw [inserted.workVersions]; exact invariant.versions

end Oveo.Lifecycle
