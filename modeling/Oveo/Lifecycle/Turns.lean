import Oveo.Lifecycle.Safety

/-! # One answer per user turn

The answer of a generation follows its source message directly as long as the source is still
the last message of its thread when the generation row is inserted.  A submission inserts both
together, so only a retry, whose checks are reads made before its transaction, can break this. -/

namespace Oveo.Lifecycle

open Oveo.Lib Oveo.Docx Oveo.Protocol Oveo.Store Oveo.Work

/-! ## Ordinals -/

theorem foldl_max_le {ordinals : List Nat} {first bound : Nat} (start : first ≤ bound)
    (bounded : ∀ ordinal ∈ ordinals, ordinal ≤ bound) : ordinals.foldl max first ≤ bound := by
  induction ordinals generalizing first with
  | nil => exact start
  | cons ordinal ordinals inductionHypothesis =>
    obtain ⟨head, tail⟩ := List.forall_mem_cons.mp bounded
    exact inductionHypothesis (Nat.max_le.mpr ⟨start, head⟩) tail

theorem le_foldl_max {ordinals : List Nat} {first ordinal : Nat}
    (member : ordinal = first ∨ ordinal ∈ ordinals) : ordinal ≤ ordinals.foldl max first := by
  induction ordinals generalizing first ordinal with
  | nil =>
    rcases member with rfl | impossible
    · exact Nat.le_refl _
    · cases impossible
  | cons head ordinals inductionHypothesis =>
    rw [List.foldl_cons]
    rcases member with rfl | member
    · exact Nat.le_trans (Nat.le_max_left _ head) (inductionHypothesis (.inl rfl))
    · rcases List.mem_cons.mp member with rfl | member
      · exact Nat.le_trans (Nat.le_max_right first _) (inductionHypothesis (.inl rfl))
      · exact inductionHypothesis (.inr member)

theorem le_maxOrdinal {db : Db} {message : Message} (member : message ∈ db.messages) :
    message.ordinal ≤ db.maxOrdinal message.threadId :=
  le_foldl_max (.inr (List.mem_map_of_mem (List.mem_filter.mpr ⟨member, by simp⟩)))

theorem maxOrdinal_le {db : Db} {threadId : Id} {bound : Nat}
    (bounded : ∀ message ∈ db.messages, message.threadId = threadId → message.ordinal ≤ bound) :
    db.maxOrdinal threadId ≤ bound := by
  refine foldl_max_le (Nat.zero_le bound) fun ordinal member => ?_
  obtain ⟨message, filtered, rfl⟩ := List.mem_map.mp member
  obtain ⟨messageMember, sameThread⟩ := List.mem_filter.mp filtered
  exact bounded message messageMember (by simpa using sameThread)

/-! ## The invariant -/

/-- The message a generation answers is the last one of its thread. -/
def SourceIsLast (db : Db) (sourceMessageId threadId : Option Id) : Prop :=
  ∃ source ∈ db.messages, sourceMessageId = some source.id ∧ threadId = some source.threadId ∧
    ∀ message ∈ db.messages, message.threadId = source.threadId → message.ordinal ≤ source.ordinal

/-- The answer of a generation comes directly after the message it answers. -/
def AnswerFollows (db : Db) (row : Generation) (messageId : Id) : Prop :=
  ∃ source ∈ db.messages, ∃ answer ∈ db.messages, row.sourceMessageId = some source.id ∧ answer.id = messageId ∧
    answer.role = .assistant ∧ answer.threadId = source.threadId ∧ answer.ordinal = source.ordinal + 1

structure TurnInv (db : Db) : Prop where
  ordinals : db.messages.Pairwise fun first second => first.threadId = second.threadId → first.ordinal < second.ordinal
  active : ∀ row ∈ db.generations, row.purpose = .chat → row.status.isActive = true →
    SourceIsLast db row.sourceMessageId row.threadId
  answered : ∀ row ∈ db.generations, ∀ messageId, row.resultMessageId = some messageId → AnswerFollows db row messageId

theorem turnInv_empty : TurnInv Db.empty := by
  constructor <;> simp [Db.empty]

section

variable {settings : Settings} {s s' : System} {db db' : Db}

theorem AnswerFollows.mono {row row' : Generation} {messageId : Id} (follows : AnswerFollows db row messageId)
    (source : row'.sourceMessageId = row.sourceMessageId) (kept : ∀ message ∈ db.messages, message ∈ db'.messages) :
    AnswerFollows db' row' messageId := by
  obtain ⟨message, member, answer, answerMember, sourceId, rest⟩ := follows
  exact ⟨message, kept message member, answer, kept answer answerMember, source.trans sourceId, rest⟩

theorem TurnInv.update {change} (invariant : TurnInv db) (updates : Updates db db' change) : TurnInv db' := by
  have messages : db'.messages = db.messages := by rw [updates.tables]
  constructor
  case ordinals => rw [messages]; exact invariant.ordinals
  case active =>
    intro row member chat active
    rw [updates.generations] at member
    obtain ⟨before, beforeMember, rfl⟩ := List.mem_map.mp member
    have evolves := updates.evolves before beforeMember
    have last := invariant.active before beforeMember (evolves.same.purpose ▸ chat)
      (Status.follows_active evolves.follows active)
    rw [evolves.same.sourceMessageId, evolves.same.threadId, SourceIsLast, messages]
    exact last
  case answered =>
    intro row member messageId result
    rw [updates.generations] at member
    obtain ⟨before, beforeMember, rfl⟩ := List.mem_map.mp member
    have evolves := updates.evolves before beforeMember
    have follows := invariant.answered before beforeMember messageId (evolves.result ▸ result)
    exact follows.mono evolves.same.sourceMessageId fun message present => messages ▸ present

/-- A message appended to another thread leaves the last message of this one. -/
theorem SourceIsLast.append {sourceMessageId threadId : Option Id} (last : SourceIsLast db sourceMessageId threadId)
    {new : List Message} (messages : db'.messages = db.messages ++ new)
    (other : ∀ message ∈ new, threadId ≠ some message.threadId) : SourceIsLast db' sourceMessageId threadId := by
  obtain ⟨source, member, sourceId, sameThread, greatest⟩ := last
  refine ⟨source, messages ▸ List.mem_append_left _ member, sourceId, sameThread, fun message present inThread => ?_⟩
  rw [messages] at present
  rcases List.mem_append.mp present with old | added
  · exact greatest message old inThread
  · exact absurd (sameThread.trans (congrArg some inThread.symm)) (other message added)

/-- A message with the next ordinal of its thread keeps the ordinals increasing. -/
theorem ordinals_append {message : Message}
    (ordinals : db.messages.Pairwise fun first second =>
      first.threadId = second.threadId → first.ordinal < second.ordinal)
    (next : message.ordinal = db.maxOrdinal message.threadId + 1) :
    (db.messages ++ [message]).Pairwise fun first second =>
      first.threadId = second.threadId → first.ordinal < second.ordinal := by
  refine List.pairwise_append.mpr ⟨ordinals, List.pairwise_singleton _ _, fun first member second new sameThread => ?_⟩
  obtain rfl := List.mem_singleton.mp new
  rw [next, ← sameThread]
  exact Nat.lt_succ_of_le (le_maxOrdinal member)

theorem TurnInv.commit {answers : List Answer} {id : Id} {document : ProtocolDocument} {templates : Templates}
    {ids : AnswerIds} {answer : Option Answer} (invariant : TurnInv db) (tables : DbInvariant db answers)
    (committed : Committed settings db id document templates ids db' answer) : TurnInv db' := by
  cases committed with
  | @chat claimed _ thread _ _ _ found running chat thread' _ messages _ _ _ _ generations messages' =>
    obtain ⟨member, rfl⟩ := generation?_mem found
    rw [messages] at messages'
    have isRow : ∀ other ∈ db.generations, other.id = claimed.id → other = claimed := fun other otherMember same =>
      List.inj_on_of_nodup_map tables.generationIds otherMember member same
    have claimedActive : claimed.status.isActive = true := by rw [running]; rfl
    constructor
    case ordinals => rw [messages']; exact ordinals_append invariant.ordinals rfl
    case active =>
      intro row' member' chat' active
      rw [generations] at member'
      obtain ⟨row, rowMember, rfl⟩ := List.mem_map.mp member'
      have follows : row.status.follows (completeRow claimed.id document (some ids.messageId) row).status = true :=
        completeRow_follows tables.generationIds found running _ rowMember
      have wasActive := Status.follows_active follows active
      have different : row ≠ claimed := by
        rintro rfl
        simp [completeRow, completedRow, setStatus, Status.isActive, activeGenerationStatuses] at active
      have last := invariant.active row rowMember ((completeRow_same _ row).purpose ▸ chat') wasActive
      rw [(completeRow_same _ row).sourceMessageId, (completeRow_same _ row).threadId]
      refine last.append messages' fun message new sameThread => ?_
      -- The claimed row was the only active one of its thread.
      obtain rfl := List.mem_singleton.mp new
      have symmetric : Std.Symm fun first second : Generation => ¬ BothActive first second :=
        ⟨fun _ _ apart both => apart ⟨both.2.1, both.1, both.2.2.symm⟩⟩
      exact tables.oneActive.forall rowMember member different
        ⟨wasActive, claimedActive, sameThread.trans thread'.symm⟩
    case answered =>
      intro row' member' messageId result
      rw [generations] at member'
      obtain ⟨row, rowMember, rfl⟩ := List.mem_map.mp member'
      have kept : ∀ message ∈ db.messages, message ∈ db'.messages := fun message present =>
        messages' ▸ List.mem_append_left _ present
      by_cases same : row.id = claimed.id
      · obtain rfl := isRow row rowMember same
        have messageIdEq : ids.messageId = messageId := by simpa [completeRow, completedRow] using result
        obtain ⟨source, sourceMember, sourceId, sourceThread, greatest⟩ := invariant.active row member chat claimedActive
        have threadEq : source.threadId = thread.id := Option.some.inj (sourceThread.symm.trans thread')
        have ordinal : db.maxOrdinal thread.id = source.ordinal :=
          Nat.le_antisymm (maxOrdinal_le fun message present inThread => greatest message present (inThread.trans threadEq.symm))
            (threadEq ▸ le_maxOrdinal sourceMember)
        refine ⟨source, kept source sourceMember, answerMessage db thread.id ids.messageId document, ?_, ?_, messageIdEq,
          rfl, threadEq.symm, congrArg (· + 1) ordinal⟩
        · rw [messages']
          simp
        · exact (completeRow_same _ row).sourceMessageId.trans sourceId
      · have unchanged : completeRow claimed.id document (some ids.messageId) row = row := by simp [completeRow, same]
        rw [unchanged] at result ⊢
        exact (invariant.answered row rowMember messageId result).mono rfl kept
  | @handoff claimed found running handoff =>
    obtain ⟨member, rfl⟩ := generation?_mem found
    constructor
    case ordinals => exact invariant.ordinals
    case active =>
      intro row' member' chat' active
      obtain ⟨row, rowMember, rfl⟩ := List.mem_map.mp member'
      have same : SameRow row (completeRow claimed.id document none row) := completeRow_same none row
      have follows : row.status.follows (completeRow claimed.id document none row).status = true :=
        completeRow_follows tables.generationIds found running none rowMember
      have last := invariant.active row rowMember (same.purpose ▸ chat') (Status.follows_active follows active)
      rw [same.sourceMessageId, same.threadId]
      exact last
    case answered =>
      intro row' member' messageId result
      obtain ⟨row, rowMember, rfl⟩ := List.mem_map.mp member'
      have sameResult : (completeRow claimed.id document none row).resultMessageId = row.resultMessageId := by
        unfold completeRow
        split <;> rfl
      rw [sameResult] at result
      exact (invariant.answered row rowMember messageId result).mono (completeRow_same none row).sourceMessageId
        fun _ present => present

/-- A new row answers the message inserted with it, or one that is still the last of its thread. -/
theorem TurnInv.insert {requesterId clientRequestId now : Id} {ids : SubmissionIds} {plan : Plan}
    (invariant : TurnInv db) (inserted : Inserted db requesterId clientRequestId ids plan now db')
    (current : plan.turn = none → plan.purpose = .chat → SourceIsLast db plan.sourceMessageId (some plan.threadId)) :
    TurnInv db' := by
  have messages := inserted.messages
  have kept : ∀ message ∈ db.messages, message ∈ db'.messages := fun message present =>
    messages ▸ List.mem_append_left _ present
  constructor
  case ordinals =>
    rw [messages]
    cases turn : plan.turn with
    | none => simpa [turn] using invariant.ordinals
    | some content => exact ordinals_append invariant.ordinals rfl
  case active =>
    intro row member chat active
    rw [inserted.generations, List.mem_append, List.mem_singleton] at member
    rcases member with old | rfl
    · refine (invariant.active row old chat active).append messages fun message new sameThread => ?_
      -- The new row is active on its own thread, so no older one there is.
      have newThread : message.threadId = plan.threadId := by
        cases turn : plan.turn <;> simp [turn] at new
        rw [new]
        rfl
      exact inserted.soleActive row old ⟨active, rfl, sameThread.trans (congrArg some newThread)⟩
    · cases turn : plan.turn with
      | none =>
        rw [turn, Option.map_none, Option.toList_none, List.append_nil] at messages
        have last := current turn chat
        simp only [SourceIsLast, queuedGeneration, turn, messages] at last ⊢
        exact last
      | some content =>
        rw [turn, Option.map_some, Option.toList_some] at messages
        refine ⟨turnMessage db requesterId ids plan.threadId content, ?_, ?_, rfl, ?_⟩
        · rw [messages]
          simp
        · simp [queuedGeneration, turn, turnMessage]
        · intro message present inThread
          rw [messages] at present
          rcases List.mem_append.mp present with old | new
          · have bound := le_maxOrdinal old
            rw [inThread] at bound
            exact Nat.le_succ_of_le bound
          · obtain rfl := List.mem_singleton.mp new
            exact Nat.le_refl _
  case answered =>
    intro row member messageId result
    rw [inserted.generations, List.mem_append, List.mem_singleton] at member
    rcases member with old | rfl
    · exact (invariant.answered row old messageId result).mono rfl kept
    · cases result

/-! ## Runs whose retries are current -/

/-- The transaction of a call fails: its key is taken, or another generation of the thread stays
active. -/
def isRefused (db : Db) (call : Call) (plan : Plan) (orphans : List (Id × Status)) : Prop :=
  (∃ row ∈ db.generations, call.hasKey row) ∨
    ∃ row ∈ db.generations, row.threadId = some plan.threadId ∧ row.status.isActive = true ∧
      row.id ∉ orphans.map Prod.fst

/-- When the transaction of a retry inserts its row, the message it answers again is still the
last one of its thread. -/
def retryIsCurrent (s : System) : Action → Prop
  | .advance id _ .applied =>
    match s.call? id with
    | some call =>
      match call.phase with
      | .measured plan orphans =>
        plan.turn.isNone = true → plan.purpose = .chat →
          isRefused s.db call plan orphans ∨ SourceIsLast s.db plan.sourceMessageId (some plan.threadId)
      | _ => True
    | none => True
  | _ => True

instance (db : Db) (sourceMessageId threadId : Option Id) : Decidable (SourceIsLast db sourceMessageId threadId) :=
  inferInstanceAs (Decidable (∃ source ∈ db.messages, _ ∧ _))

instance (call : Call) (row : Generation) : Decidable (call.hasKey row) :=
  inferInstanceAs (Decidable (_ ∧ _))

instance (db : Db) (call : Call) (plan : Plan) (orphans : List (Id × Status)) :
    Decidable (isRefused db call plan orphans) :=
  inferInstanceAs (Decidable (_ ∨ _))

instance (s : System) (action : Action) : Decidable (retryIsCurrent s action) := by
  unfold retryIsCurrent
  split
  · split
    · split <;> infer_instance
    · infer_instance
  · infer_instance

theorem isRefused_sound {call : Call} {plan : Plan} {orphans : List (Id × Status)} {now : Nat}
    (refused : isRefused db call plan orphans) :
    submissionTransaction db call.requesterId call.clientRequestId call.ids plan orphans now = none := by
  obtain ⟨change, finalized⟩ := finalizeOrphans_updates orphans db
  cases committed : submissionTransaction db call.requesterId call.clientRequestId call.ids plan orphans now with
  | none => rfl
  | some db' =>
    have inserted := submissionTransaction_inserted committed
    rcases refused with ⟨row, member, requester, client⟩ | ⟨row, member, sameThread, active, other⟩
    · have same := (finalized.evolves row member).same
      refine absurd ⟨same.requesterId.trans requester, same.clientRequestId.trans client⟩
        (inserted.newKey (change row) ?_)
      exact finalized.generations ▸ List.mem_map_of_mem member
    · refine absurd ⟨active, rfl, sameThread⟩ (inserted.soleActive row ?_)
      rw [finalized.generations]
      exact List.mem_map.mpr ⟨row, member, finalized.others row other⟩

theorem step_turnInv {action : Action} (system : SystemInv s) (invariant : TurnInv s.db)
    (current : retryIsCurrent s action) (taken : step settings s action = some s') : TurnInv s'.db := by
  cases step_tableStep system taken with
  | update updates => exact invariant.update updates
  | commit _ _ committed => exact invariant.commit system.db committed
  | @insert id now createdAt call plan orphans isAdvance found phase committed =>
    obtain ⟨change, finalized⟩ := finalizeOrphans_updates orphans s.db
    refine (invariant.update finalized.toUpdates).insert (submissionTransaction_inserted committed) fun turn chat => ?_
    subst isAdvance
    simp only [retryIsCurrent, found, phase] at current
    rcases current (by rw [turn]; rfl) chat with refused | last
    · rw [isRefused_sound refused] at committed
      cases committed
    · rw [finalized.tables]
      exact last

/-! ## Main result -/

/-- Every user message has at most one answer, and each answer directly follows its message. -/
structure OneAnswerPerTurn (db : Db) : Prop where
  position : ∀ row ∈ db.generations, ∀ messageId, row.resultMessageId = some messageId → AnswerFollows db row messageId
  sole : ∀ first ∈ db.generations, ∀ second ∈ db.generations, first.sourceMessageId = second.sourceMessageId →
    first.resultMessageId.isSome → second.resultMessageId.isSome → first.resultMessageId = second.resultMessageId

/-- Messages of one thread with one ordinal are one message. -/
theorem TurnInv.sameMessage (invariant : TurnInv db) {first second : Message} (firstMember : first ∈ db.messages)
    (secondMember : second ∈ db.messages) (sameThread : first.threadId = second.threadId)
    (sameOrdinal : first.ordinal = second.ordinal) : first = second := by
  have apart : db.messages.Pairwise fun first second =>
      ¬ (first.threadId = second.threadId ∧ first.ordinal = second.ordinal) :=
    invariant.ordinals.imp fun increasing same => absurd (increasing same.1) (by omega)
  have symmetric : Std.Symm fun first second : Message =>
      ¬ (first.threadId = second.threadId ∧ first.ordinal = second.ordinal) :=
    ⟨fun _ _ apart same => apart ⟨same.1.symm, same.2.symm⟩⟩
  exact Classical.byContradiction fun different => apart.forall firstMember secondMember different ⟨sameThread, sameOrdinal⟩

theorem TurnInv.oneAnswer (invariant : TurnInv db) (messageIds : (db.messages.map Message.id).Nodup) :
    OneAnswerPerTurn db := by
  refine ⟨invariant.answered, fun first firstMember second secondMember sameSource firstResult secondResult => ?_⟩
  obtain ⟨firstId, firstEq⟩ := Option.isSome_iff_exists.mp firstResult
  obtain ⟨secondId, secondEq⟩ := Option.isSome_iff_exists.mp secondResult
  obtain ⟨source, sourceMember, answer, answerMember, sourceId, rfl, -, sameThread, next⟩ :=
    invariant.answered first firstMember firstId firstEq
  obtain ⟨source', sourceMember', answer', answerMember', sourceId', rfl, -, sameThread', next'⟩ :=
    invariant.answered second secondMember secondId secondEq
  have sameId : source.id = source'.id := Option.some.inj (sourceId.symm.trans (sameSource.trans sourceId'))
  obtain rfl := List.inj_on_of_nodup_map messageIds sourceMember sourceMember' sameId
  rw [firstEq, secondEq, invariant.sameMessage answerMember answerMember' (sameThread.trans sameThread'.symm)
    (next.trans next'.symm)]

end

/-- A retry of generation 1. -/
def retryCall (generationId clientRequestId : Id) : Call :=
  { ids := { generationId, threadId := generationId + 1, messageId := generationId + 2, attachmentId := generationId + 3 }
    requesterId := 0
    clientRequestId
    request := .retry 1
    phase := .entered }

/-- The first turn fails. -/
def failedTurn : List Action := submitted firstCall ++ [.setRunning 1, .fail 1 .providerTransient []]

/-- The actions of a retry up to its transaction, and from there on. -/
def retryReads (generationId : Id) : List Action := List.replicate 7 (.advance generationId 1 .applied)

def retryInserts (generationId : Id) : List Action := List.replicate 3 (.advance generationId 1 .applied)

/-- Both retries pass their checks before either inserts; the second inserts after the first has
been answered. -/
def overlappingRetries : List Action :=
  failedTurn ++ [.enter (retryCall 21 1), .enter (retryCall 31 2)] ++ retryReads 21 ++ retryReads 31 ++
    retryInserts 21 ++ answeredRun 21 41 ++ retryInserts 31 ++ answeredRun 31 51

end Oveo.Lifecycle
