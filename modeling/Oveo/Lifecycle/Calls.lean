import Oveo.Lifecycle.Invariant

/-! # Steps of a call, and every run

`CallStep` says once everything a submission, handoff or retry can do in one step; with the
steps of `Invariant` it shows that every run keeps `SystemInv`. -/

namespace Oveo.Lifecycle

open Oveo.Lib Oveo.Docx Oveo.Protocol Oveo.Store Oveo.Work

/-! ## Steps of a call -/

theorem existingRequest_found {db : Db} {requesterId clientRequestId : Id} {row : Generation}
    (found : existingRequest db requesterId clientRequestId = .ok (some row)) :
    row ∈ db.generations ∧ row.requesterId = requesterId ∧ row.clientRequestId = clientRequestId := by
  unfold existingRequest at found
  split at found
  next => cases found
  next existing held =>
    split at found
    next =>
      simp only [Except.ok.injEq, Option.some.injEq] at found
      subst found
      have keyed := List.find?_some held
      simp only [Bool.and_eq_true, beq_iff_eq] at keyed
      exact ⟨List.mem_of_find?_eq_some held, keyed⟩
    next => cases found

/-- The phases in which a call has neither committed its rows nor finished. -/
def Phase.isPending : Phase → Bool
  | .committed | .scheduled | .returned _ | .raised _ => false
  | _ => true

theorem Phase.isPending_unfinished {phase : Phase} (pending : phase.isPending = true) : phase.isFinished = false := by
  revert pending
  cases phase <;> simp [Phase.isPending, Phase.isFinished]

theorem Phase.isPending_rowless {phase : Phase} (pending : phase.isPending = true) (ids : SubmissionIds) :
    phase.mayHaveRows ids = false := by
  revert pending
  cases phase <;> simp [Phase.isPending, Phase.mayHaveRows]

/-- Everything a step of one call can do. -/
inductive CallStep (s : System) (call : Call) (outcome : CommitOutcome) : System → Prop where
  | move {phase : Phase} : call.phase.isPending = true → phase.isPending = true → PhaseInv s call phase →
      CallStep s call outcome (s.setPhase call.ids.generationId phase)
  | leave {phase : Phase} : phase.isFinished = true → phase = .raised .interrupted ∨ call.phase.isPending = true →
      PhaseInv s call phase → CallStep s call outcome (s.leave call phase)
  | conflict {plan : Plan} : call.phase.isPending = true →
      CallStep s call outcome ((s.stage call plan).setPhase call.ids.generationId .conflicted)
  | commit {plan : Plan} {orphans : List (Id × Status)} {now : Nat} {db' : Db} :
      call.phase = .measured plan orphans → outcome = .applied →
      submissionTransaction s.db call.requesterId call.clientRequestId call.ids plan orphans now = some db' →
      CallStep s call outcome { (s.stage call plan).setPhase call.ids.generationId .committed with db := db' }
  | schedule : call.phase = .committed → CallStep s call outcome
      { s.setPhase call.ids.generationId .scheduled with tasks := call.ids.generationId :: s.tasks }
  | close {phase : Phase} : call.phase = .scheduled →
      phase = .returned call.ids.generationId ∨ phase = .raised .interrupted →
      CallStep s call outcome { s.setPhase call.ids.generationId phase with
        starting := s.starting.filter (· ≠ call.ids.generationId) }

section

variable {settings : Settings} {s s' : System} {call : Call} {now : Nat} {outcome : CommitOutcome}

theorem CallStep.raise (pending : call.phase.isPending = true) (error : CallError) :
    CallStep s call outcome (s.leave call (.raised error)) :=
  .leave rfl (.inr pending) trivial

theorem CallStep.return_existing (pending : call.phase.isPending = true) {row : Generation}
    (found : existingRequest s.db call.requesterId call.clientRequestId = .ok (some row)) :
    CallStep s call outcome (s.leave call (.returned row.id)) :=
  have ⟨member, keyed⟩ := existingRequest_found found
  .leave rfl (.inr pending) ⟨row, member, rfl, keyed⟩

theorem turnPlan_ownsNewThread {threadId ownerId : Option Id} {mode : Option Mode} {content : TurnContent}
    {plan : Plan} (planned : turnPlan s.db call threadId ownerId mode content = .ok plan) :
    OwnsNewThread call.ids plan := by
  unfold turnPlan at planned
  intro thread member
  split at planned
  next =>
    split at planned
    next =>
      split at planned
      next =>
        simp only [Except.ok.injEq] at planned
        subst planned
        simp only [Option.mem_def, Option.some.injEq] at member
        rw [← member]
      next => cases planned
    next => cases planned
  next =>
    split at planned
    next =>
      split at planned
      next =>
        simp only [Except.ok.injEq] at planned
        subst planned
        cases member
      next => cases planned
    next => cases planned

theorem activeRows_present (db : Db) (threadId : Id) : ∀ row ∈ activeRows db threadId, row.1 ∈ generationIds db := by
  intro row member
  obtain ⟨generation, filtered, rfl⟩ := List.mem_map.mp member
  exact List.mem_map_of_mem (List.mem_filter.mp filtered).1

theorem validate_callStep (absent : call.phase = .absent) : CallStep s call outcome (s.validate call) := by
  have pending : call.phase.isPending = true := by rw [absent]; rfl
  unfold System.validate
  cases request : call.request with
  | turn threadId ownerId mode content =>
    dsimp only
    split
    next plan planned =>
      have owns : PhaseInv s call (.validated plan) := turnPlan_ownsNewThread planned
      exact .move pending rfl owns
    next => exact .raise pending _
  | handoff threadId =>
    dsimp only
    split
    next =>
      split
      next => exact .move pending rfl fun thread member => nomatch member
      next => exact .raise pending _
    next => exact .raise pending _
  | retry generationId =>
    dsimp only
    split
    next => exact .raise pending _
    next =>
      split
      next => exact .raise pending _
      next =>
        split
        next => exact .raise pending _
        next =>
          split
          next => exact .move pending rfl trivial
          next => exact .raise pending _

/-- Every step `advance` takes is one of those `CallStep` lists. -/
theorem advance_callStep (invariant : CallInv s call) (taken : s.advance settings call now outcome = some s') :
    CallStep s call outcome s' := by
  have phaseInv := invariant.phase
  unfold System.advance at taken
  cases phase : call.phase with
  | entered =>
    have pending : call.phase.isPending = true := by rw [phase]; rfl
    simp only [phase, Option.some.injEq] at taken
    subst taken
    unfold System.answerExisting
    split
    next found =>
      split
      next => exact .raise pending _
      next => exact .return_existing pending found
    next => exact .move pending rfl trivial
    next => exact .raise pending _
  | absent =>
    simp only [phase, Option.some.injEq] at taken
    exact taken ▸ validate_callStep phase
  | originalRead original =>
    have pending : call.phase.isPending = true := by rw [phase]; rfl
    simp only [phase] at taken
    split at taken <;> cases taken
    · exact .move pending rfl trivial
    · exact .raise pending _
  | latestRead original =>
    have pending : call.phase.isPending = true := by rw [phase]; rfl
    simp only [phase] at taken
    split at taken
    · split at taken <;> cases taken
      · exact .move pending rfl fun thread member => nomatch member
      · exact .raise pending _
    · cases taken
      exact .raise pending _
  | validated plan =>
    have pending : call.phase.isPending = true := by rw [phase]; rfl
    simp only [phase, Option.some.injEq] at taken phaseInv
    subst taken
    exact .move pending rfl ⟨phaseInv, activeRows_present s.db plan.threadId⟩
  | orphansRead plan rows =>
    have pending : call.phase.isPending = true := by rw [phase]; rfl
    simp only [phase, Option.some.injEq] at taken phaseInv
    subst taken
    refine .move pending rfl ⟨phaseInv.1, fun row member => ?_⟩
    obtain ⟨read, notLive⟩ := List.mem_filter.mp member
    exact ⟨phaseInv.2 row read, by simpa using notLive⟩
  | orphansChecked plan orphans =>
    have pending : call.phase.isPending = true := by rw [phase]; rfl
    simp only [phase] at taken phaseInv
    split at taken <;> cases taken
    · exact .move pending rfl phaseInv
    · exact .raise pending _
  | measured plan orphans =>
    have pending : call.phase.isPending = true := by rw [phase]; rfl
    simp only [phase, Option.some.injEq] at taken
    subst taken
    unfold System.submit
    split
    next => exact .conflict pending
    next db' committed =>
      cases outcome with
      | applied => exact .commit phase rfl committed
      | notApplied => exact .raise pending _
  | committed =>
    simp only [phase, Option.some.injEq] at taken
    exact taken ▸ .schedule phase
  | scheduled =>
    simp only [phase, Option.some.injEq] at taken
    exact taken ▸ .close phase (.inl rfl)
  | conflicted =>
    have pending : call.phase.isPending = true := by rw [phase]; rfl
    simp only [phase, Option.some.injEq] at taken
    subst taken
    unfold System.resolve
    split
    next found =>
      split
      next => exact .raise pending _
      next => exact .return_existing pending found
    next => exact .raise pending _
    next => exact .raise pending _
  | returned _ | raised _ =>
    simp only [phase] at taken
    cases taken

theorem cancel_callStep (outcome : CommitOutcome) {id : Id} (found : s.call? id = some call) (taken : step settings s (.cancel id) = some s') :
    CallStep s call outcome s' := by
  simp only [step, found] at taken
  split at taken
  next phase =>
    cases taken
    obtain rfl : call.ids.generationId = id := by simpa using List.find?_some found
    exact .close phase (.inr rfl)
  next => cases taken
  next => cases taken
  next =>
    cases taken
    exact .leave rfl (.inl rfl) trivial

/-! ## A step of a call keeps the invariant -/

@[simp] theorem stage_db (plan : Plan) : (s.stage call plan).db = s.db := by
  unfold System.stage; split <;> rfl

@[simp] theorem stage_starting (plan : Plan) : (s.stage call plan).starting = s.starting := by
  unfold System.stage; split <;> rfl

@[simp] theorem stage_tasks (plan : Plan) : (s.stage call plan).tasks = s.tasks := by
  unfold System.stage; split <;> rfl

@[simp] theorem stage_calls (plan : Plan) : (s.stage call plan).calls = s.calls := by
  unfold System.stage; split <;> rfl

@[simp] theorem stage_issued (plan : Plan) : (s.stage call plan).issued = s.issued := by
  unfold System.stage; split <;> rfl

@[simp] theorem stage_answers (plan : Plan) : (s.stage call plan).answers = s.answers := by
  unfold System.stage; split <;> rfl

theorem mem_stage_files (plan : Plan) {id : Id} (member : id ∈ (s.stage call plan).files) :
    id = call.ids.attachmentId ∨ id ∈ s.files := by
  unfold System.stage at member
  split at member
  · exact List.mem_cons.mp member
  · exact .inr member

theorem SystemInv.disjoint (invariant : SystemInv s) {first second : Call} (firstMember : first ∈ s.calls)
    (secondMember : second ∈ s.calls) (different : first ≠ second) :
    first.ids.toList.Disjoint second.ids.toList := by
  have symmetric : Std.Symm fun first second : Call => first.ids.toList.Disjoint second.ids.toList :=
    ⟨fun _ _ apart _ first second => apart second first⟩
  exact invariant.apart.forall firstMember secondMember different

theorem mem_setPhase (invariant : SystemInv s) (member : call ∈ s.calls) {phase : Phase} {other : Call}
    (otherMember : other ∈ (s.setPhase call.ids.generationId phase).calls) :
    other = { call with phase } ∨ other ∈ s.calls ∧ other.ids.toList.Disjoint call.ids.toList := by
  obtain ⟨before, beforeMember, rfl⟩ := List.mem_map.mp otherMember
  by_cases same : before = call
  · subst same
    exact .inl (by simp)
  · have apart := invariant.disjoint beforeMember member same
    have differ : before.ids.generationId ≠ call.ids.generationId := fun equal =>
      apart (a := before.ids.generationId) (by simp [SubmissionIds.toList]) (by simp [SubmissionIds.toList, equal])
    simp only [differ, if_false]
    exact .inr ⟨beforeMember, apart⟩

/-- One call changed its phase; every other call keeps what it knows and owns. -/
theorem SystemInv.ofCall (invariant : SystemInv s) (member : call ∈ s.calls) (phase : Phase)
    (calls : s'.calls = (s.setPhase call.ids.generationId phase).calls) (db : DbInvariant s'.db s'.answers)
    (rows : RowsIssued s') (unique : RowsUnique s'.db) (own : CallInv s' { call with phase })
    (others : ∀ other ∈ s.calls, other.ids.toList.Disjoint call.ids.toList →
      Kept s s' other.ids ∧ (other.ids.generationId ∈ s.starting → other.ids.generationId ∈ s'.starting)) :
    SystemInv s' where
  db := db
  rows := rows
  unique := unique
  apart := by
    have sameIds : ∀ other : Call,
        (if other.ids.generationId = call.ids.generationId then { other with phase } else other).ids = other.ids := by
      intro other
      split <;> rfl
    rw [calls, System.setPhase, List.pairwise_map]
    simp only [sameIds]
    exact invariant.apart
  calls := by
    intro other otherMember
    rw [calls] at otherMember
    rcases mem_setPhase invariant member otherMember with rfl | ⟨otherMember, apart⟩
    · exact own
    · obtain ⟨kept, starting⟩ := others other otherMember apart
      exact (invariant.calls other otherMember).frame kept starting

/-- The same when the call only moved in memory. -/
theorem SystemInv.ofMove (invariant : SystemInv s) (member : call ∈ s.calls) (phase : Phase)
    (calls : s'.calls = (s.setPhase call.ids.generationId phase).calls) (db : s'.db = s.db)
    (answers : s'.answers = s.answers) (issued : s'.issued = s.issued)
    (live : ∀ id, s'.isLive id = true → s.isLive id = true) (own : CallInv s' { call with phase })
    (starting : ∀ id ∈ s.starting, id ≠ call.ids.generationId → id ∈ s'.starting)
    (files : ∀ id ∈ s'.files, id = call.ids.attachmentId ∨ id ∈ s.files) : SystemInv s' := by
  have updates : Updates s.db s'.db id := db ▸ .refl s.db
  refine invariant.ofCall member phase calls (by rw [db, answers]; exact invariant.db)
    (invariant.rows.update updates issued) (invariant.unique.update updates) own fun other otherMember apart => ⟨?_, ?_⟩
  · have ownFile : other.ids.attachmentId ≠ call.ids.attachmentId := fun equal =>
      apart (a := other.ids.attachmentId) (by simp [SubmissionIds.toList]) (by simp [SubmissionIds.toList, equal])
    exact
      { issued := fun id member => issued ▸ member
        live := fun id _ => live id
        rows := fun row member => ⟨row, db ▸ member, .refl row⟩
        own := fun row member _ => ⟨row, db ▸ member, .refl row⟩
        thread := fun present => db ▸ present
        message := fun present => db ▸ present
        attachment := fun present => db ▸ present
        files := fun present => (files _ present).resolve_left ownFile }
  · intro present
    refine starting _ present fun equal => ?_
    exact apart (a := other.ids.generationId) (by simp [SubmissionIds.toList]) (by simp [SubmissionIds.toList, equal])

/-- Which ids a committed submission adds. -/
theorem Inserted.generationIds {db db' : Db} {requesterId clientRequestId : Id} {ids : SubmissionIds} {plan : Plan}
    (inserted : Inserted db requesterId clientRequestId ids plan now db') :
    generationIds db' = generationIds db ++ [ids.generationId] := by
  rw [Lifecycle.generationIds, inserted.generations, List.map_append, Lifecycle.generationIds]
  rfl

theorem Inserted.threadIds {db db' : Db} {requesterId clientRequestId : Id} {ids : SubmissionIds} {plan : Plan}
    (inserted : Inserted db requesterId clientRequestId ids plan now db') (owns : OwnsNewThread ids plan) {id : Id}
    (present : id ∈ threadIds db') : id ∈ threadIds db ∨ id = ids.threadId := by
  rw [Lifecycle.threadIds, inserted.threads, List.map_append, List.mem_append] at present
  refine present.imp_right fun new => ?_
  obtain ⟨thread, member, rfl⟩ := List.mem_map.mp new
  exact owns thread (by simpa using member)

theorem Inserted.messageIds {db db' : Db} {requesterId clientRequestId : Id} {ids : SubmissionIds} {plan : Plan}
    (inserted : Inserted db requesterId clientRequestId ids plan now db') {id : Id}
    (present : id ∈ messageIds db') : id ∈ messageIds db ∨ id = ids.messageId := by
  rw [Lifecycle.messageIds, inserted.messages, List.map_append, List.mem_append] at present
  refine present.imp_right fun new => ?_
  cases turn : plan.turn <;> simp [turn, turnMessage] at new
  exact new

theorem Inserted.attachmentIds {db db' : Db} {requesterId clientRequestId : Id} {ids : SubmissionIds} {plan : Plan}
    (inserted : Inserted db requesterId clientRequestId ids plan now db') {id : Id}
    (present : id ∈ attachmentIds db') : id ∈ attachmentIds db ∨ id = ids.attachmentId := by
  rw [Lifecycle.attachmentIds, inserted.attachments, List.map_append, List.mem_append] at present
  refine present.imp_right fun new => ?_
  cases upload : plan.turn.bind TurnContent.attachment <;> simp [upload] at new
  exact new

/-- The transaction of a call commits rows under the call's own ids only. -/
theorem SystemInv.insert (invariant : SystemInv s) (member : call ∈ s.calls) {plan : Plan}
    {orphans : List (Id × Status)} {db' : Db} (phase : call.phase = .measured plan orphans)
    (committed : submissionTransaction s.db call.requesterId call.clientRequestId call.ids plan orphans now = some db') :
    SystemInv { (s.stage call plan).setPhase call.ids.generationId .committed with db := db' } := by
  have callInv := invariant.calls call member
  have owns : OwnsNewThread call.ids plan := by
    have remembered := callInv.phase
    rw [phase] at remembered
    exact remembered.1
  have absent : call.ids.generationId ∉ Lifecycle.generationIds s.db := callInv.noRows (by rw [phase]; rfl)
  obtain ⟨noThread, noMessage, noAttachment⟩ := callInv.allOrNothing absent
  have inserted := submissionTransaction_inserted committed
  obtain ⟨change, finalized⟩ := finalizeOrphans_updates orphans s.db
  have updates := finalized.toUpdates
  -- Finalizing the orphans changed no id, so every new id is one of the call's own.
  have generations : Lifecycle.generationIds db' = Lifecycle.generationIds s.db ++ [call.ids.generationId] := by
    rw [inserted.generationIds, Lifecycle.generationIds, updates.ids, Lifecycle.generationIds]
  have threads : ∀ id ∈ Lifecycle.threadIds db', id ∈ Lifecycle.threadIds s.db ∨ id = call.ids.threadId := by
    intro id present
    have cases := inserted.threadIds owns present
    rwa [Lifecycle.threadIds, updates.tables] at cases
  have messages : ∀ id ∈ Lifecycle.messageIds db', id ∈ Lifecycle.messageIds s.db ∨ id = call.ids.messageId := by
    intro id present
    have cases := inserted.messageIds present
    rwa [Lifecycle.messageIds, updates.tables] at cases
  have attachments : ∀ id ∈ Lifecycle.attachmentIds db',
      id ∈ Lifecycle.attachmentIds s.db ∨ id = call.ids.attachmentId := by
    intro id present
    have cases := inserted.attachmentIds present
    rwa [Lifecycle.attachmentIds, updates.tables] at cases
  have items : itemIds db' = itemIds s.db := by
    rw [itemIds, inserted.workItems, updates.tables, itemIds]
  have versions : versionIds db' = versionIds s.db := by
    rw [versionIds, inserted.workVersions, updates.tables, versionIds]
  have unique : RowsUnique db' := by
    refine ⟨?_, items ▸ invariant.unique.items, versions ▸ invariant.unique.versions⟩
    have before := invariant.unique.attachments
    rw [Lifecycle.attachmentIds, inserted.attachments, List.map_append, updates.tables]
    refine List.nodup_append.mpr ⟨before, ?_, ?_⟩
    · cases plan.turn.bind TurnContent.attachment <;> simp
    · rintro id old new newMember rfl
      refine noAttachment ?_
      have own : id = call.ids.attachmentId := by
        cases upload : plan.turn.bind TurnContent.attachment <;> simp [upload] at newMember
        exact newMember
      exact own ▸ old
  have kept : ∀ row ∈ s.db.generations, ∃ row' ∈ db'.generations, SameRow row row' := by
    intro row rowMember
    refine ⟨change row, ?_, (updates.evolves row rowMember).same⟩
    rw [inserted.generations, updates.generations]
    exact List.mem_append_left _ (List.mem_map_of_mem rowMember)
  have rowOrigin : ∀ row' ∈ db'.generations, (∃ row ∈ s.db.generations, SameRow row row') ∨
      row' = queuedGeneration call.requesterId call.clientRequestId call.ids plan now := by
    intro row' member'
    rw [inserted.generations, updates.generations, List.mem_append, List.mem_singleton] at member'
    refine member'.imp_left fun old => ?_
    obtain ⟨row, rowMember, rfl⟩ := List.mem_map.mp old
    exact ⟨row, rowMember, (updates.evolves row rowMember).same⟩
  have issued : ∀ id ∈ call.ids.toList, id ∈ s.issued := callInv.issued
  refine invariant.ofCall member .committed (by simp [System.setPhase]) ?_ ?_ unique ?_ ?_
  case refine_1 =>
    simp only [System.setPhase, stage_answers]
    refine (invariant.db.update updates).insert inserted ?_ ?_
    · rwa [updates.ids]
    · rwa [updates.tables]
  case refine_2 =>
    constructor
    case generations =>
      intro id present
      simp only [System.setPhase, stage_issued, generations, List.mem_append, List.mem_singleton] at present ⊢
      rcases present with before | rfl
      · exact invariant.rows.generations id before
      · exact issued _ (by simp [SubmissionIds.toList])
    case threads =>
      intro id present
      simp only [System.setPhase, stage_issued] at present ⊢
      rcases threads id present with before | rfl
      · exact invariant.rows.threads id before
      · exact issued _ (by simp [SubmissionIds.toList])
    case messages =>
      intro id present
      simp only [System.setPhase, stage_issued] at present ⊢
      rcases messages id present with before | rfl
      · exact invariant.rows.messages id before
      · exact issued _ (by simp [SubmissionIds.toList])
    case attachments =>
      intro id present
      simp only [System.setPhase, stage_issued] at present ⊢
      rcases attachments id present with before | rfl
      · exact invariant.rows.attachments id before
      · exact issued _ (by simp [SubmissionIds.toList])
    case items =>
      intro id present
      simp only [System.setPhase, stage_issued, items] at present ⊢
      exact invariant.rows.items id present
    case versions =>
      intro id present
      simp only [System.setPhase, stage_issued, versions] at present ⊢
      exact invariant.rows.versions id present
  case refine_3 =>
    have ownRow : call.ids.generationId ∈ Lifecycle.generationIds db' := by simp [generations]
    constructor
    case issued => simpa [System.setPhase] using issued
    case distinct => exact callInv.distinct
    case starting => simpa [System.setPhase] using fun _ => callInv.starting (by rw [phase]; rfl)
    case phase =>
      refine ⟨queuedGeneration call.requesterId call.clientRequestId call.ids plan now, ?_, rfl, rfl, rfl⟩
      simp [inserted.generations]
    case noRows =>
      intro none
      cases none
    case ownKey =>
      intro row rowMember sameId
      rcases rowOrigin row rowMember with ⟨before, beforeMember, same⟩ | rfl
      · exact absurd (List.mem_map.mpr ⟨before, beforeMember, same.id.symm.trans sameId⟩) absent
      · exact ⟨rfl, rfl⟩
    case allOrNothing => exact fun missing => absurd ownRow missing
    case file => exact fun _ _ => ownRow
  case refine_4 =>
    intro other otherMember apart
    have differ : ∀ id ∈ other.ids.toList, id ∉ call.ids.toList := fun id own shared => apart own shared
    simp only [SubmissionIds.toList, List.mem_cons, List.not_mem_nil, or_false, forall_eq_or_imp, forall_eq,
      not_or] at differ
    obtain ⟨⟨otherGeneration, -⟩, ⟨-, otherThread, -⟩, ⟨-, -, otherMessage, -⟩, -, -, -, otherAttachment⟩ := differ
    refine ⟨?_, by simp [System.setPhase]⟩
    constructor
    case issued => simp [System.setPhase]
    case live => simp [System.setPhase, System.isLive]
    case rows => exact kept
    case own =>
      intro row' member' sameId
      rcases rowOrigin row' member' with origin | rfl
      · exact origin
      · exact absurd sameId.symm otherGeneration
    case thread => exact fun present => (threads _ present).resolve_right otherThread
    case message => exact fun present => (messages _ present).resolve_right otherMessage
    case attachment => exact fun present => (attachments _ present).resolve_right otherAttachment
    case files => exact fun present => (mem_stage_files plan present).resolve_left otherAttachment

/-- A call that only moves in memory keeps its own rows. -/
theorem CallInv.move (invariant : CallInv s call) (phase : Phase) (db : s'.db = s.db) (issued : s'.issued = s.issued)
    (live : ∀ id, s'.isLive id = true → s.isLive id = true)
    (starting : phase.isFinished = false → call.ids.generationId ∈ s'.starting)
    (phaseInv : PhaseInv s call phase)
    (rowless : phase.mayHaveRows call.ids = false → call.ids.generationId ∉ generationIds s.db)
    (file : phase.isFinished = true → call.ids.attachmentId ∈ s'.files → call.ids.generationId ∈ generationIds s.db) :
    CallInv s' { call with phase } := by
  -- The files a call stages are its own, so the frame is taken without them.
  have updates : Updates s.db ({ s' with files := s.files } : System).db id := db ▸ .refl s.db
  have kept := kept_of_updates updates issued live (fun _ present => present) call.ids
  have phaseInv' := PhaseInv.frame kept phaseInv
  refine
    { issued := fun id member => issued ▸ invariant.issued id member
      distinct := invariant.distinct
      starting
      phase := by cases phase <;> exact phaseInv'
      noRows := fun none => db ▸ rowless none
      ownKey := db ▸ invariant.ownKey
      allOrNothing := db ▸ invariant.allOrNothing
      file := fun finished present => db ▸ file finished present }

theorem SystemInv.callStep (invariant : SystemInv s) (member : call ∈ s.calls) (taken : CallStep s call outcome s') :
    SystemInv s' := by
  have callInv := invariant.calls call member
  have pendingInv (pending : call.phase.isPending = true) :
      call.ids.generationId ∈ s.starting ∧ call.ids.generationId ∉ Lifecycle.generationIds s.db :=
    ⟨callInv.starting (Phase.isPending_unfinished pending), callInv.noRows (Phase.isPending_rowless pending _)⟩
  cases taken with
  | @move phase pending stillPending phaseInv =>
    obtain ⟨starting, rowless⟩ := pendingInv pending
    refine invariant.ofMove member phase rfl rfl rfl rfl (fun _ live => live) ?_ (fun _ present _ => present)
      fun _ present => .inr present
    refine callInv.move phase rfl rfl (fun _ live => live) (fun _ => starting) phaseInv (fun _ => rowless) ?_
    intro finished
    rw [Phase.isPending_unfinished stillPending] at finished
    cases finished
  | @leave phase finished interrupted phaseInv =>
    have live : ∀ id, (s.leave call phase).isLive id = true → s.isLive id = true := by
      simp only [isLive_iff, System.leave, System.setPhase]
      exact fun id live => live.imp_left List.mem_of_mem_filter
    refine invariant.ofMove member phase rfl rfl rfl rfl live ?_ ?_ ?_
    · refine callInv.move phase rfl rfl live ?_ phaseInv ?_ ?_
      · intro unfinished
        rw [finished] at unfinished
        cases unfinished
      · intro none
        rcases interrupted with rfl | pending
        · cases none
        · exact (pendingInv pending).2
      · intro _ present
        simp [System.leave] at present
    · intro id present other
      simpa [System.leave, System.setPhase, other] using present
    · exact fun id present => .inr (List.mem_of_mem_filter present)
  | @conflict plan pending =>
    obtain ⟨starting, rowless⟩ := pendingInv pending
    have live : ∀ id, ((s.stage call plan).setPhase call.ids.generationId .conflicted).isLive id = true →
        s.isLive id = true := by
      simp [isLive_iff, System.setPhase]
    refine invariant.ofMove member .conflicted (by simp [System.setPhase]) (by simp [System.setPhase])
      (by simp [System.setPhase]) (by simp [System.setPhase]) live ?_ (by simp [System.setPhase]; tauto)
      fun id present => mem_stage_files plan present
    exact callInv.move .conflicted (by simp [System.setPhase]) (by simp [System.setPhase]) live
      (fun _ => by simpa [System.setPhase] using starting) trivial (fun _ => rowless) fun finished => nomatch finished
  | commit phase _ committed => exact invariant.insert member phase committed
  | schedule phase =>
    have starting : call.ids.generationId ∈ s.starting := callInv.starting (by rw [phase]; rfl)
    have phaseInv := callInv.phase
    rw [phase] at phaseInv
    -- The generation that gets its task was already live.
    have live : ∀ id, ({ s.setPhase call.ids.generationId .scheduled with
        tasks := call.ids.generationId :: s.tasks } : System).isLive id = true → s.isLive id = true := by
      simp only [isLive_iff, System.setPhase, List.mem_cons]
      rintro id (present | rfl | present)
      · exact .inl present
      · exact .inl starting
      · exact .inr present
    refine invariant.ofMove member .scheduled rfl rfl rfl rfl live ?_ (fun _ present _ => present)
      fun _ present => .inr present
    exact callInv.move .scheduled rfl rfl live (fun _ => starting) phaseInv (fun none => nomatch none)
      fun finished => nomatch finished
  | @close phase scheduled closed =>
    have phaseInv := callInv.phase
    rw [scheduled] at phaseInv
    obtain ⟨row, rowMember, rowId, keyed⟩ := phaseInv
    have ownRow : call.ids.generationId ∈ Lifecycle.generationIds s.db := rowId ▸ List.mem_map_of_mem rowMember
    have finished : phase.isFinished = true := by rcases closed with rfl | rfl <;> rfl
    have live : ∀ id, ({ s.setPhase call.ids.generationId phase with
        starting := s.starting.filter (· ≠ call.ids.generationId) } : System).isLive id = true → s.isLive id = true := by
      simp only [isLive_iff, System.setPhase]
      exact fun id live => live.imp_left List.mem_of_mem_filter
    refine invariant.ofMove member phase rfl rfl rfl rfl live ?_ ?_ fun _ present => .inr present
    · refine callInv.move phase rfl rfl live ?_ ?_ ?_ fun _ _ => ownRow
      · intro unfinished
        rw [finished] at unfinished
        cases unfinished
      · rcases closed with rfl | rfl
        · exact ⟨row, rowMember, rowId, keyed⟩
        · trivial
      · intro none
        rcases closed with rfl | rfl <;> simp [Phase.mayHaveRows] at none
    · intro id present other
      simpa [other] using present

/-! ## Restart -/

theorem SystemInv.restart (invariant : SystemInv s) : SystemInv s.restart := by
  have updates : Updates s.db s.restart.db reconcileRow :=
    reconcileOrphans_updates s.db fun row member answered => ((invariant.db.results row member).mp answered).2
  have interrupted : ∀ call : Call, (System.interruptCall call).ids = call.ids := by
    intro call
    unfold System.interruptCall
    split <;> rfl
  constructor
  case db => exact invariant.db.update updates
  case rows => exact invariant.rows.update updates rfl
  case unique => exact invariant.unique.update updates
  case apart =>
    simp only [System.restart, List.pairwise_map, interrupted]
    exact invariant.apart
  case calls =>
    intro call member
    obtain ⟨before, beforeMember, rfl⟩ := List.mem_map.mp member
    have callInv := invariant.calls before beforeMember
    have kept : Kept s s.restart before.ids :=
      kept_of_updates updates rfl (fun _ live => by simp [System.restart, System.isLive] at live)
        (fun _ present => List.mem_of_mem_filter present) before.ids
    unfold System.interruptCall
    split
    next finished =>
      refine callInv.become kept before.phase (fun unfinished => ?_) (PhaseInv.frame kept callInv.phase) callInv.noRows
        fun _ present => kept.generationIds _ (callInv.file finished (kept.files present))
      rw [finished] at unfinished
      cases unfinished
    next =>
      have finished : Phase.isFinished (.raised .interrupted) = true := rfl
      have rows : Phase.mayHaveRows before.ids (.raised .interrupted) = true := rfl
      refine callInv.become kept (.raised .interrupted) (fun unfinished => absurd finished (by simp [unfinished])) trivial
        (fun none => absurd rows (by simp [none])) fun _ present => ?_
      -- The sweep keeps only files of attachment rows, which come with their generation row.
      refine kept.generationIds _ (Classical.byContradiction fun absent => ?_)
      refine (callInv.allOrNothing absent).2.2 ?_
      simp only [System.restart, List.mem_filter, List.any_eq_true, beq_iff_eq] at present
      obtain ⟨-, attachment, attachmentMember, same⟩ := present
      exact same ▸ List.mem_map_of_mem attachmentMember

/-! ## Every run -/

theorem call?_mem {id : Id} (found : s.call? id = some call) : call ∈ s.calls :=
  List.mem_of_find?_eq_some found

/-- A step in memory that touches neither calls nor files. -/
theorem SystemInv.ofMemory (invariant : SystemInv s) (db : s'.db = s.db) (answers : s'.answers = s.answers)
    (issued : s'.issued = s.issued) (calls : s'.calls = s.calls) (files : s'.files = s.files)
    (starting : s'.starting = s.starting) (live : ∀ id, s'.isLive id = true → s.isLive id = true) : SystemInv s' := by
  have updates : Updates s.db s'.db id := db ▸ .refl s.db
  constructor
  case db => rw [db, answers]; exact invariant.db
  case rows => exact invariant.rows.update updates issued
  case unique => exact invariant.unique.update updates
  case apart => rw [calls]; exact invariant.apart
  case calls =>
    intro call member
    rw [calls] at member
    have kept := kept_of_updates updates issued live (fun _ present => files ▸ present) call.ids
    exact (invariant.calls call member).frame kept fun present => starting ▸ present

theorem step_systemInv {action : Action} (invariant : SystemInv s) (taken : step settings s action = some s') :
    SystemInv s' := by
  cases action with
  | enter call =>
    simp only [step] at taken
    split at taken
    next entered =>
      split at taken
      next allowed =>
        cases taken
        exact invariant.enter entered allowed.1
      next => cases taken
    next => cases taken
  | advance id now outcome =>
    simp only [step] at taken
    split at taken
    next call found =>
      have member := call?_mem found
      exact invariant.callStep member (advance_callStep (invariant.calls call member) taken)
    next => cases taken
  | cancel id =>
    cases found : s.call? id with
    | some call => exact invariant.callStep (call?_mem found) (cancel_callStep .notApplied found taken)
    | none =>
      simp only [step, found] at taken
      cases taken
  | setRunning id =>
    cases taken
    exact invariant.update (setRunning_updates s.db id).choose_spec
  | stop id =>
    cases taken
    exact invariant.update (stopRequested_updates s.db id).choose_spec
  | fail id code blocks =>
    cases taken
    exact invariant.update (fail_updates s.db id code blocks).choose_spec
  | finishStopped id =>
    cases taken
    exact invariant.update (finishStopped_updates s.db id).choose_spec
  | prepareTemplates id state parsed =>
    simp only [step] at taken
    split at taken <;> cases taken
    exact invariant.ofMemory rfl rfl rfl rfl rfl rfl fun _ live => live
  | commitSuccess id document ids =>
    simp only [step] at taken
    split at taken
    next fresh =>
      split at taken <;> cases taken
      next committed => exact invariant.commit fresh (commitSuccessOnce_committed invariant.db committed)
      next => exact invariant
      next => exact invariant
    next => cases taken
  | taskDone id =>
    simp only [step] at taken
    split at taken <;> cases taken
    refine invariant.ofMemory rfl rfl rfl rfl rfl rfl ?_
    simp only [isLive_iff]
    exact fun other live => live.imp_right List.mem_of_mem_filter
  | restart =>
    cases taken
    exact invariant.restart

theorem reachable_systemInv {allowed : System → Action → Prop}
    (reachable : (machine settings).ReachableVia allowed s) : SystemInv s := by
  refine Machine.invariant SystemInv ?_ ?_ reachable
  · rintro _ rfl
    exact systemInv_empty
  · exact fun _ _ _ invariant _ taken => step_systemInv invariant taken

/-! ## What a step does to the tables -/

/-- Every step either updates rows one by one, commits an answer, or inserts the rows of a call. -/
inductive TableStep (settings : Settings) (s : System) (action : Action) (s' : System) : Prop where
  | update {change : Generation → Generation} : Updates s.db s'.db change → s'.answers = s.answers →
      TableStep settings s action s'
  | commit {id : Id} {document : ProtocolDocument} {ids : AnswerIds} {answer : Option Answer} :
      action = .commitSuccess id document ids → s.areFresh ids.toList = true →
      Committed settings s.db id document (s.templatesOf id) ids s'.db answer →
      s'.answers = s.answers ++ answer.toList → TableStep settings s action s'
  | insert {id now createdAt : Nat} {call : Call} {plan : Plan} {orphans : List (Id × Status)} :
      action = .advance id now .applied → s.call? id = some call → call.phase = .measured plan orphans →
      submissionTransaction s.db call.requesterId call.clientRequestId call.ids plan orphans createdAt = some s'.db →
      s'.answers = s.answers → TableStep settings s action s'

theorem step_tableStep {action : Action} (invariant : SystemInv s) (taken : step settings s action = some s') :
    TableStep settings s action s' := by
  cases action with
  | enter call =>
    simp only [step] at taken
    split at taken
    next => split at taken <;> cases taken; exact .update (.refl s.db) rfl
    next => cases taken
  | advance id now outcome =>
    simp only [step] at taken
    split at taken
    next call found =>
      cases advance_callStep (invariant.calls call (call?_mem found)) taken with
      | commit phase applied committed =>
        subst applied
        exact .insert rfl found phase committed (by simp [System.setPhase])
      | conflict => exact .update (by simpa [System.setPhase] using .refl s.db) (by simp [System.setPhase])
      | move | leave | schedule | close => exact .update (.refl s.db) rfl
    next => cases taken
  | cancel id =>
    simp only [step] at taken
    split at taken
    next => split at taken <;> cases taken <;> exact .update (.refl s.db) rfl
    next => cases taken
  | setRunning id =>
    cases taken
    exact .update (setRunning_updates s.db id).choose_spec rfl
  | stop id =>
    cases taken
    exact .update (stopRequested_updates s.db id).choose_spec rfl
  | fail id code blocks =>
    cases taken
    exact .update (fail_updates s.db id code blocks).choose_spec rfl
  | finishStopped id =>
    cases taken
    exact .update (finishStopped_updates s.db id).choose_spec rfl
  | prepareTemplates id state parsed =>
    simp only [step] at taken
    split at taken <;> cases taken
    exact .update (.refl s.db) rfl
  | commitSuccess id document ids =>
    simp only [step] at taken
    split at taken
    next fresh =>
      split at taken <;> cases taken
      next committed => exact .commit rfl fresh (commitSuccessOnce_committed invariant.db committed) rfl
      next => exact .update (.refl s.db) rfl
      next => exact .update (.refl s.db) rfl
    next => cases taken
  | taskDone id =>
    simp only [step] at taken
    split at taken <;> cases taken
    exact .update (.refl s.db) rfl
  | restart =>
    cases taken
    exact .update (reconcileOrphans_updates s.db fun row member answered =>
      ((invariant.db.results row member).mp answered).2) rfl

end

end Oveo.Lifecycle
