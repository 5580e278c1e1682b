import Oveo.Lifecycle.System
import Oveo.Lifecycle.Tables
import Mathlib.Data.List.Pairwise

/-! # The invariant of the whole system

`SystemInv` adds to the invariant of the tables what each call knows and owns.  A call that has
not finished keeps its generation in `_starting`; the rows a call inserts all appear with its
generation row; and an orphan a call is about to finalize is never a live one. -/

namespace Oveo.Lifecycle

open Oveo.Lib Oveo.Docx Oveo.Protocol Oveo.Store Oveo.Work

/-! ## Ids of rows -/

def generationIds (db : Db) : List Id := db.generations.map Generation.id

def threadIds (db : Db) : List Id := db.threads.map Thread.id

def messageIds (db : Db) : List Id := db.messages.map Message.id

def attachmentIds (db : Db) : List Id := db.attachments.map Attachment.id

def itemIds (db : Db) : List Id := db.workItems.map WorkItem.id

def versionIds (db : Db) : List Id := db.workVersions.map WorkVersion.id

/-- Every id of a row came from `new_id()`. -/
structure RowsIssued (s : System) : Prop where
  generations : ∀ id ∈ generationIds s.db, id ∈ s.issued
  threads : ∀ id ∈ threadIds s.db, id ∈ s.issued
  messages : ∀ id ∈ messageIds s.db, id ∈ s.issued
  attachments : ∀ id ∈ attachmentIds s.db, id ∈ s.issued
  items : ∀ id ∈ itemIds s.db, id ∈ s.issued
  versions : ∀ id ∈ versionIds s.db, id ∈ s.issued

/-- The primary keys that `DbInvariant` does not already hold. -/
structure RowsUnique (db : Db) : Prop where
  attachments : (attachmentIds db).Nodup
  items : (itemIds db).Nodup
  versions : (versionIds db).Nodup

/-! ## What a call knows and owns -/

def Call.hasKey (call : Call) (row : Generation) : Prop :=
  row.requesterId = call.requesterId ∧ row.clientRequestId = call.clientRequestId

/-- The phases in which a call may have committed its rows. -/
def Phase.mayHaveRows (ids : SubmissionIds) : Phase → Bool
  | .committed | .scheduled | .raised .interrupted => true
  | .returned generationId => generationId == ids.generationId
  | _ => false

def OwnsNewThread (ids : SubmissionIds) (plan : Plan) : Prop :=
  ∀ thread ∈ plan.newThread, thread.id = ids.threadId

/-- What the phase of a call remembers about the tables stays true. -/
def PhaseInv (s : System) (call : Call) : Phase → Prop
  | .entered | .absent | .originalRead _ | .latestRead _ | .conflicted | .raised _ => True
  | .validated plan => OwnsNewThread call.ids plan
  | .orphansRead plan rows => OwnsNewThread call.ids plan ∧ ∀ row ∈ rows, row.1 ∈ generationIds s.db
  | .orphansChecked plan orphans | .measured plan orphans =>
    OwnsNewThread call.ids plan ∧ ∀ row ∈ orphans, row.1 ∈ generationIds s.db ∧ s.isLive row.1 = false
  | .committed | .scheduled =>
    ∃ row ∈ s.db.generations, row.id = call.ids.generationId ∧ call.hasKey row
  | .returned generationId => ∃ row ∈ s.db.generations, row.id = generationId ∧ call.hasKey row

structure CallInv (s : System) (call : Call) : Prop where
  issued : ∀ id ∈ call.ids.toList, id ∈ s.issued
  distinct : call.ids.toList.Nodup
  starting : call.phase.isFinished = false → call.ids.generationId ∈ s.starting
  phase : PhaseInv s call call.phase
  noRows : call.phase.mayHaveRows call.ids = false → call.ids.generationId ∉ generationIds s.db
  ownKey : ∀ row ∈ s.db.generations, row.id = call.ids.generationId → call.hasKey row
  allOrNothing : call.ids.generationId ∉ generationIds s.db → call.ids.threadId ∉ threadIds s.db ∧
    call.ids.messageId ∉ messageIds s.db ∧ call.ids.attachmentId ∉ attachmentIds s.db
  file : call.phase.isFinished = true → call.ids.attachmentId ∈ s.files →
    call.ids.generationId ∈ generationIds s.db

structure SystemInv (s : System) : Prop where
  db : DbInvariant s.db s.answers
  rows : RowsIssued s
  unique : RowsUnique s.db
  apart : s.calls.Pairwise fun first second => first.ids.toList.Disjoint second.ids.toList
  calls : ∀ call ∈ s.calls, CallInv s call

theorem systemInv_empty : SystemInv System.empty := by
  constructor
  case db => exact dbInvariant_empty
  case rows =>
    constructor <;>
      simp [System.empty, Db.empty, generationIds, threadIds, messageIds, attachmentIds, itemIds, versionIds]
  case unique => constructor <;> simp [System.empty, Db.empty, attachmentIds, itemIds, versionIds]
  all_goals simp [System.empty]

/-! ## The frame -/

/-- What a step that is not its own leaves to a call. -/
structure Kept (s s' : System) (ids : SubmissionIds) : Prop where
  issued : ∀ id ∈ s.issued, id ∈ s'.issued
  live : ∀ id ∈ generationIds s.db, s'.isLive id = true → s.isLive id = true
  rows : ∀ row ∈ s.db.generations, ∃ row' ∈ s'.db.generations, SameRow row row'
  own : ∀ row' ∈ s'.db.generations, row'.id = ids.generationId → ∃ row ∈ s.db.generations, SameRow row row'
  thread : ids.threadId ∈ threadIds s'.db → ids.threadId ∈ threadIds s.db
  message : ids.messageId ∈ messageIds s'.db → ids.messageId ∈ messageIds s.db
  attachment : ids.attachmentId ∈ attachmentIds s'.db → ids.attachmentId ∈ attachmentIds s.db
  files : ids.attachmentId ∈ s'.files → ids.attachmentId ∈ s.files

section

variable {s s' : System} {call : Call}

theorem Kept.generationIds {ids : SubmissionIds} (kept : Kept s s' ids) :
    ∀ id ∈ generationIds s.db, id ∈ generationIds s'.db := by
  intro id member
  obtain ⟨row, rowMember, rfl⟩ := List.mem_map.mp member
  obtain ⟨row', rowMember', same⟩ := kept.rows row rowMember
  exact List.mem_map.mpr ⟨row', rowMember', same.id⟩

theorem Kept.generation {ids : SubmissionIds} (kept : Kept s s' ids)
    (present : ids.generationId ∈ Lifecycle.generationIds s'.db) : ids.generationId ∈ Lifecycle.generationIds s.db := by
  obtain ⟨row', member', sameId⟩ := List.mem_map.mp present
  obtain ⟨row, member, same⟩ := kept.own row' member' sameId
  exact List.mem_map.mpr ⟨row, member, same.id.symm.trans sameId⟩

theorem PhaseInv.frame {phase : Phase} (kept : Kept s s' call.ids) (phaseInv : PhaseInv s call phase) :
    PhaseInv s' call phase := by
  have keyed : ∀ id, (∃ row ∈ s.db.generations, row.id = id ∧ call.hasKey row) →
      ∃ row ∈ s'.db.generations, row.id = id ∧ call.hasKey row := by
    rintro id ⟨row, member, rfl, requester, client⟩
    obtain ⟨row', member', same⟩ := kept.rows row member
    exact ⟨row', member', same.id, same.requesterId.trans requester, same.clientRequestId.trans client⟩
  have notLive : ∀ id, id ∈ Lifecycle.generationIds s.db ∧ s.isLive id = false →
      id ∈ Lifecycle.generationIds s'.db ∧ s'.isLive id = false := by
    rintro id ⟨member, notLive⟩
    refine ⟨kept.generationIds id member, ?_⟩
    cases live : s'.isLive id with
    | false => rfl
    | true => rw [kept.live id member live] at notLive; cases notLive
  cases phase with
  | entered | absent | originalRead _ | latestRead _ | conflicted | raised _ => trivial
  | validated plan => exact phaseInv
  | orphansRead plan rows => exact ⟨phaseInv.1, fun row member => kept.generationIds _ (phaseInv.2 row member)⟩
  | orphansChecked plan orphans | measured plan orphans =>
    exact ⟨phaseInv.1, fun row member => notLive _ (phaseInv.2 row member)⟩
  | committed | scheduled | returned _ => exact keyed _ phaseInv

/-- A call that moves to another phase, while its rows stay as they are. -/
theorem CallInv.become (invariant : CallInv s call) (kept : Kept s s' call.ids) (phase : Phase)
    (starting : phase.isFinished = false → call.ids.generationId ∈ s'.starting)
    (phaseInv : PhaseInv s' call phase)
    (noRows : phase.mayHaveRows call.ids = false → call.ids.generationId ∉ generationIds s.db)
    (file : phase.isFinished = true → call.ids.attachmentId ∈ s'.files →
      call.ids.generationId ∈ generationIds s'.db) :
    CallInv s' { call with phase } where
  issued id member := kept.issued id (invariant.issued id member)
  distinct := invariant.distinct
  starting := starting
  phase := by cases phase <;> exact phaseInv
  noRows := fun none present => noRows none (kept.generation present)
  ownKey := fun row' member' sameId => by
    obtain ⟨row, member, same⟩ := kept.own row' member' sameId
    obtain ⟨requester, client⟩ := invariant.ownKey row member (same.id.symm.trans sameId)
    exact ⟨same.requesterId.trans requester, same.clientRequestId.trans client⟩
  allOrNothing := fun absent => by
    obtain ⟨thread, message, attachment⟩ :=
      invariant.allOrNothing fun present => absent (kept.generationIds _ present)
    exact ⟨fun present => thread (kept.thread present), fun present => message (kept.message present),
      fun present => attachment (kept.attachment present)⟩
  file := file

theorem CallInv.frame (invariant : CallInv s call) (kept : Kept s s' call.ids)
    (starting : call.ids.generationId ∈ s.starting → call.ids.generationId ∈ s'.starting) : CallInv s' call :=
  invariant.become kept call.phase (fun unfinished => starting (invariant.starting unfinished))
    (PhaseInv.frame kept invariant.phase) invariant.noRows
    fun finished present => kept.generationIds _ (invariant.file finished (kept.files present))

end

/-! ## Steps that belong to no call -/

/-- Which ids a commit leaves and adds. -/
structure CommittedIds (db db' : Db) (ids : AnswerIds) : Prop where
  generations : generationIds db' = generationIds db
  threads : threadIds db' = threadIds db
  messages : ∀ id ∈ messageIds db', id ∈ messageIds db ∨ id = ids.messageId
  attachments : attachmentIds db' = attachmentIds db
  items : itemIds db' = itemIds db ∨ itemIds db' = itemIds db ++ [ids.work.workItemId]
  versions : versionIds db' = versionIds db ∨ versionIds db' = versionIds db ++ [ids.work.versionId]
  rows : ∀ row ∈ db.generations, ∃ row' ∈ db'.generations, SameRow row row'
  own : ∀ row' ∈ db'.generations, ∃ row ∈ db.generations, SameRow row row'

theorem Committed.ids {settings : Settings} {db db' : Db} {id : Id} {document : ProtocolDocument}
    {templates : Templates} {ids : AnswerIds} {answer : Option Answer}
    (committed : Committed settings db id document templates ids db' answer) : CommittedIds db db' ids := by
  cases committed with
  | @chat row claimed thread answered applied _ _ _ _ _ _ messages _ items versions operation generations messages'
      threads attachments items' versions' =>
    constructor
    case generations =>
      rw [generationIds, generations, List.map_map]
      exact List.map_congr_left fun row _ => completeRow_id _ row
    case threads => rw [threadIds, threads, threadIds]
    case messages =>
      intro id member
      rw [messageIds, messages', messages, List.map_append, List.mem_append] at member
      simpa [answerMessage, messageIds] using member
    case attachments => rw [attachmentIds, attachments, attachmentIds]
    case items =>
      have added := operation.itemIds
      rwa [← items', items] at added
    case versions =>
      have added := operation.versionIds
      rw [← versions', versions] at added
      cases isNone : document.state.isNone with
      | true => exact .inl (by simpa [isNone, versionIds] using added)
      | false => exact .inr (by simpa [isNone, versionIds] using added)
    case rows =>
      intro row member
      exact ⟨_, generations ▸ List.mem_map_of_mem member, completeRow_same _ row⟩
    case own =>
      intro row' member'
      rw [generations] at member'
      obtain ⟨row, member, rfl⟩ := List.mem_map.mp member'
      exact ⟨row, member, completeRow_same _ row⟩
  | handoff =>
    refine ⟨?_, rfl, fun id member => .inl member, rfl, .inl rfl, .inl rfl, fun row member => ?_,
      fun row' member' => ?_⟩
    · rw [generationIds, List.map_map]
      exact List.map_congr_left fun row _ => completeRow_id _ row
    · exact ⟨_, List.mem_map_of_mem member, completeRow_same _ row⟩
    · obtain ⟨row, member, rfl⟩ := List.mem_map.mp member'
      exact ⟨row, member, completeRow_same _ row⟩

/-- The rows of the tables other than generations, and their ids, stay. -/
theorem kept_of_updates {s s' : System} {change} (updates : Updates s.db s'.db change)
    (issued : s'.issued = s.issued) (live : ∀ id, s'.isLive id = true → s.isLive id = true)
    (files : ∀ id ∈ s'.files, id ∈ s.files) (ids : SubmissionIds) : Kept s s' ids where
  issued _ member := issued ▸ member
  live id _ := live id
  rows row member :=
    ⟨change row, updates.generations ▸ List.mem_map_of_mem member, (updates.evolves row member).same⟩
  own row' member' _ := by
    rw [updates.generations] at member'
    obtain ⟨row, member, rfl⟩ := List.mem_map.mp member'
    exact ⟨row, member, (updates.evolves row member).same⟩
  thread present := by rwa [threadIds, updates.tables] at present
  message present := by rwa [messageIds, updates.tables] at present
  attachment present := by rwa [attachmentIds, updates.tables] at present
  files present := files _ present

theorem RowsIssued.update {s s' : System} {change} (rows : RowsIssued s) (updates : Updates s.db s'.db change)
    (issued : s'.issued = s.issued) : RowsIssued s' where
  generations id member := issued ▸ rows.generations id (by rwa [generationIds, updates.ids] at member)
  threads id member := issued ▸ rows.threads id (by rwa [threadIds, updates.tables] at member)
  messages id member := issued ▸ rows.messages id (by rwa [messageIds, updates.tables] at member)
  attachments id member := issued ▸ rows.attachments id (by rwa [attachmentIds, updates.tables] at member)
  items id member := issued ▸ rows.items id (by rwa [itemIds, updates.tables] at member)
  versions id member := issued ▸ rows.versions id (by rwa [versionIds, updates.tables] at member)

theorem RowsUnique.update {db db' : Db} {change} (unique : RowsUnique db) (updates : Updates db db' change) :
    RowsUnique db' := by
  rw [updates.tables]
  exact ⟨unique.attachments, unique.items, unique.versions⟩

theorem SystemInv.update {s : System} (invariant : SystemInv s) {db' : Db} {change}
    (updates : Updates s.db db' change) : SystemInv { s with db := db' } := by
  have updates' : Updates s.db ({ s with db := db' } : System).db change := updates
  constructor
  case db => exact invariant.db.update updates
  case rows => exact invariant.rows.update updates' rfl
  case unique => exact invariant.unique.update updates
  case apart => exact invariant.apart
  case calls =>
    intro call member
    have kept := kept_of_updates updates' rfl (fun _ live => live) (fun _ present => present) call.ids
    exact (invariant.calls call member).frame kept id

/-- An id that was never issued can be added to those of a table. -/
theorem nodup_of_added {before after issued : List Id} {id : Id} (nodup : before.Nodup)
    (old : ∀ other ∈ before, other ∈ issued) (fresh : id ∉ issued) (added : after = before ∨ after = before ++ [id]) :
    after.Nodup := by
  rcases added with rfl | rfl
  · exact nodup
  · refine List.nodup_append.mpr ⟨nodup, List.nodup_singleton _, ?_⟩
    rintro other before new newMember rfl
    exact fresh (List.mem_singleton.mp newMember ▸ old _ before)

theorem issued_of_added {before after issued : List Id} {id : Id} (old : ∀ other ∈ before, other ∈ issued)
    (added : after = before ∨ after = before ++ [id]) {other : Id} (member : other ∈ after) :
    other ∈ issued ∨ other = id := by
  rcases added with rfl | rfl
  · exact .inl (old other member)
  · exact (List.mem_append.mp member).imp (old other) List.mem_singleton.mp

/-- A commit adds its rows under newly drawn ids, which no call owns. -/
theorem SystemInv.commit {s : System} {settings : Settings} {id : Id} {document : ProtocolDocument}
    {templates : Templates} {ids : AnswerIds} {db' : Db} {answer : Option Answer} (invariant : SystemInv s)
    (fresh : s.areFresh ids.toList = true)
    (committed : Committed settings s.db id document templates ids db' answer) :
    SystemInv { s with db := db', issued := ids.toList ++ s.issued, answers := s.answers ++ answer.toList } := by
  simp only [System.areFresh, Bool.and_eq_true, List.all_eq_true, Bool.not_eq_true', List.contains_eq_mem,
    decide_eq_false_iff_not] at fresh
  obtain ⟨-, unused⟩ := fresh
  have freshMessage : ids.messageId ∉ s.issued := unused _ (by simp [AnswerIds.toList])
  have freshItem : ids.work.workItemId ∉ s.issued := unused _ (by simp [AnswerIds.toList])
  have freshVersion : ids.work.versionId ∉ s.issued := unused _ (by simp [AnswerIds.toList])
  have tables := committed.ids
  constructor
  case db => exact invariant.db.commit committed fun present => freshMessage (invariant.rows.messages _ present)
  case rows =>
    have old : ∀ id ∈ s.issued, id ∈ ids.toList ++ s.issued := fun id member => List.mem_append_right _ member
    constructor
    case generations =>
      intro id member
      rw [tables.generations] at member
      exact old id (invariant.rows.generations id member)
    case threads =>
      intro id member
      rw [tables.threads] at member
      exact old id (invariant.rows.threads id member)
    case messages =>
      intro id member
      rcases tables.messages id member with before | rfl
      · exact old id (invariant.rows.messages id before)
      · exact List.mem_append_left _ (by simp [AnswerIds.toList])
    case attachments =>
      intro id member
      rw [tables.attachments] at member
      exact old id (invariant.rows.attachments id member)
    case items =>
      intro id member
      rcases issued_of_added invariant.rows.items tables.items member with before | rfl
      · exact old id before
      · exact List.mem_append_left _ (by simp [AnswerIds.toList])
    case versions =>
      intro id member
      rcases issued_of_added invariant.rows.versions tables.versions member with before | rfl
      · exact old id before
      · exact List.mem_append_left _ (by simp [AnswerIds.toList])
  case unique =>
    exact ⟨tables.attachments ▸ invariant.unique.attachments,
      nodup_of_added invariant.unique.items invariant.rows.items freshItem tables.items,
      nodup_of_added invariant.unique.versions invariant.rows.versions freshVersion tables.versions⟩
  case apart => exact invariant.apart
  case calls =>
    intro call member
    have callInv := invariant.calls call member
    refine callInv.frame ?_ fun present => present
    constructor
    case issued => exact fun id member => List.mem_append_right _ member
    case live => exact fun _ _ live => live
    case rows => exact tables.rows
    case own => exact fun row' member' _ => tables.own row' member'
    case thread => exact fun present => tables.threads ▸ present
    case message =>
      intro present
      rcases tables.messages _ present with before | same
      · exact before
      · exact absurd (callInv.issued _ (by simp [SubmissionIds.toList])) (same ▸ freshMessage)
    case attachment => exact fun present => tables.attachments ▸ present
    case files => exact fun present => present

theorem isLive_iff (s : System) (id : Id) : s.isLive id = true ↔ id ∈ s.starting ∨ id ∈ s.tasks := by
  simp [System.isLive]

/-- A call enters with ids nothing else has. -/
theorem SystemInv.enter {s : System} {call : Call} (invariant : SystemInv s) (entered : call.phase = .entered)
    (fresh : s.areFresh call.ids.toList = true) :
    SystemInv { s with
      starting := call.ids.generationId :: s.starting
      calls := call :: s.calls
      issued := call.ids.toList ++ s.issued } := by
  simp only [System.areFresh, Bool.and_eq_true, List.all_eq_true, Bool.not_eq_true', List.contains_eq_mem,
    decide_eq_false_iff_not, decide_eq_true_eq] at fresh
  obtain ⟨distinct, unused⟩ := fresh
  have old : ∀ id ∈ s.issued, id ∈ call.ids.toList ++ s.issued := fun id member => List.mem_append_right _ member
  constructor
  case db => exact invariant.db
  case rows =>
    exact ⟨fun id member => old id (invariant.rows.generations id member),
      fun id member => old id (invariant.rows.threads id member),
      fun id member => old id (invariant.rows.messages id member),
      fun id member => old id (invariant.rows.attachments id member),
      fun id member => old id (invariant.rows.items id member),
      fun id member => old id (invariant.rows.versions id member)⟩
  case unique => exact invariant.unique
  case apart =>
    refine List.pairwise_cons.mpr ⟨fun other member id own shared => ?_, invariant.apart⟩
    exact unused id own ((invariant.calls other member).issued id shared)
  case calls =>
    intro other member
    rcases List.mem_cons.mp member with rfl | member
    · have unusedId : ∀ id ∈ other.ids.toList, id ∉ s.issued := unused
      simp only [SubmissionIds.toList, List.mem_cons, List.not_mem_nil, or_false, forall_eq_or_imp, forall_eq] at unusedId
      obtain ⟨generation, thread, message, attachment⟩ := unusedId
      constructor
      case issued => exact fun id member => List.mem_append_left _ member
      case distinct => exact distinct
      case starting => exact fun _ => List.mem_cons_self
      case phase => rw [entered]; trivial
      case noRows => exact fun _ present => generation (invariant.rows.generations _ present)
      case ownKey =>
        intro row member sameId
        exact absurd (invariant.rows.generations _ (List.mem_map_of_mem member)) (sameId ▸ generation)
      case allOrNothing =>
        exact fun _ => ⟨fun present => thread (invariant.rows.threads _ present),
          fun present => message (invariant.rows.messages _ present),
          fun present => attachment (invariant.rows.attachments _ present)⟩
      case file =>
        intro finished
        rw [entered] at finished
        cases finished
    · refine (invariant.calls other member).frame ?_ fun present => List.mem_cons_of_mem _ present
      constructor
      case issued => exact old
      case live =>
        -- The new generation has no row yet.
        intro id present live
        rw [isLive_iff] at live ⊢
        rcases live with starting | task
        · rcases List.mem_cons.mp starting with rfl | starting
          · exact absurd (invariant.rows.generations _ present) (unused _ (by simp [SubmissionIds.toList]))
          · exact .inl starting
        · exact .inr task
      case rows => exact fun row member => ⟨row, member, .refl row⟩
      case own => exact fun row member _ => ⟨row, member, .refl row⟩
      all_goals exact fun present => present

end Oveo.Lifecycle
