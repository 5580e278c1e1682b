import Oveo.Lifecycle.Safety
import Oveo.Work.History

/-! # Work history along every run

The responses of a run apply their state operations inside the commit, with templates read
before it.  `HistoryInv` adds to the invariant of the work tables that a prepared template is
the stored block map of an attachment, which no later step changes. -/

namespace Oveo.Lifecycle

open Oveo.Lib Oveo.Docx Oveo.Protocol Oveo.Store Oveo.Work

/-! ## Templates -/

theorem attachmentOf?_mem {db : Db} {messageId : Id} {attachment : Attachment}
    (found : db.attachmentOf? messageId = some attachment) : attachment ∈ db.attachments :=
  List.mem_of_find?_eq_some found

theorem ownSourceDocx_mem {db : Db} {generation : Generation} {attachment : Attachment}
    (found : ownSourceDocx db generation = some attachment) : attachment ∈ db.attachments := by
  unfold ownSourceDocx at found
  split at found
  next => cases found
  next =>
    split at found
    next held =>
      split at found <;> cases found
      exact attachmentOf?_mem held
    next => cases found

theorem latestSourceDocx_mem {db : Db} {threadId : Id} {attachment : Attachment}
    (found : latestSourceDocx db threadId = some attachment) : attachment ∈ db.attachments := by
  simp only [latestSourceDocx, Option.map_eq_some_iff] at found
  obtain ⟨⟨ordinal, candidate⟩, latest, rfl⟩ := found
  obtain ⟨row, member, isCandidate⟩ := List.mem_filterMap.mp (latestBy_mem latest)
  split at isCandidate
  next =>
    split at isCandidate <;> cases isCandidate
    exact member
  next => cases isCandidate

theorem templateAttachment_mem {db : Db} {generation : Generation} {state : StateOperation} {attachment : Attachment}
    (found : templateAttachment db generation state = .ok (some attachment)) : attachment ∈ db.attachments := by
  unfold templateAttachment at found
  split at found
  next => cases found
  next threadId _ =>
    split at found
    next => cases found
    next establish =>
      split at found
      next own held =>
        cases found
        exact ownSourceDocx_mem held
      next =>
        split at found
        next => exact latestSourceDocx_mem (Except.ok.inj found)
        next => cases found
    next =>
      split at found
      next => cases found
      next =>
        split at found
        next => cases found
        next held =>
          cases found
          exact List.mem_of_find?_eq_some held

theorem loadDocxTemplate_ok {parsed : Except ProtocolCode (List DocxBlock)} {attachment : Attachment}
    {extracted : ExtractedDocx} (loaded : loadDocxTemplate parsed attachment = .ok extracted) :
    docxBlocksFromStorage attachment.documentBlocks = .ok extracted.blocks := by
  simp only [loadDocxTemplate, ok_bind_iff] at loaded
  obtain ⟨blocks, -, loaded⟩ := loaded
  split at loaded
  next => cases loaded
  next =>
    split at loaded
    next matching =>
      cases loaded
      exact requireMatchingBlocks_ok matching
    next => split at loaded <;> cases loaded

theorem prepareDocxTemplates_inv {parsed : Except ProtocolCode (List DocxBlock)} {db : Db} {generationId : Id}
    {state : StateOperation} {templates : Templates}
    (prepared : prepareDocxTemplates parsed db generationId state = .ok templates) : TemplatesInv db templates := by
  unfold prepareDocxTemplates at prepared
  intro attachmentId extracted held
  split at prepared
  next =>
    cases prepared
    cases held
  next generation _ =>
    split at prepared
    next =>
      cases prepared
      cases held
    next =>
      simp only [ok_bind_iff] at prepared
      obtain ⟨found, isFound, prepared⟩ := prepared
      split at prepared
      next =>
        cases prepared
        cases held
      next attachment =>
        simp only [ok_bind_iff, pure_eq_ok, Except.ok.injEq] at prepared
        obtain ⟨loaded, isLoaded, rfl⟩ := prepared
        dsimp only at held
        split at held
        next sameId =>
          cases held
          exact ⟨attachment, templateAttachment_mem isFound, sameId.symm, loadDocxTemplate_ok isLoaded⟩
        next => cases held

/-! ## Steps -/

structure HistoryInv (settings : Settings) (s : System) : Prop where
  work : WorkInv settings s.db
  prepared : ∀ entry ∈ s.prepared, TemplatesInv s.db entry.2

section

variable {settings : Settings} {s s' : System}

theorem TemplatesInv.mono {db db' : Db} {templates : Templates} (invariant : TemplatesInv db templates)
    (attachments : ∀ attachment ∈ db.attachments, attachment ∈ db'.attachments) : TemplatesInv db' templates := by
  intro attachmentId extracted held
  obtain ⟨attachment, member, rest⟩ := invariant attachmentId extracted held
  exact ⟨attachment, attachments attachment member, rest⟩

theorem templatesOf_inv (invariant : HistoryInv settings s) (generationId : Id) :
    TemplatesInv s.db (s.templatesOf generationId) := by
  unfold System.templatesOf
  split
  next found => exact invariant.prepared _ (List.mem_of_find?_eq_some found)
  next => exact fun attachmentId extracted held => nomatch held

/-- Attachments and work versions are only ever added. -/
structure Grows (db db' : Db) : Prop where
  attachments : ∀ attachment ∈ db.attachments, attachment ∈ db'.attachments
  versions : db.workVersions <+: db'.workVersions

theorem Grows.refl (db : Db) : Grows db db := ⟨fun _ member => member, List.prefix_refl _⟩

theorem Grows.trans {first second third : Db} (left : Grows first second) (right : Grows second third) :
    Grows first third :=
  ⟨fun attachment member => right.attachments attachment (left.attachments attachment member),
    left.versions.trans right.versions⟩

theorem Applied.grows {db db' : Db} {generation : Generation} {thread : Thread} {document : ProtocolDocument}
    {templates : Templates} {ids : FreshIds}
    (applied : Applied settings db generation thread document templates ids db') : Grows db db' := by
  have same := applied.conversation.attachments
  refine ⟨fun attachment member => same ▸ member, ?_⟩
  cases applied with
  | none => exact List.prefix_refl _
  | establish => exact List.prefix_append _ _
  | base => exact List.prefix_append _ _

theorem Committed.grows {db db' : Db} {id : Id} {document : ProtocolDocument} {templates : Templates}
    {ids : AnswerIds} {answer : Option Answer}
    (committed : Committed settings db id document templates ids db' answer) : Grows db db' := by
  cases committed with
  | chat _ _ _ _ _ _ _ _ versions operation _ _ _ attachments _ versions' =>
    have grown := (Applied.grows operation).versions
    rw [versions, ← versions'] at grown
    exact ⟨fun _ member => attachments ▸ member, grown⟩
  | handoff => exact ⟨fun _ member => member, List.prefix_refl _⟩

theorem step_grows {action : Action} (system : SystemInv s) (taken : step settings s action = some s') :
    Grows s.db s'.db := by
  cases step_tableStep system taken with
  | update updates =>
    rw [updates.tables]
    exact ⟨fun _ member => member, List.prefix_refl _⟩
  | commit _ _ committed => exact committed.grows
  | @insert _ _ _ _ _ orphans _ _ _ committed =>
    obtain ⟨change, finalized⟩ := finalizeOrphans_updates orphans s.db
    have inserted := submissionTransaction_inserted committed
    constructor
    · intro attachment member
      rw [inserted.attachments, finalized.tables]
      exact List.mem_append_left _ member
    · rw [inserted.workVersions, finalized.tables]

theorem step_prepared {action : Action} (system : SystemInv s) (taken : step settings s action = some s') :
    ∀ entry ∈ s'.prepared, entry ∈ s.prepared ∨ TemplatesInv s.db entry.2 := by
  have ofCall : ∀ {call outcome}, CallStep s call outcome s' → s'.prepared = s.prepared := by
    intro call outcome taken
    cases taken with
    | conflict | commit =>
      simp only [System.setPhase, System.stage]
      split <;> rfl
    | move | leave | schedule | close => rfl
  have kept : s'.prepared = s.prepared → ∀ entry ∈ s'.prepared, entry ∈ s.prepared ∨ TemplatesInv s.db entry.2 :=
    fun same entry member => .inl (same ▸ member)
  cases action with
  | enter call =>
    simp only [step] at taken
    split at taken
    next => split at taken <;> cases taken; exact kept rfl
    next => cases taken
  | advance id now outcome =>
    simp only [step] at taken
    split at taken
    next call found => exact kept (ofCall (advance_callStep (system.calls call (call?_mem found)) taken))
    next => cases taken
  | cancel id =>
    cases found : s.call? id with
    | some call => exact kept (ofCall (cancel_callStep .notApplied found taken))
    | none =>
      simp only [step, found] at taken
      cases taken
  | prepareTemplates id state parsed =>
    simp only [step] at taken
    split at taken <;> cases taken
    next prepared =>
      intro entry member
      rcases List.mem_cons.mp member with rfl | old
      · exact .inr (prepareDocxTemplates_inv prepared)
      · exact .inl old
  | commitSuccess id document ids =>
    simp only [step] at taken
    split at taken
    next => split at taken <;> cases taken <;> exact kept rfl
    next => cases taken
  | taskDone id =>
    simp only [step] at taken
    split at taken <;> cases taken
    exact kept rfl
  | restart =>
    cases taken
    exact List.forall_mem_nil _
  | setRunning | stop | fail | finishStopped =>
    cases taken
    exact kept rfl

theorem Committed.work {db db' : Db} {id : Id} {document : ProtocolDocument} {templates : Templates}
    {ids : AnswerIds} {answer : Option Answer} (committed : Committed settings db id document templates ids db' answer)
    (work : WorkInv settings db) (itemIds : (db.workItems.map WorkItem.id).Nodup) (prepared : TemplatesInv db templates)
    (fresh : ids.work.workItemId ∉ db.workItems.map WorkItem.id) : WorkInv settings db' := by
  cases committed with
  | handoff => exact work.mono rfl rfl fun _ member => member
  | chat _ _ _ _ _ _ attachments items versions operation _ _ _ attachments' items' versions' =>
    have answered := work.mono items versions fun _ member => attachments ▸ member
    have applied := answered.apply (items ▸ itemIds)
      (TemplatesInv.mono prepared fun _ member => attachments ▸ member) (items ▸ fresh) operation
    refine applied.mono items' versions' fun attachment member => ?_
    rw [attachments', ← attachments]
    exact operation.conversation.attachments ▸ member

theorem step_historyInv {action : Action} (system : SystemInv s) (invariant : HistoryInv settings s)
    (taken : step settings s action = some s') : HistoryInv settings s' := by
  have grows := step_grows system taken
  refine ⟨?_, fun entry member => ?_⟩
  · have work := invariant.work
    cases step_tableStep system taken with
    | update updates => rw [updates.tables]; exact work.mono rfl rfl fun _ member => member
    | @commit id document ids answer isCommit fresh committed =>
      simp only [System.areFresh, Bool.and_eq_true, List.all_eq_true, Bool.not_eq_true', List.contains_eq_mem,
        decide_eq_false_iff_not] at fresh
      have freshItem : ids.work.workItemId ∉ s.db.workItems.map WorkItem.id := fun present =>
        fresh.2 _ (by simp [AnswerIds.toList]) (system.rows.items _ present)
      exact committed.work work system.unique.items (templatesOf_inv invariant id) freshItem
    | @insert _ _ _ _ _ orphans _ _ _ committed =>
      obtain ⟨change, finalized⟩ := finalizeOrphans_updates orphans s.db
      have inserted := submissionTransaction_inserted committed
      refine work.mono ?_ ?_ grows.attachments
      · rw [inserted.workItems, finalized.tables]
      · rw [inserted.workVersions, finalized.tables]
  · rcases step_prepared system taken entry member with old | new
    · exact TemplatesInv.mono (invariant.prepared entry old) grows.attachments
    · exact TemplatesInv.mono new grows.attachments

theorem reachable_historyInv (reachable : (machine settings).Reachable s) : HistoryInv settings s := by
  have invariants : SystemInv s ∧ HistoryInv settings s := by
    refine Machine.invariant (fun s => SystemInv s ∧ HistoryInv settings s) ?_ ?_ reachable
    · rintro _ rfl
      exact ⟨systemInv_empty, workInv_empty settings, fun entry member => nomatch member⟩
    · exact fun _ _ _ invariants _ taken =>
        ⟨step_systemInv invariants.1 taken, step_historyInv invariants.1 invariants.2 taken⟩
  exact invariants.2

theorem steps_grow (reachable : (machine settings).Reachable s) (steps : (machine settings).Steps s s') :
    Grows s.db s'.db :=
  Machine.steps_invariant (fun state => Grows s.db state.db) (Grows.refl s.db) reachable
    (fun _ _ _ reached grown taken => grown.trans (step_grows (reachable_systemInv reached) taken)) steps

/-! ## Stale operations -/

/-- The response names a base that is not the current version of the conversation's active item. -/
def isStale (db : Db) (generationId : Id) (state : StateOperation) : Prop :=
  ∃ operation, baseOperation? state = some operation ∧
    ∀ row threadId, db.generation? generationId = some row → row.threadId = some threadId →
      (latestWorkVersion? db threadId).map WorkVersion.versionNo ≠ some operation.baseVersion

theorem stale_not_committed {id : Id} {document : ProtocolDocument} {ids : AnswerIds} {db' : Db}
    {answer : Option Answer} (invariant : HistoryInv settings s) (stale : isStale s.db id document.state)
    (committed : Committed settings s.db id document (s.templatesOf id) ids db' answer) : False := by
  obtain ⟨operation, isBase, differs⟩ := stale
  cases committed with
  | handoff _ _ _ isNone =>
    rw [baseOperation?_isNone isBase] at isNone
    cases isNone
  | chat found _ _ threadEq _ _ attachments items versions applied =>
    cases applied with
    | none isNone =>
      rw [isNone] at isBase
      cases isBase
    | establish isEstablish =>
      rw [isEstablish] at isBase
      cases isBase
    | base _ active latest isBase' drafted _ =>
      obtain rfl := Option.some.inj (isBase'.symm.trans isBase)
      have prepared := TemplatesInv.mono (templatesOf_inv invariant id) fun _ member => attachments ▸ member
      obtain ⟨sameBase, -⟩ := baseDraft_ok prepared drafted
      refine differs _ _ found threadEq ?_
      rw [activeItem?, items] at active
      rw [latestVersionOf?, versionsOf, versions] at latest
      simp [latestWorkVersion?, activeItem?, active, latestVersionOf?, versionsOf, latest, sameBase]

/-! ## Main result -/

/-- The work history of every conversation in a reachable state, what later steps leave of it,
and the rejection of an operation on any other version than the current one. -/
theorem work_history (reachable : (machine settings).Reachable s) :
    WorkInv settings s.db ∧ RowsUnique s.db ∧
      (∀ s', (machine settings).Steps s s' → s.db.workVersions <+: s'.db.workVersions) ∧
      ∀ id document ids, isStale s.db id document.state →
        (∀ result, commitSuccessOnce settings s.db id document (s.templatesOf id) ids ≠ .ok (some result)) ∧
          ∀ s', step settings s (.commitSuccess id document ids) = some s' → s' = s := by
  have system := reachable_systemInv reachable
  have invariant := reachable_historyInv reachable
  have rejected : ∀ id document ids, isStale s.db id document.state →
      ∀ result, commitSuccessOnce settings s.db id document (s.templatesOf id) ids ≠ .ok (some result) := by
    rintro id document ids stale ⟨db', answer⟩ committed
    exact stale_not_committed invariant stale (commitSuccessOnce_committed system.db committed)
  refine ⟨invariant.work, system.unique, fun s' steps => (steps_grow reachable steps).versions,
    fun id document ids stale => ⟨rejected id document ids stale, fun s' taken => ?_⟩⟩
  simp only [step] at taken
  split at taken
  next =>
    split at taken
    next committed => exact absurd committed (rejected id document ids stale _)
    next => exact (Option.some.inj taken).symm
    next => exact (Option.some.inj taken).symm
  next => cases taken

end

/-- The first turn establishes a translation. -/
def establishedTurn : List Action :=
  submitted firstCall ++ [.setRunning 1,
    .commitSuccess 1
      { blocks := [⟨.deliverable, str "Bonjour"⟩]
        state := .establish { brief := [(str "language", .str (str "French"))], source := some (str "Hello"), docxBlocks := none } }
      { messageId := 5, work := { workItemId := 6, versionId := 7 } }]

theorem work_history_established :
    ∃ s, (machine {}).run System.empty establishedTurn = some s ∧ s.db.workVersions.map WorkVersion.versionNo = [1] ∧
      WorkInv {} s.db := by
  obtain ⟨s, ran⟩ := Option.isSome_iff_exists.mp
    (by decide : ((machine {}).run System.empty establishedTurn).isSome = true)
  refine ⟨s, ran, ?_, (work_history (Machine.reachable_of_run (.init rfl) ran)).1⟩
  have numbers : ((machine {}).run System.empty establishedTurn).map
      (fun s => s.db.workVersions.map WorkVersion.versionNo) = some [1] := by decide
  rw [ran] at numbers
  exact Option.some.inj numbers

end Oveo.Lifecycle
