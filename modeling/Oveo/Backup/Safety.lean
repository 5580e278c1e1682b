import Oveo.Backup.Consistency

/-! # A backup beside the running application is complete

The invariant of the whole site: storage names and upload names are unique, the lock is held once,
every pending upload has its file and no row, no deletion unlinks a file that a row still names, and
a backup that began with every file intact keeps what it relies on. -/

namespace Oveo.Backup

open Oveo.Lib Oveo.Store Oveo.Attachments

section

variable {sha256 : Bytes → Bytes} {s s' : Site} {action : SiteAction} {storage storage' : Storage} {upload upload' : Upload}
  {deletion deletion' : Deletion} {name : Id}

/-! ## The invariant -/

/-- What a deletion knows of the names it has read. -/
structure NameInv (storage : Storage) (uploads : List Upload) (deletion : Deletion) (name : Id) : Prop where
  notPending : ∀ upload ∈ uploads, isPending upload.stage = true → upload.name ≠ name
  ownRows : ∀ row ∈ storage.rows, row.name = name → row.threadId = deletion.threadId
  gone : ∀ names, deletion.stage = .unlinking names → storage.rowsOf name = []

structure SiteInv (sha256 : Bytes → Bytes) (s : Site) : Prop where
  names : (s.uploads.map Upload.name).Nodup
  rowNames : (s.storage.rows.map Row.name).Nodup
  lock : total uploadLock s.uploads + total Deletion.lock s.deletions + (s.backup.map ArchiveRun.lock).getD 0 =
    lockCount s.storage
  pending : ∀ upload ∈ s.uploads, isPending upload.stage = true → upload.Holds sha256 s.storage
  deletions : ∀ deletion ∈ s.deletions, ∀ name ∈ deletion.stage.names, NameInv s.storage s.uploads deletion name
  backup : ∀ run ∈ s.backup, run.intactBefore = true → rowsIntact sha256 s.storage = true ∧ RunInv sha256 s.storage run

theorem siteInv_init (start : (site sha256).init s) : SiteInv sha256 s := by
  obtain ⟨noUploads, noDeletions, noBackup, unlocked, rowNames⟩ := start
  constructor
  case rowNames => exact rowNames
  all_goals simp [noUploads, noDeletions, noBackup, lockCount, unlocked]

/-! ## A step of an upload -/

theorem pending_of_next {stage next : UploadStage} {event : UploadEvent} {effect : Effect} (clean : event.IsClean stage)
    (taken : stage.step event = some (next, effect)) (pending : isPending next = true) : isPending stage = true := by
  unfold UploadStage.step at taken
  split at taken <;> cases taken <;> first | rfl | exact absurd ⟨rfl, rfl⟩ clean | cases pending

theorem pending_of_step {event : UploadEvent} (clean : event.IsClean upload.stage)
    (taken : upload.step sha256 storage event = some (storage', upload')) (pending : isPending upload'.stage = true) :
    isPending upload.stage = true := by
  obtain ⟨stage, effect, next, -, rfl⟩ := step_stage taken
  exact pending_of_next clean next pending

/-- The rows after a step of an upload: the same, or one more under its name. -/
theorem rows_of_step {event : UploadEvent} (taken : upload.step sha256 storage event = some (storage', upload')) :
    storage'.rows = storage.rows ∨
      isPending upload.stage = true ∧ uploadLock upload = 1 ∧ storage'.rows = storage.rows ++ [upload.row sha256] := by
  obtain ⟨stage, effect, next, applied, rfl⟩ := step_stage taken
  cases effect <;> simp only [Upload.apply, Option.some.injEq, Option.ite_none_left_eq_some] at applied
  case commit =>
    have inserted := inserted_of_commit next
    exact .inr ⟨by rw [inserted]; rfl, by simp [uploadLock, inserted], by rw [← applied]⟩
  case lock => exact .inl (by rw [← applied.2])
  case unlink => exact .inl (by rw [← applied]; rfl)
  all_goals exact .inl (by rw [← applied])

/-- A file that is there stays there unless the step unlinks it. -/
theorem filesOf_of_step {event : UploadEvent} (taken : upload.step sha256 storage event = some (storage', upload'))
    (spared : (upload.stage.step event).map Prod.snd = some .unlink → name ≠ upload.name)
    (present : storage.filesOf name ≠ []) : storage'.filesOf name ≠ [] := by
  obtain ⟨stage, effect, next, applied, rfl⟩ := step_stage taken
  by_cases own : name = upload.name
  · subst own
    rw [(apply_self applied).1]
    cases effect with
    | unlink => exact absurd rfl (spared (by simp [next]))
    | create => simp [Upload.filesAfter]
    | write => simpa [Upload.filesAfter] using present
    | nothing | lock | commit | rollback => exact present
  · rwa [(apply_of_ne applied own).1]

theorem NameInv.stepUpload {event : UploadEvent} {index : Nat} {uploads : List Upload} (known : NameInv storage uploads deletion name)
    (nodup : (uploads.map Upload.name).Nodup) (found : uploads[index]? = some upload) (clean : event.IsClean upload.stage)
    (taken : upload.step sha256 storage event = some (storage', upload')) :
    NameInv storage' (uploads.set index upload') deletion name := by
  have member := List.mem_of_getElem? found
  constructor
  case notPending =>
    intro other isOther pending
    rcases mem_set_of_nodup nodup found isOther with rfl | ⟨old, -⟩
    · rw [upload_step_name taken]
      exact known.notPending upload member (pending_of_step clean taken pending)
    · exact known.notPending other old pending
  case ownRows =>
    intro row isRow named
    rcases rows_of_step taken with same | ⟨pending, -, added⟩
    · exact known.ownRows row (same ▸ isRow) named
    · rw [added] at isRow
      rcases List.mem_append.mp isRow with old | new
      · exact known.ownRows row old named
      · rw [List.mem_singleton.mp new] at named
        exact absurd named (known.notPending upload member pending)
  case gone =>
    intro names unlinking
    have none := known.gone names unlinking
    rcases rows_of_step taken with same | ⟨pending, -, added⟩
    · rw [Storage.rowsOf, same]
      exact none
    · have other : (upload.row sha256).name ≠ name := known.notPending upload member pending
      rw [Storage.rowsOf, added, List.filter_append]
      simpa [other, Storage.rowsOf] using none

/-- Who has the lock shuts out the others. -/
theorem SiteInv.run_excludes_upload (invariant : SiteInv sha256 s) {run : ArchiveRun} (isRun : run ∈ s.backup) (holds : run.lock = 1)
    {index : Nat} (found : s.uploads[index]? = some upload) : uploadLock upload = 0 := by
  have sum := invariant.lock
  have part := weight_le_total uploadLock found
  have bound : lockCount s.storage ≤ 1 := by unfold lockCount; split <;> omega
  simp only [Option.mem_def] at isRun
  simp only [isRun, Option.map_some, Option.getD_some, holds] at sum
  omega

theorem SiteInv.run_excludes_deletion (invariant : SiteInv sha256 s) {run : ArchiveRun} (isRun : run ∈ s.backup) (holds : run.lock = 1)
    {index : Nat} (found : s.deletions[index]? = some deletion) : deletion.lock = 0 := by
  have sum := invariant.lock
  have part := weight_le_total Deletion.lock found
  have bound : lockCount s.storage ≤ 1 := by unfold lockCount; split <;> omega
  simp only [Option.mem_def] at isRun
  simp only [isRun, Option.map_some, Option.getD_some, holds] at sum
  omega

theorem awaited_eq {run : ArchiveRun} (isRun : run ∈ s.backup) : s.awaited = run.awaited := by
  simp only [Option.mem_def] at isRun
  simp only [Site.awaited, isRun, Option.map_some, ArchiveRun.awaited]
  cases run.stage <;> rfl

theorem SiteInv.stepUpload {index : Nat} {event : UploadEvent} (invariant : SiteInv sha256 s)
    (undisturbed : Undisturbed s (.upload index event)) (found : s.uploads[index]? = some upload)
    (taken : upload.step sha256 s.storage event = some (storage', upload')) :
    SiteInv sha256 { s with storage := storage', uploads := s.uploads.set index upload' } := by
  have member := List.mem_of_getElem? found
  have clean : event.IsClean upload.stage := by
    rintro ⟨committed, isFault⟩
    have returns := undisturbed.2
    simp [Site.commitReturns, found, committed, isFault] at returns
  have spared : ∀ name ∈ s.awaited, (upload.stage.step event).map Prod.snd = some .unlink → name ≠ upload.name := by
    intro name awaited unlinks same
    have spares := undisturbed.1
    simp only [Site.unlinked?, found, unlinks, if_true, Option.all_some, Bool.not_eq_true', List.contains_eq_mem,
      decide_eq_false_iff_not] at spares
    exact spares (same ▸ awaited)
  constructor
  case names =>
    show ((s.uploads.set index upload').map Upload.name).Nodup
    rw [map_key_set found (upload_step_name taken)]
    exact invariant.names
  case rowNames =>
    rcases rows_of_step taken with same | ⟨pending, -, added⟩
    · rw [same]
      exact invariant.rowNames
    · rw [added]
      refine nodup_append_key invariant.rowNames fun present => ?_
      obtain ⟨row, isRow, named⟩ := List.mem_map.mp present
      exact ne_of_rowsOf_nil (rowsOf_of_pending pending (invariant.pending upload member pending)) isRow named
  case lock =>
    have sum := invariant.lock
    have part := weight_le_total uploadLock found
    have moved := uploadLock_step (by omega) taken
    have changed := total_set uploadLock upload' found
    show total uploadLock (s.uploads.set index upload') + total Deletion.lock s.deletions +
      (s.backup.map ArchiveRun.lock).getD 0 = lockCount storage'
    omega
  case pending =>
    intro other isOther pending
    obtain ⟨stage, effect, -, applied, -⟩ := step_stage taken
    rcases mem_set_of_nodup invariant.names found isOther with rfl | ⟨old, otherName⟩
    · exact (invariant.pending upload member (pending_of_step clean taken pending)).step clean taken
    · exact (invariant.pending other old pending).congr (apply_of_ne applied otherName)
  case deletions =>
    intro deletion isDeletion name isName
    exact (invariant.deletions deletion isDeletion name isName).stepUpload invariant.names found clean taken
  case backup =>
    intro run isRun began
    obtain ⟨intact, relies⟩ := invariant.backup run isRun began
    refine ⟨upload_keeps_rows_intact (invariant.pending upload member) intact taken, relies.frame (fun holds => ?_) ?_⟩
    · have unlocked := invariant.run_excludes_upload isRun holds found
      rcases rows_of_step taken with same | ⟨-, locked, -⟩
      · exact same
      · omega
    · intro name awaited
      rw [← awaited_eq isRun] at awaited
      exact filesOf_of_step taken (spared name awaited)

/-! ## A step of a deletion -/

theorem rows_of_deletion (taken : DeletionStep storage deletion storage' deletion') :
    (∀ row ∈ storage'.rows, row ∈ storage.rows) ∧ (deletion.lock = 0 → storage'.rows = storage.rows) ∧
      (storage'.rows.map Row.name).Sublist (storage.rows.map Row.name) := by
  cases taken with
  | look | lock | rollback | unlink | skip | finish => exact ⟨fun row member => member, fun _ => rfl, .refl _⟩
  | commit deleting =>
    refine ⟨fun row member => (List.mem_filter.mp member).1, fun unlocked => ?_, List.filter_sublist.map _⟩
    simp [Deletion.lock, deleting] at unlocked

theorem rowsOf_nil_of_deletion (taken : DeletionStep storage deletion storage' deletion') (none : storage.rowsOf name = []) :
    storage'.rowsOf name = [] := by
  rw [Storage.rowsOf, List.filter_eq_nil_iff] at none ⊢
  exact fun row member => none row ((rows_of_deletion taken).1 row member)

/-- The files of a name a deletion does not unlink stay. -/
theorem filesOf_of_deletion (taken : DeletionStep storage deletion storage' deletion')
    (spared : ∀ names, deletion.stage ≠ .unlinking (name :: names)) : storage'.filesOf name = storage.filesOf name := by
  cases taken with
  | look | lock | rollback | commit | skip | finish => rfl
  | @unlink first names unlinking =>
    have other : name ≠ first := fun same => spared names (same ▸ unlinking)
    exact filesOf_unlink_of_ne other

theorem filesOf_of_deletionEvent {event : DeletionEvent} (taken : deletion.step storage event = some (storage', deletion'))
    (spared : ∀ names, deletion.stage = .unlinking (name :: names) → event ≠ .proceed) :
    storage'.filesOf name = storage.filesOf name := by
  cases event with
  | proceed => exact filesOf_of_deletion (deletion_step taken) fun names unlinking => spared names unlinking rfl
  | fault | faultAfterCommit =>
    simp only [Deletion.step] at taken
    split at taken <;> cases taken <;> rfl

theorem NameInv.othersDeletion {other : Deletion} {uploads : List Upload} (known : NameInv storage uploads other name)
    (taken : DeletionStep storage deletion storage' deletion') : NameInv storage' uploads other name where
  notPending := known.notPending
  ownRows row member := known.ownRows row ((rows_of_deletion taken).1 row member)
  gone names unlinking := rowsOf_nil_of_deletion taken (known.gone names unlinking)

/-- The names a deletion has read are gone once it unlinks. -/
theorem SiteInv.names_of_deletion (invariant : SiteInv sha256 s) (isDeletion : deletion ∈ s.deletions)
    (taken : DeletionStep s.storage deletion storage' deletion') :
    ∀ name ∈ deletion'.stage.names, NameInv storage' s.uploads deletion' name := by
  have known := invariant.deletions deletion isDeletion
  cases taken with
  | look looking =>
    intro name member
    obtain ⟨row, isRow, rfl⟩ := List.mem_map.mp member
    obtain ⟨isRow, ofThread⟩ := List.mem_filter.mp isRow
    constructor
    case notPending =>
      intro upload isUpload pending same
      exact ne_of_rowsOf_nil (rowsOf_of_pending pending (invariant.pending upload isUpload pending)) isRow same.symm
    case ownRows =>
      intro other isOther same
      rw [List.inj_on_of_nodup_map invariant.rowNames isOther isRow same]
      simpa using ofThread
    case gone =>
      intro names unlinking
      cases unlinking
  | @lock names found unlocked =>
    intro name member
    have before := known name (by simpa [DeletionStage.names, found] using member)
    refine ⟨before.notPending, before.ownRows, fun names unlinking => ?_⟩
    cases unlinking
  | @commit names stage deleting next =>
    intro name member
    rcases next with rfl | rfl
    · have before := known name (by simpa [DeletionStage.names, deleting] using member)
      refine ⟨before.notPending, fun row isRow => before.ownRows row (List.mem_filter.mp isRow).1, fun _ _ => ?_⟩
      rw [Storage.rowsOf, List.filter_eq_nil_iff]
      intro row isRow named
      obtain ⟨isRow, otherThread⟩ := List.mem_filter.mp isRow
      have ofThread := before.ownRows row isRow (by simpa using named)
      simp [ofThread] at otherThread
    · cases member
  | rollback | finish => exact List.forall_mem_nil _
  | @unlink first names unlinking | @skip first names unlinking =>
    intro name member
    have before := known name (by simpa [DeletionStage.names, unlinking] using .inr member)
    exact ⟨before.notPending, before.ownRows, fun _ _ => before.gone _ unlinking⟩

theorem SiteInv.stepDeletion {index : Nat} {event : DeletionEvent} (invariant : SiteInv sha256 s)
    (undisturbed : Undisturbed s (.deletion index event)) (found : s.deletions[index]? = some deletion)
    (taken : deletion.step s.storage event = some (storage', deletion')) :
    SiteInv sha256 { s with storage := storage', deletions := s.deletions.set index deletion' } := by
  have member := List.mem_of_getElem? found
  have step := deletion_step taken
  constructor
  case names => exact invariant.names
  case rowNames => exact invariant.rowNames.sublist (rows_of_deletion step).2.2
  case lock =>
    have sum := invariant.lock
    have part := weight_le_total Deletion.lock found
    have moved := deletionLock_step (by omega) step
    have changed := total_set Deletion.lock deletion' found
    show total uploadLock s.uploads + total Deletion.lock (s.deletions.set index deletion') +
      (s.backup.map ArchiveRun.lock).getD 0 = lockCount storage'
    omega
  case pending =>
    intro upload isUpload pending
    have holds := invariant.pending upload isUpload pending
    have noRow := rowsOf_of_pending pending holds
    refine holds.congr ⟨filesOf_of_deletion step fun names unlinking => ?_, (rowsOf_nil_of_deletion step noRow).trans noRow.symm⟩
    have known := invariant.deletions deletion member upload.name (by simp [DeletionStage.names, unlinking])
    exact known.notPending upload isUpload pending rfl
  case deletions =>
    intro other isOther name isName
    rcases List.mem_or_eq_of_mem_set isOther with old | rfl
    · exact (invariant.deletions other old name isName).othersDeletion step
    · exact invariant.names_of_deletion member step name isName
  case backup =>
    intro run isRun began
    obtain ⟨intact, relies⟩ := invariant.backup run isRun began
    have gone : ∀ names, deletion.stage = .unlinking names → ∀ name ∈ names, s.storage.rowsOf name = [] := by
      intro names unlinking name isName
      exact (invariant.deletions deletion member name (by simpa [DeletionStage.names, unlinking] using isName)).gone names unlinking
    refine ⟨deletion_keeps_rows_intact gone intact step, relies.frame (fun holds => ?_) ?_⟩
    · exact (rows_of_deletion step).2.1 (invariant.run_excludes_deletion isRun holds found)
    · intro name awaited present
      rw [← awaited_eq isRun] at awaited
      rw [filesOf_of_deletionEvent taken]
      · exact present
      intro names unlinking isProceed
      have spares := undisturbed.1
      simp only [isProceed, Site.unlinked?, found, Option.map_some, unlinking, Option.all_some, Bool.not_eq_true',
        List.contains_eq_mem, decide_eq_false_iff_not] at spares
      exact spares awaited

/-! ## A step of the backup -/

theorem storage_of_run {run run' : ArchiveRun} (taken : run.step sha256 storage = some (storage', run')) :
    (∃ locked, storage' = { storage with locked }) ∧ run'.intactBefore = run.intactBefore := by
  unfold ArchiveRun.step at taken
  split at taken
  case h_1 =>
    simp only [Option.ite_none_left_eq_some] at taken
    cases taken.2
    exact ⟨⟨true, rfl⟩, rfl⟩
  case h_8 =>
    cases taken
    exact ⟨⟨false, rfl⟩, rfl⟩
  case h_7 =>
    split at taken
    · cases taken
      exact ⟨⟨false, rfl⟩, rfl⟩
    · cases taken
      exact ⟨⟨storage.locked, rfl⟩, rfl⟩
  case h_3 => split at taken <;> cases taken <;> exact ⟨⟨storage.locked, rfl⟩, rfl⟩
  case h_9 =>
    split at taken
    · cases taken
      exact ⟨⟨storage.locked, rfl⟩, rfl⟩
    · split at taken <;> cases taken <;> exact ⟨⟨storage.locked, rfl⟩, rfl⟩
  case h_11 | h_12 => cases taken
  all_goals
    cases taken
    exact ⟨⟨storage.locked, rfl⟩, rfl⟩

theorem SiteInv.stepBackup {run run' : ArchiveRun} (invariant : SiteInv sha256 s) (isRun : s.backup = some run)
    (taken : run.step sha256 s.storage = some (storage', run')) :
    SiteInv sha256 { s with storage := storage', backup := some run' } := by
  have has : run.lock ≤ lockCount s.storage := by
    have sum := invariant.lock
    simp only [isRun, Option.map_some, Option.getD_some] at sum
    omega
  have moved := runLock_step has taken
  have own : run.intactBefore = true → RunInv sha256 storage' run' := fun began =>
    have ⟨intact, relies⟩ := invariant.backup run isRun began
    relies.step intact invariant.rowNames taken
  obtain ⟨⟨locked, rfl⟩, began⟩ := storage_of_run taken
  constructor
  case names => exact invariant.names
  case rowNames => exact invariant.rowNames
  case lock =>
    have sum := invariant.lock
    simp only [isRun, Option.map_some, Option.getD_some] at sum ⊢
    omega
  case pending => exact fun upload isUpload pending => (invariant.pending upload isUpload pending).congr ⟨rfl, rfl⟩
  case deletions =>
    intro deletion isDeletion name isName
    have known := invariant.deletions deletion isDeletion name isName
    exact ⟨known.notPending, known.ownRows, known.gone⟩
  case backup =>
    intro other isOther isIntact
    cases isOther
    rw [began] at isIntact
    exact ⟨(invariant.backup run isRun isIntact).1, own isIntact⟩

/-! ## Every step -/

theorem SiteInv.step (invariant : SiteInv sha256 s) (undisturbed : Undisturbed s action)
    (taken : siteStep sha256 s action = some s') : SiteInv sha256 s' := by
  cases action with
  | submit name threadId content =>
    simp only [siteStep, Option.ite_none_right_eq_some, Option.some.injEq] at taken
    obtain ⟨fresh, rfl⟩ := taken
    simp only [Site.isFreshName, Bool.and_eq_true] at fresh
    obtain ⟨noFiles, noRows, noUpload⟩ := isFreshName_iff.mp fresh.1
    constructor
    case names => exact nodup_append_key invariant.names noUpload
    case rowNames => exact invariant.rowNames
    case lock =>
      have sum := invariant.lock
      simpa [uploadLock] using sum
    case pending =>
      intro upload isUpload pending
      rcases List.mem_append.mp isUpload with old | new
      · exact invariant.pending upload old pending
      · rw [List.mem_singleton.mp new]
        exact ⟨noFiles, noRows⟩
    case deletions =>
      intro deletion isDeletion other isName
      have known := invariant.deletions deletion isDeletion other isName
      refine ⟨fun upload isUpload pending => ?_, known.ownRows, known.gone⟩
      rcases List.mem_append.mp isUpload with old | new
      · exact known.notPending upload old pending
      · rw [List.mem_singleton.mp new]
        intro same
        have unread := List.all_eq_true.mp fresh.2 deletion isDeletion
        simp only [Bool.not_eq_true', List.contains_eq_mem, decide_eq_false_iff_not] at unread
        obtain rfl : name = other := same
        exact unread isName
    case backup => exact invariant.backup
  | upload index event =>
    simp only [siteStep, Option.bind_eq_bind, Option.bind_eq_some_iff, Option.pure_def, Option.some.injEq] at taken
    obtain ⟨upload, found, ⟨storage, upload'⟩, stepped, rfl⟩ := taken
    exact invariant.stepUpload undisturbed found stepped
  | delete threadId =>
    cases taken
    constructor
    case names => exact invariant.names
    case rowNames => exact invariant.rowNames
    case lock =>
      have sum := invariant.lock
      simpa [Deletion.lock] using sum
    case pending => exact invariant.pending
    case deletions =>
      intro deletion isDeletion name isName
      rcases List.mem_append.mp isDeletion with old | new
      · exact invariant.deletions deletion old name isName
      · rw [List.mem_singleton.mp new] at isName
        cases isName
    case backup => exact invariant.backup
  | deletion index event =>
    simp only [siteStep, Option.bind_eq_bind, Option.bind_eq_some_iff, Option.pure_def, Option.some.injEq] at taken
    obtain ⟨deletion, found, ⟨storage, deletion'⟩, stepped, rfl⟩ := taken
    exact invariant.stepDeletion undisturbed found stepped
  | startBackup allowIncomplete =>
    simp only [siteStep, Option.ite_none_left_eq_some, Option.some.injEq, Bool.not_eq_true, Option.isSome_eq_false_iff,
      Option.isNone_iff_eq_none] at taken
    obtain ⟨none, rfl⟩ := taken
    constructor
    case names => exact invariant.names
    case rowNames => exact invariant.rowNames
    case lock =>
      have sum := invariant.lock
      simpa [none, ArchiveRun.lock] using sum
    case pending => exact invariant.pending
    case deletions => exact invariant.deletions
    case backup =>
      intro run isRun began
      cases isRun
      exact ⟨began, rfl, rfl⟩
  | backup =>
    simp only [siteStep, Option.bind_eq_bind, Option.bind_eq_some_iff, Option.pure_def, Option.some.injEq] at taken
    obtain ⟨run, isRun, ⟨storage, run'⟩, stepped, rfl⟩ := taken
    exact invariant.stepBackup isRun stepped

theorem reachable_siteInv (reachable : (site sha256).ReachableVia Undisturbed s) : SiteInv sha256 s := by
  refine Machine.invariant (SiteInv sha256) (fun _ => siteInv_init) ?_ reachable
  exact fun state action next invariant undisturbed taken => invariant.step undisturbed taken

/-! ## Main result -/

/-- The archive has every attachment its database copy references, and no other. -/
structure IsComplete (sha256 : Bytes → Bytes) (run : ArchiveRun) : Prop where
  missing : run.missing = []
  referenced : ∀ row ∈ run.references, ∃ file ∈ run.staged, file.name = row.name ∧ isIntact sha256 row file = true
  noOther : ∀ file ∈ run.staged, ∃ row ∈ run.references, row.name = file.name

theorem Staged.complete {rows : List Row} {files : List File} (staged : Staged sha256 rows files) :
    (∀ row ∈ rows, ∃ file ∈ files, file.name = row.name ∧ isIntact sha256 row file = true) ∧
      ∀ file ∈ files, ∃ row ∈ rows, row.name = file.name := by
  induction staged with
  | nil => simp
  | cons here rest inductionHypothesis =>
    obtain ⟨referenced, noOther⟩ := inductionHypothesis
    constructor
    · intro row member
      rcases List.mem_cons.mp member with rfl | later
      · exact ⟨_, List.mem_cons_self, here⟩
      · obtain ⟨file, isFile, named⟩ := referenced row later
        exact ⟨file, List.mem_cons_of_mem _ isFile, named⟩
    · intro file member
      rcases List.mem_cons.mp member with rfl | later
      · exact ⟨_, List.mem_cons_self, here.1.symm⟩
      · obtain ⟨row, isRow, named⟩ := noOther file later
        exact ⟨row, List.mem_cons_of_mem _ isRow, named⟩

end

/-! ## A file unlinked under the walk -/

def emptySite : Site :=
  { storage := { rows := [], files := [], locked := false }, uploads := [], deletions := [], backup := none }

/-- An upload fails after it wrote its file and is rolled back; the backup takes the lock and finds
the file, the upload unlinks it, and the backup looks at it. -/
def unlinkedUnderWalk : List SiteAction :=
  [.submit 1 2 [80], .upload 0 .proceed, .upload 0 .proceed, .upload 0 .proceed, .upload 0 .fault, .upload 0 .proceed,
    .startBackup false] ++ List.replicate 5 .backup ++ [.upload 0 .proceed, .backup]

/-- An upload is archived, and its conversation is deleted before the archive is verified. -/
def deletedAfterLock : List SiteAction :=
  .submit 1 2 [80] :: List.replicate 7 (.upload 0 .proceed) ++ .startBackup false :: List.replicate 8 .backup ++
    .delete 2 :: List.replicate 5 (.deletion 0 .proceed) ++ [.backup, .backup]

end Oveo.Backup
