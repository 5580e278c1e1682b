import Oveo.Lib.Keyed
import Oveo.Lib.Totals
import Oveo.Attachments.Atomicity
import Oveo.Backup.Schedule

/-! # What a backup can rely on

While the backup holds the write lock no row appears or goes, so the rows it copied are the rows
there are, and each of them has its file: a file is only unlinked when no row names it.  The one
thing the lock does not cover is the unlinking itself. -/

namespace Oveo.Backup

open Oveo.Lib Oveo.Store Oveo.Attachments

section

variable {sha256 : Bytes → Bytes} {storage storage' : Storage} {upload upload' : Upload} {deletion deletion' : Deletion}
  {run run' : ArchiveRun} {name : Id}

/-! ## The write lock -/

def lockCount (storage : Storage) : Nat := if storage.locked then 1 else 0

/-- Does a call at this stage have the write lock? -/
def uploadLock (upload : Upload) : Nat :=
  match upload.stage with
  | .writing | .persisting | .staged | .inserted | .failing _ _ => 1
  | .checking | .committed | .cleared | .closed _ _ | .exited => 0

def Deletion.lock (deletion : Deletion) : Nat :=
  match deletion.stage with
  | .deleting _ => 1
  | .looking | .found _ | .unlinking _ | .finished => 0

def ArchiveRun.lock (run : ArchiveRun) : Nat :=
  match run.stage with
  | .copying | .staging _ | .scanning _ _ | .counting _ => 1
  | .locking | .verifying _ | .archived | .failed => 0

theorem uploadLock_step {event : UploadEvent} (has : uploadLock upload ≤ lockCount storage)
    (taken : upload.step sha256 storage event = some (storage', upload')) :
    uploadLock upload' + lockCount storage = uploadLock upload + lockCount storage' := by
  obtain ⟨stage, effect, next, applied, rfl⟩ := step_stage taken
  obtain ⟨name, threadId, content, now⟩ := upload
  simp only at next
  unfold UploadStage.step at next
  split at next
  -- The first stage takes the lock.
  case h_1 =>
    cases next
    simp only [Upload.apply, Option.ite_none_left_eq_some, Option.some.injEq] at applied
    obtain ⟨unlocked, rfl⟩ := applied
    simp [uploadLock, lockCount, unlocked]
  case h_23 => cases next
  all_goals
    cases next
    cases applied
    simp only [uploadLock, lockCount, Storage.unlink] at has ⊢
  all_goals
    split at has
    all_goals simp_all

/-- What a step of a deletion does: it moves on, or takes the lock, or commits, or unlinks. -/
inductive DeletionStep (storage : Storage) (deletion : Deletion) : Storage → Deletion → Prop
  | look : deletion.stage = .looking →
      DeletionStep storage deletion storage { deletion with
        stage := .found ((storage.rows.filter fun row => row.threadId == deletion.threadId).map Row.name) }
  | lock {names} : deletion.stage = .found names → storage.locked = false →
      DeletionStep storage deletion { storage with locked := true } { deletion with stage := .deleting names }
  | commit {names} {stage} : deletion.stage = .deleting names → stage = .unlinking names ∨ stage = .finished →
      DeletionStep storage deletion { Storage.deleteThread storage deletion.threadId with locked := false }
        { deletion with stage }
  | rollback {names} : deletion.stage = .deleting names →
      DeletionStep storage deletion { storage with locked := false } { deletion with stage := .finished }
  | unlink {name names} : deletion.stage = .unlinking (name :: names) →
      DeletionStep storage deletion (storage.unlink name) { deletion with stage := .unlinking names }
  | skip {name names} : deletion.stage = .unlinking (name :: names) →
      DeletionStep storage deletion storage { deletion with stage := .unlinking names }
  | finish : deletion.lock = 0 → DeletionStep storage deletion storage { deletion with stage := .finished }

theorem deletion_step {event : DeletionEvent} (taken : deletion.step storage event = some (storage', deletion')) :
    DeletionStep storage deletion storage' deletion' := by
  cases event with
  | proceed =>
    simp only [Deletion.step] at taken
    split at taken
    next looking =>
      cases taken
      exact .look looking
    next names found =>
      simp only [Option.ite_none_left_eq_some, Bool.not_eq_true] at taken
      cases taken.2
      exact .lock found taken.1
    next names deleting =>
      cases taken
      exact .commit deleting (.inl rfl)
    next name names unlinking =>
      cases taken
      exact .unlink unlinking
    next unlinking =>
      cases taken
      exact .finish (by simp [Deletion.lock, unlinking])
    next => cases taken
  | fault =>
    simp only [Deletion.step] at taken
    split at taken
    next looking =>
      cases taken
      exact .finish (by simp [Deletion.lock, looking])
    next found =>
      cases taken
      exact .finish (by simp [Deletion.lock, found])
    next deleting =>
      cases taken
      exact .rollback deleting
    next name names unlinking =>
      cases taken
      exact .skip unlinking
    all_goals cases taken
  | faultAfterCommit =>
    simp only [Deletion.step] at taken
    split at taken
    next names deleting =>
      cases taken
      exact .commit deleting (.inr rfl)
    next => cases taken

theorem deletionLock_step (has : deletion.lock ≤ lockCount storage) (taken : DeletionStep storage deletion storage' deletion') :
    deletion'.lock + lockCount storage = deletion.lock + lockCount storage' := by
  cases taken with
  | look looking => simp [Deletion.lock, looking]
  | lock found unlocked => simp [Deletion.lock, lockCount, found, unlocked]
  | commit deleting stage =>
    have locked : storage.locked = true := by
      by_contra unlocked
      simp [Deletion.lock, lockCount, deleting, unlocked] at has
    rcases stage with rfl | rfl <;> simp [Deletion.lock, lockCount, deleting, locked]
  | rollback deleting =>
    have locked : storage.locked = true := by
      by_contra unlocked
      simp [Deletion.lock, lockCount, deleting, unlocked] at has
    simp [Deletion.lock, lockCount, deleting, locked]
  | unlink unlinking =>
    simp only [Deletion.lock, unlinking]
    rfl
  | skip unlinking => simp [Deletion.lock, unlinking]
  | finish unlocked => simp [Deletion.lock] at unlocked ⊢; omega

theorem runLock_step (has : run.lock ≤ lockCount storage) (taken : run.step sha256 storage = some (storage', run')) :
    run'.lock + lockCount storage = run.lock + lockCount storage' := by
  have locked : run.lock = 1 → storage.locked = true := by
    intro holds
    by_contra unlocked
    simp [holds, lockCount, unlocked] at has
  unfold ArchiveRun.step at taken
  split at taken
  next locking =>
    simp only [Option.ite_none_left_eq_some, Bool.not_eq_true] at taken
    cases taken.2
    simp [ArchiveRun.lock, lockCount, locking, taken.1]
  next copying =>
    cases taken
    simp [ArchiveRun.lock, copying]
  next row todo staging => split at taken <;> cases taken <;> simp [ArchiveRun.lock, staging]
  next staging =>
    cases taken
    simp [ArchiveRun.lock, staging]
  next name todo found scanning =>
    cases taken
    simp [ArchiveRun.lock, scanning]
  next found scanning =>
    cases taken
    simp [ArchiveRun.lock, scanning]
  next name todo counting =>
    have isLocked := locked (by simp [ArchiveRun.lock, counting])
    split at taken <;> cases taken <;> simp [ArchiveRun.lock, lockCount, counting, isLocked]
  next counting =>
    have isLocked := locked (by simp [ArchiveRun.lock, counting])
    cases taken
    simp [ArchiveRun.lock, lockCount, counting, isLocked]
  next row todo verifying =>
    split at taken
    · cases taken
      simp [ArchiveRun.lock, verifying]
    · split at taken <;> cases taken <;> simp [ArchiveRun.lock, verifying]
  next verifying =>
    cases taken
    by_cases complete : (run.missing.isEmpty || run.allowIncomplete) = true <;> simp [ArchiveRun.lock, verifying, complete]
  next => cases taken
  next => cases taken

/-! ## Rows and their files -/

theorem rowsIntact_iff : rowsIntact sha256 storage = true ↔
    ∀ row ∈ storage.rows, ∃ file, (storage.filesOf row.name).head? = some file ∧ isIntact sha256 row file = true := by
  simp only [rowsIntact, List.all_eq_true, Option.any_eq_true]

/-- A file with the bytes of an upload is intact by its row. -/
theorem isIntact_row (upload : Upload) : isIntact sha256 (upload.row sha256) ⟨upload.name, upload.content⟩ = true := by
  simp [isIntact, Upload.row]

/-- Only a change to the files of a row can hurt it. -/
theorem rowsIntact_of_files (intact : rowsIntact sha256 storage = true) (rows : ∀ row ∈ storage'.rows, row ∈ storage.rows)
    (files : ∀ row ∈ storage'.rows, storage'.filesOf row.name = storage.filesOf row.name) : rowsIntact sha256 storage' = true := by
  rw [rowsIntact_iff] at intact ⊢
  intro row member
  rw [files row member]
  exact intact row (rows row member)

theorem ne_of_rowsOf_nil (none : storage.rowsOf name = []) {row : Row} (member : row ∈ storage.rows) : row.name ≠ name := by
  intro same
  have kept : row ∈ storage.rowsOf name := List.mem_filter.mpr ⟨member, by simp [same]⟩
  rw [none] at kept
  cases kept

/-- The stages of a call whose name no committed row has. -/
def isPending : UploadStage → Bool
  | .checking | .writing | .persisting | .staged | .inserted | .failing _ _ | .closed _ _ => true
  | .committed | .cleared | .exited => false

theorem rowsOf_of_pending (pending : isPending upload.stage = true) (holds : upload.Holds sha256 storage) :
    storage.rowsOf upload.name = [] := by
  unfold Upload.Holds at holds
  unfold isPending at pending
  split at holds <;> simp_all

/-- Only a call whose name no row has does anything to the storage. -/
theorem pending_of_effect {stage next : UploadStage} {event : UploadEvent} {effect : Effect}
    (taken : stage.step event = some (next, effect)) (acts : effect ≠ .nothing) : isPending stage = true := by
  unfold UploadStage.step at taken
  split at taken <;> cases taken <;> first | rfl | exact absurd rfl acts

theorem inserted_of_commit {stage next : UploadStage} {event : UploadEvent}
    (taken : stage.step event = some (next, .commit)) : stage = .inserted := by
  unfold UploadStage.step at taken
  split at taken <;> first | rfl | (simp at taken)

/-- An upload step commits its row with its file in place, or touches no row and no row's file. -/
theorem upload_keeps_rows_intact {event : UploadEvent} (pending : isPending upload.stage = true → upload.Holds sha256 storage)
    (intact : rowsIntact sha256 storage = true) (taken : upload.step sha256 storage event = some (storage', upload')) :
    rowsIntact sha256 storage' = true := by
  obtain ⟨stage, effect, next, applied, rfl⟩ := step_stage taken
  by_cases acts : effect = .nothing
  · subst acts
    cases applied
    exact intact
  have holds := pending (pending_of_effect next acts)
  have noRow := rowsOf_of_pending (pending_of_effect next acts) holds
  have others : ∀ row ∈ storage.rows, storage'.filesOf row.name = storage.filesOf row.name := fun row member =>
    (apply_of_ne applied (ne_of_rowsOf_nil noRow member)).1
  by_cases commits : effect = .commit
  · subst commits
    have inserted := inserted_of_commit next
    simp only [Upload.Holds, inserted] at holds
    cases applied
    rw [rowsIntact_iff] at intact ⊢
    intro row member
    rcases List.mem_append.mp member with old | new
    · exact intact row old
    · rw [List.mem_singleton.mp new]
      have file : (storage.filesOf upload.name).head? = some ⟨upload.name, upload.content⟩ := by rw [holds.1]; rfl
      exact ⟨_, file, isIntact_row upload⟩
  · have sameRows : storage'.rows = storage.rows := by
      cases effect <;> simp only [Upload.apply, Option.some.injEq, Option.ite_none_left_eq_some] at applied
      case commit => exact absurd rfl commits
      case lock => rw [← applied.2]
      all_goals rw [← applied]
      rfl
    refine rowsIntact_of_files intact (fun row member => sameRows ▸ member) fun row member => others row (sameRows ▸ member)

/-- Nothing a deletion does hurts a row that stays. -/
theorem deletion_keeps_rows_intact (gone : ∀ names, deletion.stage = .unlinking names → ∀ name ∈ names, storage.rowsOf name = [])
    (intact : rowsIntact sha256 storage = true) (taken : DeletionStep storage deletion storage' deletion') :
    rowsIntact sha256 storage' = true := by
  cases taken with
  | look | lock | rollback | skip | finish => exact intact
  | commit =>
    exact rowsIntact_of_files intact (fun row member => (List.mem_filter.mp member).1) fun _ _ => rfl
  | @unlink name names unlinking =>
    refine rowsIntact_of_files intact (fun row member => member) fun row member => ?_
    have other : row.name ≠ name := ne_of_rowsOf_nil (gone _ unlinking name List.mem_cons_self) member
    exact filesOf_unlink_of_ne other

/-! ## The run of a backup -/

/-- Every row is staged, with an intact file of its name. -/
def Staged (sha256 : Bytes → Bytes) : List Row → List File → Prop :=
  List.Forall₂ fun row file => file.name = row.name ∧ isIntact sha256 row file = true

/-- What a backup that began with every file intact relies on. -/
def RunInv (sha256 : Bytes → Bytes) (storage : Storage) (run : ArchiveRun) : Prop :=
  run.missing = [] ∧
    match run.stage with
    | .locking | .copying => run.staged = []
    | .staging todo => run.references = storage.rows ∧ ∃ done, run.references = done ++ todo ∧ Staged sha256 done run.staged
    | .scanning _ found =>
      run.references = storage.rows ∧ Staged sha256 run.references run.staged ∧ ∀ name ∈ found, storage.filesOf name ≠ []
    | .counting todo =>
      run.references = storage.rows ∧ Staged sha256 run.references run.staged ∧ ∀ name ∈ todo, storage.filesOf name ≠ []
    | .verifying todo =>
      Staged sha256 run.references run.staged ∧ (run.references.map Row.name).Nodup ∧ ∀ row ∈ todo, row ∈ run.references
    | .archived => Staged sha256 run.references run.staged
    | .failed => False

/-- The files a run has found and not looked at yet. -/
def ArchiveRun.awaited (run : ArchiveRun) : List Id :=
  match run.stage with
  | .scanning _ found => found
  | .counting todo => todo
  | _ => []

/-- What the others do leaves a run what it relies on. -/
theorem RunInv.frame (invariant : RunInv sha256 storage run) (rows : run.lock = 1 → storage'.rows = storage.rows)
    (files : ∀ name ∈ run.awaited, storage.filesOf name ≠ [] → storage'.filesOf name ≠ []) : RunInv sha256 storage' run := by
  refine ⟨invariant.1, ?_⟩
  have relies := invariant.2
  cases stage : run.stage with
  | failed => simp only [stage] at relies
  | locking | copying | verifying _ | archived => simpa only [stage] using relies
  | staging todo =>
    simp only [stage] at relies ⊢
    rw [rows (by simp [ArchiveRun.lock, stage])]
    exact relies
  | scanning _ waiting | counting waiting =>
    simp only [stage] at relies ⊢
    rw [rows (by simp [ArchiveRun.lock, stage])]
    exact ⟨relies.1, relies.2.1, fun name member =>
      files name (by simpa [ArchiveRun.awaited, stage] using member) (relies.2.2 name member)⟩

theorem Staged.find {rows : List Row} {files : List File} (staged : Staged sha256 rows files)
    (nodup : (rows.map Row.name).Nodup) {row : Row} (member : row ∈ rows) :
    ∃ file, files.find? (fun file => file.name == row.name) = some file ∧ isIntact sha256 row file = true := by
  induction staged with
  | nil => cases member
  | @cons first file rows files here rest inductionHypothesis =>
    obtain ⟨absent, nodup⟩ := List.nodup_cons.mp nodup
    rcases List.mem_cons.mp member with rfl | later
    · exact ⟨file, by simp [here.1], here.2⟩
    · obtain ⟨found, isFound, intact⟩ := inductionHypothesis nodup later
      have other : file.name ≠ row.name := by
        intro same
        exact absent (here.1 ▸ same ▸ List.mem_map_of_mem later)
      exact ⟨found, by rw [List.find?_cons_of_neg (by simpa using other)]; exact isFound, intact⟩

theorem RunInv.step (invariant : RunInv sha256 storage run) (intact : rowsIntact sha256 storage = true)
    (rowNames : (storage.rows.map Row.name).Nodup) (taken : run.step sha256 storage = some (storage', run')) :
    RunInv sha256 storage' run' := by
  obtain ⟨complete, relies⟩ := invariant
  unfold ArchiveRun.step at taken
  split at taken
  next locking =>
    simp only [Option.ite_none_left_eq_some, Bool.not_eq_true] at taken
    cases taken.2
    simp only [locking] at relies
    exact ⟨complete, relies⟩
  next copying =>
    cases taken
    simp only [copying] at relies
    exact ⟨complete, rfl, [], rfl, by rw [relies]; exact .nil⟩
  next row todo staging =>
    simp only [staging] at relies
    obtain ⟨references, done, split, staged⟩ := relies
    have member : row ∈ storage.rows := by
      rw [← references, split]
      simp
    obtain ⟨file, isFile, isIntact⟩ := rowsIntact_iff.mp intact row member
    rw [isFile] at taken
    cases taken
    have named : file.name = row.name := by
      simpa using (List.mem_filter.mp (List.mem_of_mem_head? isFile)).2
    exact ⟨complete, references, done ++ [row], by simp [split], List.rel_append staged (.cons ⟨named, isIntact⟩ .nil)⟩
  next staging =>
    cases taken
    simp only [staging] at relies
    obtain ⟨references, done, split, staged⟩ := relies
    rw [List.append_nil] at split
    exact ⟨complete, references, split ▸ staged, by simp⟩
  next name todo found scanning =>
    cases taken
    simp only [scanning] at relies
    obtain ⟨references, staged, present⟩ := relies
    refine ⟨complete, references, staged, ?_⟩
    intro other member
    by_cases gone : (storage.filesOf name).isEmpty = true
    · exact present other (by simpa [gone] using member)
    · simp only [gone, Bool.false_eq_true, if_false, List.mem_append, List.mem_singleton] at member
      rcases member with old | rfl
      · exact present other old
      · simpa using gone
  next found scanning =>
    cases taken
    simp only [scanning] at relies
    exact ⟨complete, relies⟩
  next name todo counting =>
    simp only [counting] at relies
    obtain ⟨references, staged, present⟩ := relies
    have there : (storage.filesOf name).isEmpty = false := by simpa using present name List.mem_cons_self
    rw [there] at taken
    cases taken
    exact ⟨complete, references, staged, fun other member => present other (List.mem_cons_of_mem _ member)⟩
  next counting =>
    cases taken
    simp only [counting] at relies
    exact ⟨complete, relies.2.1, by rw [relies.1]; exact rowNames, fun row member => member⟩
  next row todo verifying =>
    simp only [verifying] at relies
    obtain ⟨staged, nodup, listed⟩ := relies
    obtain ⟨file, found, isIntact⟩ := staged.find nodup (listed row List.mem_cons_self)
    have notMissing : run.missing.contains row.name = false := by simp [complete]
    simp only [notMissing, Bool.false_eq_true, if_false, found, Option.any_some, isIntact, if_true] at taken
    cases taken
    exact ⟨complete, staged, nodup, fun row member => listed row (List.mem_cons_of_mem _ member)⟩
  next verifying =>
    cases taken
    simp only [verifying] at relies
    refine ⟨complete, ?_⟩
    simp only [complete, List.isEmpty_nil, Bool.true_or, if_true]
    exact relies.1
  next => cases taken
  next => cases taken

end

end Oveo.Backup
