import Oveo.Lib.Keyed
import Oveo.Attachments.Upload

/-! # The file is there exactly when its row is

What the storage holds under the name of an upload is fixed by its stage (`Upload.Holds`), as long as
no commit raises after it took effect: then the file is unlinked and the row stays. -/

namespace Oveo.Attachments

open Oveo.Lib Oveo.Store

section

variable {sha256 : Bytes → Bytes} {storage storage' : Storage} {upload upload' : Upload} {effect : Effect} {name : Id}

/-! ## Effects -/

theorem filesOf_unlink_self (storage : Storage) (name : Id) : (storage.unlink name).filesOf name = [] := by
  simp [Storage.filesOf, Storage.unlink]

theorem filesOf_unlink_of_ne {first : Store.Id} (other : name ≠ first) :
    (storage.unlink first).filesOf name = storage.filesOf name := by
  simp only [Storage.filesOf, Storage.unlink, List.filter_filter]
  refine List.filter_congr fun file _ => ?_
  by_cases same : file.name = name
  · simp [same, other]
  · simp [same]

/-- The files a write leaves. -/
theorem filter_write (upload : Upload) (files : List File) (name : Id) :
    (files.map fun file => if file.name = upload.name then { file with content := upload.content } else file).filter
        (fun file => file.name == name) =
      (files.filter fun file => file.name == name).map fun file =>
        if file.name = upload.name then { file with content := upload.content } else file := by
  rw [List.filter_map]
  congr 1
  refine List.filter_congr fun file _ => ?_
  simp only [Function.comp_apply]
  split <;> rfl

/-- What an upload does leaves the other names alone. -/
theorem apply_of_ne (applied : upload.apply sha256 storage effect = some storage') (other : name ≠ upload.name) :
    storage'.filesOf name = storage.filesOf name ∧ storage'.rowsOf name = storage.rowsOf name := by
  have ownName : (upload.name == name) = false := by simpa using fun same : upload.name = name => other same.symm
  cases effect with
  | nothing | rollback =>
    cases applied
    exact ⟨rfl, rfl⟩
  | lock =>
    simp only [Upload.apply, Option.ite_none_left_eq_some] at applied
    cases applied.2
    exact ⟨rfl, rfl⟩
  | create =>
    cases applied
    exact ⟨by simp [Storage.filesOf, ownName], rfl⟩
  | write =>
    cases applied
    refine ⟨?_, rfl⟩
    simp only [Storage.filesOf, filter_write]
    refine (List.map_congr_left fun file member => ?_).trans (List.map_id _)
    have own : file.name = name := by simpa using (List.mem_filter.mp member).2
    simp [own, other]
  | commit =>
    cases applied
    exact ⟨rfl, by simp [Storage.rowsOf, Upload.row, ownName]⟩
  | unlink =>
    cases applied
    exact ⟨filesOf_unlink_of_ne other, rfl⟩

/-- What an effect makes of the files under the upload's own name. -/
def Upload.filesAfter (upload : Upload) (files : List File) : Effect → List File
  | .create => ⟨upload.name, []⟩ :: files
  | .write => files.map fun file => if file.name = upload.name then { file with content := upload.content } else file
  | .unlink => []
  | .nothing | .lock | .commit | .rollback => files

/-- What it makes of the rows under that name. -/
def Upload.rowsAfter (sha256 : Bytes → Bytes) (upload : Upload) (rows : List Row) : Effect → List Row
  | .commit => rows ++ [upload.row sha256]
  | .nothing | .lock | .create | .write | .rollback | .unlink => rows

theorem apply_self (applied : upload.apply sha256 storage effect = some storage') :
    storage'.filesOf upload.name = upload.filesAfter (storage.filesOf upload.name) effect ∧
      storage'.rowsOf upload.name = upload.rowsAfter sha256 (storage.rowsOf upload.name) effect := by
  cases effect with
  | nothing | rollback =>
    cases applied
    exact ⟨rfl, rfl⟩
  | lock =>
    simp only [Upload.apply, Option.ite_none_left_eq_some] at applied
    cases applied.2
    exact ⟨rfl, rfl⟩
  | create =>
    cases applied
    exact ⟨by simp [Storage.filesOf, Upload.filesAfter], rfl⟩
  | write =>
    cases applied
    exact ⟨by simp only [Storage.filesOf, filter_write, Upload.filesAfter], rfl⟩
  | commit =>
    cases applied
    exact ⟨rfl, by simp [Storage.rowsOf, Upload.rowsAfter, Upload.row]⟩
  | unlink =>
    cases applied
    exact ⟨filesOf_unlink_self storage upload.name, rfl⟩

/-! ## Stages -/

/-- What the storage holds under the name of an upload. -/
def Upload.Holds (sha256 : Bytes → Bytes) (upload : Upload) (storage : Storage) : Prop :=
  match upload.stage with
  | .checking | .writing | .failing false _ | .closed false _ =>
    storage.filesOf upload.name = [] ∧ storage.rowsOf upload.name = []
  | .persisting => storage.filesOf upload.name = [⟨upload.name, []⟩] ∧ storage.rowsOf upload.name = []
  | .staged | .inserted | .failing true _ | .closed true _ =>
    storage.filesOf upload.name = [⟨upload.name, upload.content⟩] ∧ storage.rowsOf upload.name = []
  | .committed | .cleared =>
    storage.filesOf upload.name = [⟨upload.name, upload.content⟩] ∧ storage.rowsOf upload.name = [upload.row sha256]
  | .exited =>
    storage.filesOf upload.name = [] ∧ storage.rowsOf upload.name = [] ∨
      storage.filesOf upload.name = [⟨upload.name, upload.content⟩] ∧ storage.rowsOf upload.name = [upload.row sha256]

theorem Upload.Holds.congr (holds : upload.Holds sha256 storage)
    (same : storage'.filesOf upload.name = storage.filesOf upload.name ∧ storage'.rowsOf upload.name = storage.rowsOf upload.name) :
    upload.Holds sha256 storage' := by
  unfold Upload.Holds at holds ⊢
  rw [same.1, same.2]
  exact holds

/-- A commit that took effect returns. -/
def UploadEvent.IsClean (event : UploadEvent) (stage : UploadStage) : Prop := ¬ (stage = .committed ∧ event = .fault)

instance (event : UploadEvent) (stage : UploadStage) : Decidable (event.IsClean stage) :=
  inferInstanceAs (Decidable (¬ _))

/-- A step of an upload is a step of its stage and the effect of that. -/
theorem step_stage {event : UploadEvent} (taken : upload.step sha256 storage event = some (storage', upload')) :
    ∃ stage effect, upload.stage.step event = some (stage, effect) ∧ upload.apply sha256 storage effect = some storage' ∧
      upload' = { upload with stage } := by
  simp only [Upload.step, Option.bind_eq_bind, Option.bind_eq_some_iff, Option.pure_def, Option.some.injEq,
    Prod.mk.injEq] at taken
  obtain ⟨⟨stage, effect⟩, next, storage'', applied, rfl, rfl⟩ := taken
  exact ⟨stage, effect, next, applied, rfl⟩

/-- One step of an upload, from stage to stage. -/
theorem Upload.Holds.step {event : UploadEvent} (clean : event.IsClean upload.stage) (holds : upload.Holds sha256 storage)
    (taken : upload.step sha256 storage event = some (storage', upload')) : upload'.Holds sha256 storage' := by
  obtain ⟨stage, effect, next, applied, rfl⟩ := step_stage taken
  obtain ⟨files, rows⟩ := apply_self applied
  obtain ⟨name, threadId, content, now⟩ := upload
  simp only [Upload.Holds] at holds ⊢
  simp only at files rows next clean
  rw [files, rows]
  -- Each stage says what the effect on the way to the next one finds.
  unfold UploadStage.step at next
  split at next
  case h_15 => exact absurd ⟨rfl, rfl⟩ clean
  case h_23 => cases next
  case h_18 isStaged _ | h_19 isStaged | h_20 isStaged =>
    cases next
    cases isStaged <;> exact holds
  all_goals
    cases next
    simp [holds, Upload.filesAfter, Upload.rowsAfter, Upload.row]

/-! ## All uploads -/

/-- Every upload has a name of its own, and the storage holds what its stage says. -/
structure UploadsInv (sha256 : Bytes → Bytes) (s : UploadState) : Prop where
  names : (s.uploads.map Upload.name).Nodup
  holds : ∀ upload ∈ s.uploads, upload.Holds sha256 s.storage

/-- No commit raises after it took effect. -/
def CommitsReturn (s : UploadState) : UploadAction → Prop
  | .submit .. => True
  | .step index event => ∀ upload ∈ s.uploads[index]?, event.IsClean upload.stage

instance (s : UploadState) : ∀ action, Decidable (CommitsReturn s action)
  | .submit .. => inferInstanceAs (Decidable True)
  | .step index event => inferInstanceAs (Decidable (∀ upload ∈ s.uploads[index]?, event.IsClean upload.stage))

variable {s s' : UploadState} {action : UploadAction}

theorem upload_step_name {event : UploadEvent} (taken : upload.step sha256 storage event = some (storage', upload')) :
    upload'.name = upload.name := by
  obtain ⟨stage, effect, -, -, rfl⟩ := step_stage taken
  rfl

theorem isFreshName_iff {uploads : List Upload} : isFreshName storage uploads name = true ↔
    storage.filesOf name = [] ∧ storage.rowsOf name = [] ∧ name ∉ uploads.map Upload.name := by
  simp [isFreshName, and_assoc]

theorem UploadsInv.step (invariant : UploadsInv sha256 s) (returns : CommitsReturn s action)
    (taken : uploadStep sha256 s action = some s') : UploadsInv sha256 s' := by
  cases action with
  | submit name threadId content =>
    simp only [uploadStep, Option.ite_none_right_eq_some] at taken
    obtain ⟨fresh, taken⟩ := taken
    cases taken
    obtain ⟨noFiles, noRows, noUpload⟩ := isFreshName_iff.mp fresh
    constructor
    case names => exact nodup_append_key invariant.names noUpload
    case holds =>
      intro upload member
      rcases List.mem_append.mp member with old | new
      · exact invariant.holds upload old
      · rw [List.mem_singleton.mp new]
        exact ⟨noFiles, noRows⟩
  | step index event =>
    simp only [uploadStep, Option.bind_eq_bind, Option.bind_eq_some_iff, Option.pure_def, Option.some.injEq] at taken
    obtain ⟨upload, found, ⟨storage, upload'⟩, stepped, rfl⟩ := taken
    have sameName := upload_step_name stepped
    constructor
    case names =>
      show ((s.uploads.set index upload').map Upload.name).Nodup
      rw [map_key_set found sameName]
      exact invariant.names
    case holds =>
      intro other member
      obtain ⟨stage, effect, -, applied, -⟩ := step_stage stepped
      rcases mem_set_of_nodup invariant.names found member with rfl | ⟨old, otherName⟩
      · exact (invariant.holds upload (List.mem_of_getElem? found)).step (returns upload found) stepped
      · exact (invariant.holds other old).congr (apply_of_ne applied otherName)

theorem reachable_uploadsInv (reachable : (uploads sha256).ReachableVia CommitsReturn s) : UploadsInv sha256 s := by
  refine Machine.invariant (UploadsInv sha256) ?_ ?_ reachable
  · rintro state ⟨none, -⟩
    exact ⟨by simp [none], by simp [none]⟩
  · exact fun state action next invariant returns taken => invariant.step returns taken

/-! ## Main result -/

/-- Is a file of this name in the directory? -/
def Storage.HasFile (storage : Storage) (name : Id) : Prop := ∃ file ∈ storage.files, file.name = name

/-- Is a row of this name committed? -/
def Storage.HasRow (storage : Storage) (name : Id) : Prop := ∃ row ∈ storage.rows, row.name = name

theorem hasFile_iff : storage.HasFile name ↔ storage.filesOf name ≠ [] := by
  simp [Storage.HasFile, Storage.filesOf]

theorem hasRow_iff : storage.HasRow name ↔ storage.rowsOf name ≠ [] := by
  simp [Storage.HasRow, Storage.rowsOf]

end

/-! ## A commit that is cancelled -/

def noUploads : UploadState := { storage := { rows := [], files := [], locked := false }, uploads := [] }

/-- The commit of an upload that the database has applied is cancelled. -/
def cancelledCommit : List UploadAction :=
  .submit 1 2 [80, 75] :: List.replicate 5 (.step 0 .proceed) ++ [.step 0 .fault, .step 0 .proceed]

/-- One upload goes through, and the next loses a unique constraint. -/
def uploadsOneRejected : List UploadAction :=
  .submit 1 2 [80, 75] :: List.replicate 7 (.step 0 .proceed) ++ .submit 3 2 [80] :: List.replicate 4 (.step 1 .proceed) ++
    .step 1 .conflict :: List.replicate 3 (.step 1 .proceed)

end Oveo.Attachments
