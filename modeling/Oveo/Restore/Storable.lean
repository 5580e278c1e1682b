import Oveo.Restore.RoundTrip

/-! # Manifests as JSON

The manifest is a JSON value that `json.loads` reads back: its keys are sorted and distinct, and its
strings, which come from the database and the host, hold no half of a surrogate pair. -/

namespace Oveo.Restore

open Oveo.Lib Oveo.Docx Oveo.Attachments

/-- JSON values that their text keeps: `sort_keys` writes the members in this order, and every integer is
an `off_t`. -/
inductive Storable : Json → Prop where
  | bool (value : Bool) : Storable (.bool value)
  | int {value : Int} : value.natAbs < 2 ^ 63 → Storable (.int value)
  | str {text : Str} : text.any isSurrogate = false → Storable (.str text)
  | arr {items : List Json} : (∀ item ∈ items, Storable item) → Storable (.arr items)
  | obj {members : List (Str × Json)} : members.Pairwise (fun first second => first.1 < second.1) →
      (∀ member ∈ members, member.1.any isSurrogate = false) → (∀ member ∈ members, Storable member.2) → Storable (.obj members)

section

variable {host : Host} {source : Source} {references : List Reference} {files : List StagedFile} {missing : List Str} {snapshot : Bytes}

/-- What SQLite, `hashlib`, `datetime` and the file system promise about the values a manifest is made of. -/
structure HostPromises (host : Host) (source : Source) : Prop where
  /-- SQLite reads texts as UTF-8. -/
  rowNames : ∀ rows, host.attachmentRows source.snapshot = some rows →
    ∀ row ∈ rows, ∀ storageName, row.storageName = some storageName → storageName.any isSurrogate = false
  digests : ∀ content, (host.sha256 content).any isSurrogate = false
  createdAt : host.createdAt.any isSurrogate = false
  /-- The size of a file is an `off_t`. -/
  snapshotSize : source.snapshot.length < 2 ^ 63
  fileSizes : ∀ storageName content, source.file? storageName = some content → content.length < 2 ^ 63

theorem storable_obj {members : List (Str × Json)} (sorted : members.Pairwise fun first second => first.1 < second.1)
    (each : ∀ member ∈ members, member.1.any isSurrogate = false ∧ Storable member.2) : Storable (.obj members) :=
  .obj sorted (fun member listed => (each member listed).1) fun member listed => (each member listed).2

theorem storable_fileMetadata (digests : ∀ content, (host.sha256 content).any isSurrogate = false) {content : Bytes}
    (size : content.length < 2 ^ 63) : Storable (fileMetadata host content) := by
  refine storable_obj ?_ ?_
  · simp only [List.pairwise_cons, List.mem_singleton, forall_eq, List.not_mem_nil, false_implies, implies_true, List.Pairwise.nil,
      and_true]
    decide
  · simp only [List.forall_mem_cons, List.not_mem_nil, false_implies, implies_true, and_true]
    exact ⟨⟨by decide, .str (digests content)⟩, by decide, .int (by simpa using size)⟩

theorem sortedFiles_pairwise (files : List StagedFile) :
    (sortedFiles files).Pairwise fun first second => first.storageName ≤ second.storageName := by
  have total : Std.Total fun first second : StagedFile => first.storageName ≤ second.storageName :=
    ⟨fun first second => le_total first.storageName second.storageName⟩
  have trans : IsTrans StagedFile fun first second => first.storageName ≤ second.storageName :=
    ⟨fun first second third => le_trans (a := first.storageName) (b := second.storageName) (c := third.storageName)⟩
  exact List.pairwise_insertionSort _ files

theorem attachmentName_lt {first second : Str} (less : first < second) : attachmentName first < attachmentName second :=
  List.append_left_lt less

theorem attachmentName_lt_database (storageName : Str) : attachmentName storageName < str "oveo.sqlite3" :=
  List.cons_lt_cons_iff.mpr (.inl (by decide))

theorem archivedFiles_sorted (archived : Archived host source references (archivedFiles host source references) missing) :
    (archivedFiles host source references).Pairwise fun first second => first.storageName < second.storageName := by
  have distinct := List.pairwise_map.mp archived.nodup
  exact ((sortedFiles_pairwise _).and distinct).imp fun both => lt_of_le_of_ne both.1 both.2

theorem manifestKeys_clean : ∀ key ∈ [str "oveo.sqlite3", str "complete", str "created_at", str "files", str "missing_attachments",
    str "schema_version"], key.any isSurrogate = false := by decide

theorem storable_manifestFilesOf (promises : HostPromises host source)
    (sorted : files.Pairwise fun first second => first.storageName < second.storageName)
    (named : ∀ file ∈ files, file.storageName.any isSurrogate = false)
    (sizes : ∀ file ∈ files, file.content.length < 2 ^ 63) :
    Storable (.obj (manifestFilesOf host source.snapshot files)) := by
  refine storable_obj ?_ fun member listed => ?_
  · refine List.pairwise_append.mpr ⟨List.pairwise_map.mpr (sorted.imp fun less => attachmentName_lt less), List.pairwise_singleton _ _, ?_⟩
    intro member listed last isLast
    obtain ⟨file, -, rfl⟩ := List.mem_map.mp listed
    rw [List.mem_singleton.mp isLast]
    exact attachmentName_lt_database file.storageName
  · rcases List.mem_append.mp listed with isFile | isDatabase
    · obtain ⟨file, member, rfl⟩ := List.mem_map.mp isFile
      have plain : (str "attachments/").any isSurrogate = false := by decide
      exact ⟨by rw [List.any_append, plain, named file member, Bool.false_or], storable_fileMetadata promises.digests (sizes file member)⟩
    · rw [List.mem_singleton.mp isDatabase]
      exact ⟨manifestKeys_clean _ (by simp), storable_fileMetadata promises.digests promises.snapshotSize⟩

/-- The manifest of a backup is read back. -/
theorem storable_manifest (promises : HostPromises host source) (isReferences : referencedAttachments host source.snapshot = .ok references)
    (archived : Archived host source references (archivedFiles host source references) missing) :
    Storable (manifestOf host source.snapshot (archivedFiles host source references) missing) := by
  obtain ⟨rows, isRows, ofRow⟩ := referencedAttachments_safe isReferences
  have named : ∀ storageName ∈ references.map Reference.storageName, storageName.any isSurrogate = false := by
    intro storageName listed
    obtain ⟨reference, isReference, rfl⟩ := List.mem_map.mp listed
    obtain ⟨-, row, isRow, isName⟩ := ofRow reference isReference
    exact promises.rowNames rows isRows row isRow _ isName
  have ofFile (file : StagedFile) (member : file ∈ archivedFiles host source references) :=
    (archived.files_iff file.storageName file.content).mp ⟨file, member, rfl, rfl⟩
  have isFiles := storable_manifestFilesOf promises (archivedFiles_sorted archived)
    (fun file member => named _ (ofFile file member).2.1) fun file member => promises.fileSizes _ _ (ofFile file member).1
  have isMissing : Storable (.arr (missing.map .str)) := by
    refine .arr fun item listed => ?_
    obtain ⟨storageName, gone, rfl⟩ := List.mem_map.mp listed
    exact .str (named _ ((archived.missing_iff storageName).mp gone).1)
  refine storable_obj ?_ fun member listed => ?_
  · have keys : (manifestMembers host source.snapshot (archivedFiles host source references) missing).map Prod.fst =
        if missing.isEmpty then [str "complete", str "created_at", str "files", str "schema_version"]
        else [str "complete", str "created_at", str "files", str "missing_attachments", str "schema_version"] := by
      cases missing <;> rfl
    rw [← @List.pairwise_map _ _ Prod.fst (· < ·), keys]
    split <;> decide
  · simp only [manifestMembers, List.mem_append, List.mem_cons, List.not_mem_nil, or_false] at listed
    rcases listed with ((rfl | rfl | rfl) | isMissingMember) | rfl
    · exact ⟨manifestKeys_clean _ (by simp), .bool _⟩
    · exact ⟨manifestKeys_clean _ (by simp), .str promises.createdAt⟩
    · exact ⟨manifestKeys_clean _ (by simp), isFiles⟩
    · split at isMissingMember
      next => cases isMissingMember
      next =>
        rw [List.mem_singleton.mp isMissingMember]
        exact ⟨manifestKeys_clean _ (by simp), isMissing⟩
    · exact ⟨manifestKeys_clean _ (by simp), .int (by decide)⟩

end

end Oveo.Restore
