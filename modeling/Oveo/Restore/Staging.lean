import Mathlib.Data.List.Dedup
import Oveo.Lib.Fallible
import Oveo.Lib.Keyed
import Oveo.Restore.Archive

/-! # What an archive holds

When `create_archive` succeeds, its archive holds the referenced attachments that are there with the
bytes their rows say, each once, and `missing` names the others. -/

namespace Oveo.Restore

open Oveo.Lib Oveo.Docx Oveo.Attachments

section

variable {host : Host} {source : Source} {references : List Reference} {staged verified : List StagedFile}
  {absent damaged missing : List Str} {storageName : Str} {reference : Reference} {file : StagedFile}

/-! ## References -/

/-- The names of the rows are safe, and text of the database. -/
theorem referencedAttachments_safe {database : Bytes} (read : referencedAttachments host database = .ok references) :
    ∃ rows, host.attachmentRows database = some rows ∧
      ∀ reference ∈ references, safeStorageName reference.storageName = true ∧
        ∃ row ∈ rows, row.storageName = some reference.storageName := by
  unfold referencedAttachments at read
  split at read
  next => cases read
  next rows isRows =>
    refine ⟨rows, isRows, fun reference member => ?_⟩
    rw [mapM_eq_ok] at read
    clear isRows
    induction read with
    | nil => cases member
    | @cons row first rows references isFirst _ inductionHypothesis =>
      rcases List.mem_cons.mp member with rfl | later
      · split at isFirst
        next name isName =>
          split at isFirst
          next safe =>
            cases isFirst
            exact ⟨safe, row, List.mem_cons_self, isName⟩
          next => cases isFirst
        next => cases isFirst
      · obtain ⟨safe, other, isOther, isName⟩ := inductionHypothesis later
        exact ⟨safe, other, List.mem_cons_of_mem _ isOther, isName⟩

/-! ## Staging -/

/-- The staged file of a reference that is there. -/
def Source.stage? (source : Source) (reference : Reference) : Option StagedFile :=
  (source.file? reference.storageName).map fun content =>
    { storageName := reference.storageName, content, inode := source.stagedInode reference.storageName }

theorem stage?_eq_some : source.stage? reference = some file ↔
    source.file? reference.storageName = some file.content ∧ file.storageName = reference.storageName ∧
      file.inode = source.stagedInode reference.storageName := by
  rw [Source.stage?, Option.map_eq_some_iff]
  constructor
  · rintro ⟨content, found, rfl⟩
    exact ⟨found, rfl, rfl⟩
  · rintro ⟨found, isName, isInode⟩
    obtain ⟨name, content, inode⟩ := file
    subst isName isInode
    exact ⟨content, found, rfl⟩

theorem stageReferenced_eq_ok {earlier : List StagedFile} {names : List Str} (nodup : (earlier.map StagedFile.storageName).Nodup)
    (done : stageReferenced source earlier names references = .ok (staged, absent)) :
    staged = earlier ++ references.filterMap source.stage? ∧
      absent = names ++ (references.filter fun reference => (source.file? reference.storageName).isNone).map Reference.storageName ∧
      (staged.map StagedFile.storageName).Nodup := by
  induction references generalizing earlier names with
  | nil =>
    cases done
    simpa using nodup
  | cons reference references inductionHypothesis =>
    unfold stageReferenced at done
    split at done
    next notThere =>
      obtain ⟨isStaged, isAbsent, distinct⟩ := inductionHypothesis nodup done
      have unstaged : source.stage? reference = none := by rw [Source.stage?, notThere, Option.map_none]
      refine ⟨?_, ?_, distinct⟩
      · rw [List.filterMap_cons_none unstaged, isStaged]
      · rw [List.filter_cons_of_pos (by rw [notThere]; rfl), isAbsent, List.map_cons, List.append_assoc, List.singleton_append]
    next content isThere =>
      split at done
      next => cases done
      next new =>
        have stagedHere : source.stage? reference =
            some { storageName := reference.storageName, content, inode := source.stagedInode reference.storageName } := by
          rw [Source.stage?, isThere, Option.map_some]
        have fresh : reference.storageName ∉ earlier.map StagedFile.storageName := by
          intro listed
          obtain ⟨file, member, same⟩ := List.mem_map.mp listed
          exact new (List.any_eq_true.mpr ⟨file, member, by simpa using same⟩)
        obtain ⟨isStaged, isAbsent, distinct⟩ := inductionHypothesis (nodup_append_key nodup fresh) done
        refine ⟨?_, ?_, distinct⟩
        · rw [List.filterMap_cons_some stagedHere, isStaged, List.append_assoc, List.singleton_append]
        · rw [List.filter_cons_of_neg (by rw [isThere]; simp), isAbsent]

/-! ## Verification -/

/-- A staged file has the bytes its reference says. -/
def isVerified (host : Host) (references : List Reference) (file : StagedFile) : Bool :=
  references.all fun reference => reference.storageName != file.storageName || intact host file.content reference

theorem verifyStaged_eq_ok {names : List Str} (nodup : (staged.map StagedFile.storageName).Nodup)
    (apart : ∀ file ∈ staged, file.storageName ∉ absent)
    (done : verifyStaged host absent staged names references = .ok (verified, damaged)) :
    verified = staged.filter (isVerified host references) ∧
      ∀ name, name ∈ damaged ↔ name ∈ names ∨
        name ∉ absent ∧ name ∈ references.map Reference.storageName ∧ name ∉ verified.map StagedFile.storageName := by
  induction references generalizing staged names with
  | nil =>
    cases done
    refine ⟨(List.filter_eq_self.mpr fun _ _ => rfl).symm, fun name => by simp⟩
  | cons reference references inductionHypothesis =>
    unfold verifyStaged at done
    split at done
    next isAbsent =>
      obtain ⟨isVerified', isDamaged⟩ := inductionHypothesis nodup apart done
      refine ⟨?_, fun name => ?_⟩
      · rw [isVerified']
        refine List.filter_congr fun file member => ?_
        have other : reference.storageName ≠ file.storageName := fun same => apart file member (same ▸ isAbsent)
        simp [isVerified, other]
      · rw [isDamaged, List.map_cons, List.mem_cons]
        by_cases same : name = reference.storageName
        · simp [same, isAbsent]
        · simp [same]
    next present =>
      split at done
      next => cases done
      next file found =>
        have member := List.mem_of_find?_eq_some found
        have isName : file.storageName = reference.storageName := by simpa using List.find?_some found
        have sole {other : StagedFile} (isOther : other ∈ staged) (same : reference.storageName = other.storageName) : other = file :=
          List.inj_on_of_nodup_map nodup isOther member (same.symm.trans isName.symm)
        split at done
        next whole =>
          obtain ⟨isVerified', isDamaged⟩ := inductionHypothesis nodup apart done
          have filtered : verified = staged.filter (isVerified host (reference :: references)) := by
            rw [isVerified']
            refine List.filter_congr fun other isOther => ?_
            by_cases same : reference.storageName = other.storageName
            · simp [isVerified, sole isOther same, whole]
            · simp [isVerified, same]
          refine ⟨filtered, fun name => ?_⟩
          rw [isDamaged, List.map_cons, List.mem_cons]
          -- A name no later reference has is that of a file that stays.
          have stays : reference.storageName ∉ verified.map StagedFile.storageName →
              reference.storageName ∈ references.map Reference.storageName := by
            intro gone
            by_contra unmentioned
            refine gone (List.mem_map.mpr ⟨file, isVerified' ▸ List.mem_filter.mpr ⟨member, List.all_eq_true.mpr fun other listed => ?_⟩, isName⟩)
            have different : other.storageName ≠ file.storageName :=
              fun same => unmentioned (List.mem_map.mpr ⟨other, listed, same.trans isName⟩)
            simp [different]
          refine or_congr_right (and_congr_right fun _ => ⟨fun ⟨listed, gone⟩ => ⟨.inr listed, gone⟩, fun ⟨listed, gone⟩ => ⟨?_, gone⟩⟩)
          rcases listed with rfl | later
          · exact stays gone
          · exact later
        next broken =>
          obtain ⟨isVerified', isDamaged⟩ := inductionHypothesis
            (nodup.sublist (List.filter_sublist.map _)) (fun other isOther => apart other (List.mem_of_mem_filter isOther)) done
          refine ⟨?_, fun name => ?_⟩
          · rw [isVerified', List.filter_filter]
            refine List.filter_congr fun other isOther => ?_
            by_cases same : reference.storageName = other.storageName
            · simp [isVerified, sole isOther same, isName, broken]
            · have forward : (reference.storageName != other.storageName) = true := bne_iff_ne.mpr same
              have backward : (other.storageName != reference.storageName) = true := bne_iff_ne.mpr (Ne.symm same)
              rw [isVerified, isVerified, List.all_cons, forward, backward, Bool.true_or, Bool.true_and, Bool.and_true]
          · have gone : reference.storageName ∉ verified.map StagedFile.storageName := by
              rw [isVerified', List.mem_map]
              rintro ⟨other, isOther, same⟩
              have kept := (List.mem_filter.mp (List.mem_of_mem_filter isOther)).2
              simp [same] at kept
            rw [isDamaged, List.map_cons, List.mem_cons, List.mem_append, List.mem_singleton]
            by_cases same : name = reference.storageName
            · simp [same, present, gone]
            · simp [same]

/-! ## Archives -/

/-- The reference's file is there, with the bytes the row says. -/
def Source.hasIntact (host : Host) (source : Source) (reference : Reference) : Bool :=
  (source.file? reference.storageName).any fun content => intact host content reference

/-- What the archive of a backup holds. -/
structure Archived (host : Host) (source : Source) (references : List Reference) (files : List StagedFile) (missing : List Str) : Prop where
  nodup : (files.map StagedFile.storageName).Nodup
  /-- The files are those of the references that are intact. -/
  files_iff : ∀ storageName content, (∃ file ∈ files, file.storageName = storageName ∧ file.content = content) ↔
    source.file? storageName = some content ∧ storageName ∈ references.map Reference.storageName ∧
      ∀ reference ∈ references, reference.storageName = storageName → source.hasIntact host reference = true
  inode : ∀ file ∈ files, file.inode = source.stagedInode file.storageName
  missing_iff : ∀ storageName, storageName ∈ missing ↔
    storageName ∈ references.map Reference.storageName ∧ storageName ∉ files.map StagedFile.storageName

theorem mem_sortedNames {names : List Str} : storageName ∈ sortedNames names ↔ storageName ∈ names := by
  rw [sortedNames, List.mem_insertionSort, List.mem_dedup]

theorem sortedFiles_perm (files : List StagedFile) : (sortedFiles files).Perm files := List.perm_insertionSort _ _

/-- A file that is staged is there. -/
theorem stageReferenced_apart (done : stageReferenced source [] [] references = .ok (staged, absent)) :
    ∀ file ∈ staged, file.storageName ∉ absent := by
  obtain ⟨isStaged, isAbsent, -⟩ := stageReferenced_eq_ok (show (([] : List StagedFile).map StagedFile.storageName).Nodup from .nil) done
  rw [List.nil_append] at isStaged isAbsent
  intro file member gone
  rw [isStaged, List.mem_filterMap] at member
  obtain ⟨reference, -, isFile⟩ := member
  obtain ⟨isThere, isName, -⟩ := stage?_eq_some.mp isFile
  rw [isAbsent, List.mem_map] at gone
  obtain ⟨other, isOther, same⟩ := gone
  have notThere := (List.mem_filter.mp isOther).2
  rw [same, isName, isThere] at notThere
  cases notThere

/-- The files `create_archive` puts into an archive. -/
def archivedFiles (host : Host) (source : Source) (references : List Reference) : List StagedFile :=
  sortedFiles ((references.filterMap source.stage?).filter (isVerified host references))

theorem archivedFiles_of_verified (done : stageReferenced source [] [] references = .ok (staged, absent))
    (checked : verifyStaged host absent staged [] references = .ok (verified, damaged)) :
    sortedFiles verified = archivedFiles host source references := by
  obtain ⟨isStaged, -, nodup⟩ := stageReferenced_eq_ok (show (([] : List StagedFile).map StagedFile.storageName).Nodup from .nil) done
  rw [archivedFiles, (verifyStaged_eq_ok nodup (stageReferenced_apart done) checked).1, isStaged, List.nil_append]

theorem archived_of_verified (done : stageReferenced source [] [] references = .ok (staged, absent))
    (checked : verifyStaged host absent staged [] references = .ok (verified, damaged)) :
    Archived host source references (sortedFiles verified) (sortedNames (absent ++ damaged)) := by
  obtain ⟨isStaged, isAbsent, nodup⟩ := stageReferenced_eq_ok (show (([] : List StagedFile).map StagedFile.storageName).Nodup from .nil) done
  rw [List.nil_append] at isStaged isAbsent
  have ofStaged (file : StagedFile) : file ∈ staged ↔ ∃ reference ∈ references, source.stage? reference = some file := by
    rw [isStaged, List.mem_filterMap]
  have apart := stageReferenced_apart done
  obtain ⟨isVerified', isDamaged⟩ := verifyStaged_eq_ok nodup apart checked
  have sorted := sortedFiles_perm verified
  have ofSorted (file : StagedFile) : file ∈ sortedFiles verified ↔ file ∈ staged ∧ isVerified host references file = true := by
    rw [sorted.mem_iff, isVerified', List.mem_filter]
  constructor
  case nodup =>
    refine (sorted.map _).nodup_iff.mpr ?_
    rw [isVerified']
    exact nodup.sublist (List.filter_sublist.map _)
  case files_iff =>
    intro storageName content
    constructor
    · rintro ⟨file, member, rfl, rfl⟩
      obtain ⟨isFile, verifiedFile⟩ := (ofSorted file).mp member
      obtain ⟨reference, listed, isStage⟩ := (ofStaged file).mp isFile
      obtain ⟨isThere, isName, -⟩ := stage?_eq_some.mp isStage
      refine ⟨isName ▸ isThere, List.mem_map.mpr ⟨reference, listed, isName.symm⟩, fun other isOther same => ?_⟩
      have whole := List.all_eq_true.mp verifiedFile other isOther
      rw [Source.hasIntact, same, isName, isThere, Option.any_some]
      simpa [same] using whole
    · rintro ⟨isThere, listed, whole⟩
      obtain ⟨reference, isReference, rfl⟩ := List.mem_map.mp listed
      have isStage : source.stage? reference =
          some { storageName := reference.storageName, content, inode := source.stagedInode reference.storageName } :=
        stage?_eq_some.mpr ⟨isThere, rfl, rfl⟩
      refine ⟨_, (ofSorted _).mpr ⟨(ofStaged _).mpr ⟨reference, isReference, isStage⟩, List.all_eq_true.mpr fun other isOther => ?_⟩, rfl, rfl⟩
      by_cases same : other.storageName = reference.storageName
      · have wholeOther := whole other isOther same
        rw [Source.hasIntact, same, isThere, Option.any_some] at wholeOther
        simp [wholeOther]
      · simp [same]
  case inode =>
    intro file member
    obtain ⟨reference, -, isStage⟩ := (ofStaged file).mp ((ofSorted file).mp member).1
    obtain ⟨-, isName, isInode⟩ := stage?_eq_some.mp isStage
    rw [isInode, isName]
  case missing_iff =>
    intro storageName
    have sameNames : storageName ∈ (sortedFiles verified).map StagedFile.storageName ↔ storageName ∈ verified.map StagedFile.storageName :=
      (sorted.map _).mem_iff
    rw [mem_sortedNames, List.mem_append, isDamaged, sameNames]
    constructor
    · rintro (gone | impossible | ⟨-, listed, unverified⟩)
      · rw [isAbsent, List.mem_map] at gone
        obtain ⟨reference, isReference, rfl⟩ := gone
        refine ⟨List.mem_map.mpr ⟨reference, List.mem_of_mem_filter isReference, rfl⟩, fun kept => ?_⟩
        obtain ⟨file, isFile, same⟩ := List.mem_map.mp kept
        rw [isVerified'] at isFile
        refine apart file (List.mem_of_mem_filter isFile) ?_
        rw [same, isAbsent]
        exact List.mem_map_of_mem isReference
      · cases impossible
      · exact ⟨listed, unverified⟩
    · rintro ⟨listed, unverified⟩
      by_cases gone : storageName ∈ absent
      · exact .inl gone
      · exact .inr (.inr ⟨gone, listed, unverified⟩)

/-- The three members every archive has, and the attachments. -/
def archiveMembers (manifest snapshot : Bytes) (attachments : List Member) : List Member :=
  [regularMember (str "manifest.json") manifest, regularMember (str "oveo.sqlite3") snapshot,
    { name := str "attachments", kind := .directory, size := 0, data := [], readable := true }] ++ attachments

theorem createArchive_eq_ok {allowIncomplete : Bool} {members : List Member} {result : BackupResult}
    (created : createArchive host source allowIncomplete = .ok (members, result)) :
    ∃ references, referencedAttachments host source.snapshot = .ok references ∧
      host.databaseIsSound source.snapshot = true ∧
      Archived host source references (archivedFiles host source references) result.missing ∧
      members = archiveMembers (host.dumps (manifestOf host source.snapshot (archivedFiles host source references) result.missing))
        source.snapshot (addStaged [] (archivedFiles host source references)) := by
  unfold createArchive at created
  simp only [throw_bind, ite_error_eq_ok, ok_bind_iff, pure_eq_ok, Except.ok.injEq, Prod.mk.injEq] at created
  obtain ⟨-, -, references, isReferences, -, ⟨staged, absent⟩, isStaged, unreferenced, -, sound, ⟨verified, damaged⟩, isVerified,
    -, rfl, rfl⟩ := created
  have same := archivedFiles_of_verified isStaged isVerified
  refine ⟨references, isReferences, by simpa using sound, ?_, ?_⟩
  · rw [← same]
    exact archived_of_verified isStaged isVerified
  · rw [← same]
    rfl

end

end Oveo.Restore
