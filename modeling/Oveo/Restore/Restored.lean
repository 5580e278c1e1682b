import Oveo.Lib.JsonText
import Oveo.Restore.Storable

/-! # The backup round trip

`restore_archive` gives back what `create_archive` archived exactly when no two of the attachments in the
archive are one file under two names. -/

namespace Oveo.Restore

open Oveo.Lib Oveo.Docx Oveo.Attachments

section

variable {host : Host} {source : Source} {references : List Reference} {files : List StagedFile} {missing : List Str}
  {free : Int} {destination path : List Str} {tree tree' : Tree} {manifest snapshot content : Bytes} {members : List Member}
  {result : BackupResult} {allowIncomplete : Bool}

/-! ## The archive is accepted -/

/-- `restore_archive` can make the destination, and there is room for the members. -/
structure Ready (free : Int) (destination : List Str) (tree : Tree) (members : List Member) : Prop where
  named : destination ≠ []
  fresh : tree.Fresh destination
  possible : (tree.makeDirectories [] destination).2 = true
  room : (members.map Member.size).sum + restoreHeadroomBytes ≤ free

theorem validMember_top {member : Member} (listed : member.name ∈ [str "manifest.json", str "oveo.sqlite3", str "attachments"])
    (kind : member.kind ≠ .other) : ValidMember member where
  nonempty := by
    have all : ∀ name ∈ [str "manifest.json", str "oveo.sqlite3", str "attachments"], name ≠ [] := by decide
    exact all _ listed
  plain := (topName listed).1
  noBackslash := by
    have all : ∀ name ∈ [str "manifest.json", str "oveo.sqlite3", str "attachments"], backslash ∉ name := by decide
    exact all _ listed
  allowed := by
    have all : ∀ name ∈ [str "manifest.json", str "oveo.sqlite3", str "attachments"], allowedName name = true := by decide
    exact all _ listed
  kind := kind

theorem validateMembers_archive (safe : ∀ file ∈ files, safeStorageName file.storageName = true)
    (nodup : (files.map StagedFile.storageName).Nodup) :
    validateMembers [] (archiveMembers manifest snapshot (attachmentMembers files)) = .ok () := by
  refine validateMembers_of_valid (fun member listed => ?_) ?_ fun _ _ => List.not_mem_nil
  · simp only [archiveMembers, List.cons_append, List.nil_append, List.mem_cons] at listed
    rcases listed with rfl | rfl | rfl | isAttachment
    · exact validMember_top (by simp [regularMember]) (by simp [regularMember])
    · exact validMember_top (by simp [regularMember]) (by simp [regularMember])
    · exact validMember_top (by simp) (by simp)
    · obtain ⟨file, isFile, rfl⟩ := List.mem_map.mp isAttachment
      exact validMember_attachment (safe file isFile) file.content
  · have names : (archiveMembers manifest snapshot (attachmentMembers files)).map Member.name =
        [str "manifest.json", str "oveo.sqlite3", str "attachments"] ++ (files.map StagedFile.storageName).map attachmentName := by
      simp [archiveMembers, attachmentMembers, regularMember]
    rw [names]
    refine List.Nodup.append (by decide) (nodup.map attachmentName_injective) ?_
    intro name isTop isAttachment
    obtain ⟨storageName, -, rfl⟩ := List.mem_map.mp isAttachment
    have noSlash : ∀ name ∈ [str "manifest.json", str "oveo.sqlite3", str "attachments"], slash ∉ name := by decide
    refine noSlash _ isTop ?_
    rw [attachmentName_eq]
    exact List.mem_append_right _ List.mem_cons_self

theorem extractArchive_archive (safe : ∀ file ∈ files, safeStorageName file.storageName = true)
    (nodup : (files.map StagedFile.storageName).Nodup)
    (ready : Ready free destination tree (archiveMembers manifest snapshot (attachmentMembers files))) :
    extractArchive free (some (archiveMembers manifest snapshot (attachmentMembers files))) destination tree =
      (.ok (), (tree.makeDirectories [] destination).1 ++ restoredEntries destination manifest snapshot files) := by
  have isGround := ground_of_made ready.fresh ready.possible
  obtain ⟨ground, made⟩ : ∃ ground, tree.makeDirectories [] destination = (ground, true) :=
    ⟨_, Prod.ext rfl ready.possible⟩
  rw [made] at isGround ⊢
  simp only [extractArchive, made, validateMembers_archive safe nodup, if_neg (not_lt.mpr ready.room)]
  exact extractMembers_archive isGround safe nodup

theorem restoreArchive_of_extracted (ready : Ready free destination tree members)
    (extracted : extractArchive free (some members) destination tree = (.ok (), tree')) :
    restoreArchive host free (some members) destination allowIncomplete tree =
      match validateRestoredTree host tree' destination allowIncomplete with
      | .ok () => (.ok (), tree')
      | .error error => (.error error, if (tree'.entryAt? destination).isSome then tree'.removeBelow destination else tree') := by
  have absent : (destination.isEmpty || (tree.entryAt? destination).isSome) = false := by
    rw [ready.fresh destination (List.prefix_refl _)]
    simpa using ready.named
  rw [restoreArchive, absent, if_neg Bool.false_ne_true, extracted]
  rfl

/-- An archive with a link is refused. -/
theorem restoreArchive_link (link : ∃ member ∈ members, member.kind = .other) :
    ∃ error, (restoreArchive host free (some members) destination allowIncomplete tree).1 = .error error := by
  have refused : ∃ error, validateMembers [] members = .error error := by
    obtain ⟨member, listed, isLink⟩ := link
    cases valid : validateMembers [] members with
    | ok => exact absurd isLink (validateMembers_plain valid member listed).2
    | error error => exact ⟨error, rfl⟩
  obtain ⟨error, refused⟩ := refused
  have failed : ∃ error, (extractArchive free (some members) destination tree).1 = .error error := by
    unfold extractArchive
    split
    · exact ⟨_, rfl⟩
    · simp only [refused]
      exact ⟨_, rfl⟩
  obtain ⟨error, failed⟩ := failed
  unfold restoreArchive
  split
  next => exact ⟨_, rfl⟩
  next =>
    simp only [failed]
    exact ⟨error, rfl⟩

/-! ## Names of one file -/

/-- The attachment goes into the archive: its file is there, with the bytes its row says. -/
def Source.IsArchived (host : Host) (source : Source) (references : List Reference) (storageName : Str) : Prop :=
  storageName ∈ references.map Reference.storageName ∧
    ∀ reference ∈ references, reference.storageName = storageName → source.hasIntact host reference = true

/-- Two attachments of the archive are hard links of one file. -/
def SharesFiles (host : Host) (source : Source) : Prop :=
  ∃ references, referencedAttachments host source.snapshot = .ok references ∧
    ∃ first second, source.IsArchived host references first ∧ source.IsArchived host references second ∧ first ≠ second ∧
      source.stagedInode first = source.stagedInode second

theorem isArchived_iff (archived : Archived host source references files missing) {storageName : Str} :
    source.IsArchived host references storageName ↔ storageName ∈ files.map StagedFile.storageName := by
  constructor
  · rintro ⟨listed, whole⟩
    obtain ⟨reference, isReference, rfl⟩ := List.mem_map.mp listed
    obtain ⟨content, isThere⟩ := Option.isSome_iff_exists.mp (Option.isSome_of_any (whole reference isReference rfl))
    obtain ⟨file, member, isName, -⟩ := (archived.files_iff _ content).mpr ⟨isThere, listed, whole⟩
    exact List.mem_map.mpr ⟨file, member, isName⟩
  · intro kept
    obtain ⟨file, member, rfl⟩ := List.mem_map.mp kept
    exact ((archived.files_iff _ file.content).mp ⟨file, member, rfl, rfl⟩).2

theorem sharesFiles_iff (isReferences : referencedAttachments host source.snapshot = .ok references)
    (archived : Archived host source references files missing) :
    SharesFiles host source ↔ ¬ (files.map StagedFile.inode).Nodup := by
  have inodes : files.map StagedFile.inode = (files.map StagedFile.storageName).map source.stagedInode := by
    rw [List.map_map]
    exact List.map_congr_left archived.inode
  rw [inodes]
  constructor
  · rintro ⟨_, isReferences', first, second, isFirst, isSecond, different, same⟩ nodup
    rw [isReferences] at isReferences'
    cases isReferences'
    rw [isArchived_iff archived] at isFirst isSecond
    exact different (List.inj_on_of_nodup_map nodup isFirst isSecond same)
  · intro shared
    by_contra separate
    refine shared (archived.nodup.map_on fun first isFirst second isSecond same => ?_)
    by_contra different
    exact separate ⟨references, isReferences, first, second, (isArchived_iff archived).mpr isFirst, (isArchived_iff archived).mpr isSecond,
      different, same⟩

/-! ## Restored trees -/

/-- The destination holds the database and the attachments of a backup, with their bytes, and no other attachment. -/
structure Restored (source : Source) (references : List Reference) (missing destination : List Str) (tree : Tree) : Prop where
  database : tree.entryAt? (destination ++ [str "oveo.sqlite3"]) = some (.file source.snapshot)
  attachments : ∀ path content, tree.entryAt? (destination ++ str "attachments" :: path) = some (.file content) ↔
    ∃ storageName, path = [storageName] ∧ storageName ∈ references.map Reference.storageName ∧ storageName ∉ missing ∧
      source.file? storageName = some content

theorem restored_of_entries {ground : Tree} (bare : Ground ground destination) {files : List StagedFile}
    (archived : Archived host source references files missing) :
    Restored source references missing destination (ground ++ restoredEntries destination manifest source.snapshot files) where
  database := restored_present bare archived.nodup (by simp) (by simp [restoredEntries])
  attachments path content := by
    have kept {storageName : Str} (listed : storageName ∈ references.map Reference.storageName) (notMissing : storageName ∉ missing) :
        storageName ∈ files.map StagedFile.storageName := by
      by_contra gone
      exact notMissing ((archived.missing_iff storageName).mpr ⟨listed, gone⟩)
    constructor
    · intro found
      rw [restored_entryAt? bare (List.prefix_append _ _) (by simp)] at found
      obtain ⟨file, member, isPath, isContent⟩ := mem_restored_attachments.mp (FileTree.mem_of_entryAt? found)
      obtain ⟨isThere, listed, -⟩ := (archived.files_iff _ _).mp ⟨file, member, rfl, isContent⟩
      exact ⟨file.storageName, isPath, listed,
        fun gone => ((archived.missing_iff _).mp gone).2 (List.mem_map_of_mem member), isThere⟩
    · rintro ⟨storageName, rfl, listed, notMissing, isThere⟩
      obtain ⟨file, member, rfl⟩ := List.mem_map.mp (kept listed notMissing)
      obtain ⟨isFile, -, -⟩ := (archived.files_iff _ file.content).mp ⟨file, member, rfl, rfl⟩
      have same : file.content = content := Option.some.inj (isFile.symm.trans isThere)
      exact restored_present bare archived.nodup (by simp) (mem_restored_attachments.mpr ⟨file, member, rfl, same⟩)

/-- The manifest of a backup, if it is read back as JSON values are. -/
def ReadsManifest (host : Host) (source : Source) (missing : List Str) : Prop :=
  ∀ references, referencedAttachments host source.snapshot = .ok references →
    let manifest := manifestOf host source.snapshot (archivedFiles host source references) missing
    Storable manifest → host.loads (host.dumps manifest) = some manifest

/-- Restoring gives the backup back; one that lacks attachments is refused without the flag. -/
def RestoresBackup (host : Host) (source : Source) (free : Int) (members : List Member) (missing destination : List Str) (tree : Tree) :
    Prop :=
  ∀ allowIncomplete,
    if missing = [] ∨ allowIncomplete = true then
      ∃ references tree', referencedAttachments host source.snapshot = .ok references ∧
        restoreArchive host free (some members) destination allowIncomplete tree = (.ok (), tree') ∧
        Restored source references missing destination tree'
    else ∃ error, (restoreArchive host free (some members) destination allowIncomplete tree).1 = .error error

theorem restoresBackup_iff (promises : HostPromises host source) (readsBack : ReadsManifest host source result.missing)
    (created : createArchive host source allowIncomplete = .ok (members, result)) (ready : Ready free destination tree members) :
    RestoresBackup host source free members result.missing destination tree ↔ ¬ SharesFiles host source := by
  obtain ⟨references, isReferences, sound, archived, rfl⟩ := createArchive_eq_ok created
  obtain ⟨rows, -, ofRow⟩ := referencedAttachments_safe isReferences
  have safe : ∀ reference ∈ references, safeStorageName reference.storageName = true := fun reference member => (ofRow reference member).1
  have isRead := readsBack references isReferences (storable_manifest promises isReferences archived)
  rw [sharesFiles_iff isReferences archived]
  constructor
  · intro restores shared
    -- The second name of the file is a link in the archive.
    have restored := restores true
    rw [if_pos (.inr rfl)] at restored
    obtain ⟨-, tree', -, succeeded, -⟩ := restored
    obtain ⟨link, listed, isLink⟩ := @addStaged_has_link (archivedFiles host source references) [] fun separate => shared separate.1
    obtain ⟨error, failed⟩ := @restoreArchive_link host free destination tree
      (archiveMembers (host.dumps (manifestOf host source.snapshot (archivedFiles host source references) result.missing)) source.snapshot
        (addStaged [] (archivedFiles host source references))) true ⟨link, List.mem_append_right _ listed, isLink⟩
    rw [succeeded] at failed
    cases failed
  · intro separate allowIncomplete
    rw [not_not] at separate
    rw [addStaged_of_distinct separate fun _ _ => List.not_mem_nil] at ready ⊢
    have isGround := ground_of_made ready.fresh ready.possible
    have extracted := extractArchive_archive (safe_of_archived safe archived).1 archived.nodup ready
    rw [restoreArchive_of_extracted ready extracted,
      validateRestoredTree_archived isGround isReferences sound archived safe isRead allowIncomplete]
    split
    next => exact ⟨references, _, isReferences, rfl, restored_of_entries isGround archived⟩
    next => exact ⟨_, rfl⟩

/-- A backup is restored exactly when none of its attachments share a file; and whatever the archive is, a
restore stays below its destination and leaves nothing there when it fails. -/
theorem backup_round_trip (host : Host) (source : Source) (free : Int) (destination : List Str) (tree : Tree) :
    (∀ (allowIncomplete : Bool) (members : List Member) (result : BackupResult),
      HostPromises host source → ReadsManifest host source result.missing →
      createArchive host source allowIncomplete = .ok (members, result) → Ready free destination tree members →
        (RestoresBackup host source free members result.missing destination tree ↔ ¬ SharesFiles host source)) ∧
    ∀ (archive : Archive) (allowIncomplete : Bool),
      (∀ path, ¬ destination <+: path →
        UnchangedOrLeading destination tree (restoreArchive host free archive destination allowIncomplete tree).2 path) ∧
      (tree.Fresh destination → ∀ error, (restoreArchive host free archive destination allowIncomplete tree).1 = .error error →
        (restoreArchive host free archive destination allowIncomplete tree).2.Fresh destination) := by
  refine ⟨fun allowIncomplete members result promises readsBack created ready => ?_,
    fun archive allowIncomplete => ⟨fun path outside => ?_, fun fresh error failed => ?_⟩⟩
  · exact restoresBackup_iff promises readsBack created ready
  · exact restoreArchive_outside outside
  · exact restoreArchive_failed fresh failed

/-! ## Two attachments -/

/-- A database with the rows of two attachments, as SQLite writes it. -/
def twoRows : Bytes :=
  [83, 81, 76, 105, 116, 101, 32, 102, 111, 114, 109, 97, 116, 32, 51, 0, 2, 0, 1, 1, 0, 64, 32, 32, 0, 0, 0, 2, 0, 0, 0, 2, 0, 0, 0, 0,
    0, 0, 0, 0, 0, 0, 0, 1, 0, 0, 0, 4, 0, 0, 0, 0, 0, 0, 0, 0, 0, 0, 0, 1] ++
  List.replicate 35 0 ++
  [2, 0, 46, 122, 112, 13, 0, 0, 0, 1, 1, 164, 0, 1, 164] ++
  List.replicate 310 0 ++
  [90, 1, 6, 23, 35, 35, 1, 125, 116, 97, 98, 108, 101, 97, 116, 116, 97, 99, 104, 109, 101, 110, 116, 115, 97, 116, 116, 97, 99, 104,
    109, 101, 110, 116, 115, 2, 67, 82, 69, 65, 84, 69, 32, 84, 65, 66, 76, 69, 32, 97, 116, 116, 97, 99, 104, 109, 101, 110, 116, 115,
    40, 115, 116, 111, 114, 97, 103, 101, 95, 110, 97, 109, 101, 44, 98, 121, 116, 101, 95, 99, 111, 117, 110, 116, 44, 115, 104, 97,
    50, 53, 54, 41, 13, 0, 0, 0, 2, 1, 110, 0, 1, 183, 1, 110] ++
  List.replicate 354 0 ++
  [71, 2, 5, 15, 1, 129, 13, 98, 3, 98, 97, 55, 56, 49, 54, 98, 102, 56, 102, 48, 49, 99, 102, 101, 97, 52, 49, 52, 49, 52, 48, 100,
    101, 53, 100, 97, 101, 50, 50, 50, 51, 98, 48, 48, 51, 54, 49, 97, 51, 57, 54, 49, 55, 55, 97, 57, 99, 98, 52, 49, 48, 102, 102,
    54, 49, 102, 50, 48, 48, 49, 53, 97, 100, 71, 1, 5, 15, 1, 129, 13, 97, 3, 98, 97, 55, 56, 49, 54, 98, 102, 56, 102, 48, 49, 99,
    102, 101, 97, 52, 49, 52, 49, 52, 48, 100, 101, 53, 100, 97, 101, 50, 50, 50, 51, 98, 48, 48, 51, 54, 49, 97, 51, 57, 54, 49, 55,
    55, 97, 57, 99, 98, 52, 49, 48, 102, 102, 54, 49, 102, 50, 48, 48, 49, 53, 97, 100]

def abcDigest : Str := str "ba7816bf8f01cfea414140de5dae2223b00361a396177a9cb410ff61f20015ad"

def abcRows : List AttachmentRow :=
  [{ storageName := some (str "a"), byteCount := 3, sha256 := abcDigest }, { storageName := some (str "b"), byteCount := 3, sha256 := abcDigest }]

def abcSha256 (content : Bytes) : Str :=
  if content = twoRows then str "22f4e058ec140b88fe6bf54eb791f89eaa698e92c7a5492cee8481da212583ad" else abcDigest

def abcDumps (json : Json) : Bytes := (Json.dumps ⟨1000, id⟩ json).map (fun c => UInt8.ofNat c.val) ++ [10]

def abcMetadata (content : Bytes) : Json := .obj [(str "sha256", .str (abcSha256 content)), (str "size", .int content.length)]

def abcCreatedAt : Str := str "2026-01-01T00:00:00+00:00"

def abcManifest : Json :=
  .obj [(str "complete", .bool true), (str "created_at", .str abcCreatedAt),
    (str "files", .obj [(str "attachments/a", abcMetadata [97, 98, 99]), (str "attachments/b", abcMetadata [97, 98, 99]),
      (str "oveo.sqlite3", abcMetadata twoRows)]), (str "schema_version", .int 1)]

/-- The host, on that database and two files that hold `abc`. -/
def abcHost : Host where
  sha256 := abcSha256
  databaseIsSound content := content == twoRows
  attachmentRows content := if content = twoRows then some abcRows else none
  dumps := abcDumps
  loads content := if content = abcDumps abcManifest then some abcManifest else none
  floatEquals literal number := number == 1 && Json.floatIsOne literal
  createdAt := abcCreatedAt

/-- The files `a` and `b`; are they one? -/
def abcSource (shared : Bool) : Source :=
  { databaseIsFile := true, archiveExists := false, snapshot := twoRows, canLink := fun _ => true
    attachments := .directory [([str "a"], .file [97, 98, 99]), ([str "b"], .file [97, 98, 99])]
    inode := fun storageName => if shared then 1 else if storageName = str "a" then 1 else 2 }

theorem abc_rows : abcHost.attachmentRows twoRows = some abcRows := by
  simp only [abcHost, if_true]

theorem abc_promises (shared : Bool) : HostPromises abcHost (abcSource shared) where
  rowNames rows isRows := by
    have same : some rows = some abcRows := isRows.symm.trans abc_rows
    cases same
    simp only [abcRows, List.forall_mem_cons, Option.some.injEq, forall_eq', List.not_mem_nil, false_implies, implies_true, and_true]
    decide
  digests content := by
    show List.any (if content = twoRows then _ else abcDigest) isSurrogate = false
    split <;> decide
  createdAt := by decide
  snapshotSize := by
    show twoRows.length < 2 ^ 63
    decide +kernel
  fileSizes storageName content found := by
    simp only [Source.file?, abcSource, FileTree.entryAt?_cons, FileTree.entryAt?_nil] at found
    split at found
    next isThere =>
      split_ifs at isThere
      all_goals
        cases isThere
        cases found
        decide
    next => cases found

def abcReferences : List Reference :=
  [{ storageName := str "a", byteCount := 3, sha256 := abcDigest }, { storageName := str "b", byteCount := 3, sha256 := abcDigest }]

theorem abc_references : referencedAttachments abcHost twoRows = .ok abcReferences := by
  rw [referencedAttachments, abc_rows]
  rfl

/-- What the archive of the two files holds. -/
theorem abc_archivedFiles (shared : Bool) : archivedFiles abcHost (abcSource shared) abcReferences =
    [{ storageName := str "a", content := [97, 98, 99], inode := .linked 1 },
      { storageName := str "b", content := [97, 98, 99], inode := .linked (if shared then 1 else 2) }] := by
  cases shared <;> decide +kernel

theorem abc_manifest (shared : Bool) :
    manifestOf abcHost twoRows (archivedFiles abcHost (abcSource shared) abcReferences) [] = abcManifest := by
  have metadata (content : Bytes) : fileMetadata abcHost content = abcMetadata content := rfl
  simp only [abc_archivedFiles, manifestOf, manifestMembers, manifestFilesOf, List.map_cons, List.map_nil, metadata]
  rfl

theorem abc_loads : abcHost.loads (abcHost.dumps abcManifest) = some abcManifest := by
  simp only [abcHost, if_true]

theorem abc_readsManifest (shared : Bool) : ReadsManifest abcHost (abcSource shared) [] := by
  intro references isReferences manifest _
  have same : references = abcReferences := Except.ok.inj (isReferences.symm.trans abc_references)
  have isManifest : manifest = abcManifest := by
    rw [← abc_manifest shared, ← same]
    rfl
  rw [isManifest]
  exact abc_loads

/-- Both are archived, also when they are one file. -/
theorem abc_created (shared : Bool) :
    ∃ members unreferenced, createArchive abcHost (abcSource shared) false = .ok (members, { missing := [], unreferenced }) := by
  have missing : ((createArchive abcHost (abcSource shared) false).toOption.map fun made => made.2.missing) = some [] := by
    cases shared <;> decide +kernel
  cases made : createArchive abcHost (abcSource shared) false with
  | error => simp [made, Except.toOption] at missing
  | ok archive =>
    obtain ⟨members, missing', unreferenced⟩ := archive
    simp only [made, Except.toOption, Option.map_some, Option.some.injEq] at missing
    subst missing
    exact ⟨members, unreferenced, rfl⟩

theorem abc_ready (members : List Member) :
    Ready ((members.map Member.size).sum + restoreHeadroomBytes) [str "restored"] [] members :=
  ⟨by decide, fun _ _ => rfl, rfl, le_refl _⟩

theorem abc_separate : ¬ SharesFiles abcHost (abcSource false) := by
  rintro ⟨references, isReferences, first, second, isFirst, isSecond, different, same⟩
  have isAbc : references = abcReferences := Except.ok.inj (isReferences.symm.trans abc_references)
  subst isAbc
  have named : abcReferences.map Reference.storageName = [str "a", str "b"] := rfl
  have linked (storageName : Str) : (abcSource false).stagedInode storageName = .linked (if storageName = str "a" then 1 else 2) := rfl
  have listedFirst := isFirst.1
  have listedSecond := isSecond.1
  rw [named] at listedFirst listedSecond
  rw [linked, linked, StagedInode.linked.injEq] at same
  grind

theorem abc_shared : SharesFiles abcHost (abcSource true) := by
  have whole : ∀ reference ∈ abcReferences, (abcSource true).hasIntact abcHost reference = true := by decide +kernel
  exact ⟨abcReferences, abc_references, str "a", str "b", ⟨by decide, fun reference listed _ => whole reference listed⟩,
    ⟨by decide, fun reference listed _ => whole reference listed⟩, by decide, rfl⟩

theorem backup_round_trip_separate : ∃ members tree', RestoresBackup abcHost (abcSource false)
      ((members.map Member.size).sum + restoreHeadroomBytes) members [] [str "restored"] [] ∧
    (restoreArchive abcHost 0 none [str "restored"] false []) = (.error .raised, tree') ∧ tree'.Fresh [str "restored"] := by
  obtain ⟨members, unreferenced, created⟩ := abc_created false
  refine ⟨members, _, ((backup_round_trip _ _ _ _ _).1 _ _ _ (abc_promises false) (abc_readsManifest false) created (abc_ready members)).mpr
    abc_separate, rfl, ?_⟩
  exact ((backup_round_trip abcHost (abcSource false) 0 [str "restored"] []).2 none false).2 (fun _ _ => rfl) .raised rfl

/-- Two attachments that are one file make an archive that cannot be restored. -/
theorem shared_file_not_restored : ¬ ∀ (host : Host) (source : Source) (members : List Member) (result : BackupResult) (free : Int)
      (destination : List Str) (tree : Tree), HostPromises host source → ReadsManifest host source result.missing →
    createArchive host source false = .ok (members, result) → result.missing = [] → Ready free destination tree members →
      RestoresBackup host source free members result.missing destination tree := by
  intro always
  obtain ⟨members, unreferenced, created⟩ := abc_created true
  have restores := always _ _ _ _ _ _ _ (abc_promises true) (abc_readsManifest true) created rfl (abc_ready members)
  exact (restoresBackup_iff (abc_promises true) (abc_readsManifest true) created (abc_ready members)).mp restores abc_shared

end

end Oveo.Restore
