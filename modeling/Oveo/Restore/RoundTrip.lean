import Oveo.Restore.Members

/-! # A backup is restored

An archive of `create_archive` is accepted by `restore_archive`, and gives the database and the
referenced attachments back, unless two of the attachments are one file under two names. -/

namespace Oveo.Restore

open Oveo.Lib Oveo.Docx Oveo.Attachments

section

variable {host : Host} {source : Source} {references : List Reference} {files : List StagedFile} {missing : List Str}
  {destination path : List Str} {tree ground : Tree} {manifest snapshot content : Bytes} {name : Str} {members : List Member}

/-! ## The restored tree -/

/-- What an extraction adds below the destination. -/
def restoredEntries (destination : List Str) (manifest snapshot : Bytes) (files : List StagedFile) : Tree :=
  [(destination ++ [str "manifest.json"], .file manifest), (destination ++ [str "oveo.sqlite3"], .file snapshot),
    (destination ++ [str "attachments"], .directory)] ++
  files.map fun file => (destination ++ [str "attachments", file.storageName], .file file.content)

/-- There is nothing below the destination yet. -/
structure Ground (ground : Tree) (destination : List Str) : Prop where
  rooted : ground.Rooted destination
  bare : ∀ entry ∈ ground, destination <+: entry.1 → entry.1 = destination

theorem Ground.absent (bare : Ground ground destination) (isBelow : destination <+: path) (strictly : path ≠ destination) :
    ground.entryAt? path = none :=
  FileTree.entryAt?_eq_none.mpr fun entry member same => strictly (same ▸ bare.bare entry member (same ▸ isBelow))

theorem ground_of_made (fresh : tree.Fresh destination) (possible : (tree.makeDirectories [] destination).2 = true) :
    Ground (tree.makeDirectories [] destination).1 destination := by
  constructor
  case rooted =>
    have rooted := @FileTree.makeDirectories_rooted Str Bytes _ tree [] destination
      (fun upper nonempty isUpper => absurd (List.prefix_nil.mp isUpper) nonempty) possible
    simpa using rooted
  case bare =>
    obtain ⟨leading, made, isMade⟩ := FileTree.makeDirectories_made tree [] destination
    rw [made]
    intro entry member isBelow
    rcases List.mem_append.mp member with old | leads
    · exact absurd rfl (FileTree.entryAt?_eq_none.mp (fresh entry.1 isBelow) entry old)
    · have upper : entry.1 <+: destination := by simpa using (isMade.between entry leads).2.2
      exact upper.eq_of_length_le isBelow.length_le

theorem names_distinct : str "manifest.json" ≠ str "oveo.sqlite3" ∧ str "manifest.json" ≠ str "attachments" ∧
    str "oveo.sqlite3" ≠ str "attachments" := by decide

theorem restoredEntries_nodup (nodup : (files.map StagedFile.storageName).Nodup) :
    ((restoredEntries destination manifest snapshot files).map Prod.fst).Nodup := by
  obtain ⟨first, second, third⟩ := names_distinct
  have paths : (restoredEntries destination manifest snapshot files).map Prod.fst =
      ([[str "manifest.json"], [str "oveo.sqlite3"], [str "attachments"]] ++
        (files.map StagedFile.storageName).map fun name => [str "attachments", name]).map (destination ++ ·) := by
    simp [restoredEntries]
  rw [paths]
  refine List.Nodup.map (fun _ _ same => List.append_cancel_left same) (List.Nodup.append ?_ ?_ ?_)
  · simp [first, second, third]
  · exact nodup.map fun _ _ same => by simpa using same
  · simp [List.disjoint_left]

theorem restored_entryAt? (bare : Ground ground destination) (isBelow : destination <+: path) (strictly : path ≠ destination) :
    (ground ++ restoredEntries destination manifest snapshot files).entryAt? path =
      (restoredEntries destination manifest snapshot files).entryAt? path := by
  rw [FileTree.entryAt?_append, bare.absent isBelow strictly, Option.none_or]

theorem restored_present (bare : Ground ground destination) (nodup : (files.map StagedFile.storageName).Nodup) {rest : List Str}
    {entry : FileEntry Bytes} (nonempty : rest ≠ [])
    (member : (destination ++ rest, entry) ∈ restoredEntries destination manifest snapshot files) :
    (ground ++ restoredEntries destination manifest snapshot files).entryAt? (destination ++ rest) = some entry := by
  rw [restored_entryAt? bare (List.prefix_append _ _) (by simpa using nonempty)]
  exact FileTree.entryAt?_of_mem (restoredEntries_nodup nodup) member

theorem mem_restored_attachments {rest : List Str} :
    (destination ++ str "attachments" :: rest, .file content) ∈ restoredEntries destination manifest snapshot files ↔
      ∃ file ∈ files, rest = [file.storageName] ∧ file.content = content := by
  obtain ⟨-, second, third⟩ := names_distinct
  simp only [restoredEntries, List.mem_append, List.mem_cons, Prod.mk.injEq, List.append_cancel_left_eq, List.cons.injEq,
    FileEntry.file.injEq, reduceCtorEq, and_false, List.not_mem_nil, or_false, List.mem_map, second.symm, third.symm, false_and,
    false_or, true_and]
  constructor
  · rintro ⟨file, member, isRest, isContent⟩
    exact ⟨file, member, isRest.symm, isContent⟩
  · rintro ⟨file, member, isRest, isContent⟩
    exact ⟨file, member, isRest.symm, isContent⟩

/-! ## Extraction -/

theorem extractMembers_regular {member : Member} {upper : List Str} {last : Str} (isPlain : PlainName member.name)
    (isPath : pathParts member.name = upper ++ [last]) (regular : member.kind ≠ .directory) (readable : member.readable = true)
    (rooted : tree.Rooted (destination ++ upper)) (absent : tree.entryAt? (destination ++ upper ++ [last]) = none) :
    extractMembers destination tree (member :: members) =
      extractMembers destination (tree ++ [(destination ++ upper ++ [last], .file member.data)]) members := by
  have parent : memberParent destination member.name = destination ++ upper := by
    rw [isPlain.memberParent, isPath, List.dropLast_concat]
  have path : memberPath destination member.name = destination ++ upper ++ [last] := by
    rw [isPlain.memberPath, isPath, List.append_assoc]
  have made : tree.makeDirectories [] (destination ++ upper) = (tree, true) :=
    FileTree.makeDirectories_of_rooted (by simpa using rooted)
  simp only [extractMembers, if_neg regular, parent, path, made, FileTree.createFile_of_absent rooted absent, readable, if_true]

theorem extractMembers_attachments (safe : ∀ file ∈ files, safeStorageName file.storageName = true)
    (nodup : (files.map StagedFile.storageName).Nodup) (rooted : tree.Rooted (destination ++ [str "attachments"]))
    (absent : ∀ file ∈ files, tree.entryAt? (destination ++ [str "attachments", file.storageName]) = none) :
    extractMembers destination tree (attachmentMembers files) =
      (.ok (), tree ++ files.map fun file => (destination ++ [str "attachments", file.storageName], .file file.content)) := by
  induction files generalizing tree with
  | nil => simp [attachmentMembers, extractMembers]
  | cons file files inductionHypothesis =>
    obtain ⟨isSafe, safe⟩ := List.forall_mem_cons.mp safe
    obtain ⟨isAbsent, absent⟩ := List.forall_mem_cons.mp absent
    obtain ⟨distinct, nodup⟩ := List.nodup_cons.mp nodup
    have shift : destination ++ [str "attachments"] ++ [file.storageName] = destination ++ [str "attachments", file.storageName] := by simp
    rw [attachmentMembers, List.map_cons, extractMembers_regular (plainName_attachmentName isSafe)
      (by rw [regularMember, pathParts_attachmentName isSafe, List.singleton_append]) (by simp [regularMember]) rfl rooted
      (shift ▸ isAbsent), shift, ← attachmentMembers, inductionHypothesis safe nodup rooted.append ?_]
    · simp [regularMember]
    · intro other isOther
      have different : file.storageName ≠ other.storageName := fun same => distinct (same ▸ List.mem_map_of_mem isOther)
      rw [FileTree.entryAt?_append, absent other isOther, FileTree.entryAt?_singleton, if_neg (by simpa using different)]
      rfl

theorem extractMembers_top {member : Member} {last : Str} (isPlain : PlainName member.name) (isPath : pathParts member.name = [last])
    (regular : member.kind ≠ .directory) (readable : member.readable = true) (rooted : tree.Rooted destination)
    (absent : tree.entryAt? (destination ++ [last]) = none) :
    extractMembers destination tree (member :: members) =
      extractMembers destination (tree ++ [(destination ++ [last], .file member.data)]) members := by
  have extracted := @extractMembers_regular destination tree members member [] last isPlain isPath regular readable
    (by simpa using rooted) (by simpa using absent)
  simpa using extracted

theorem extractMembers_directory {member : Member} {last : Str} (isPlain : PlainName member.name) (isPath : pathParts member.name = [last])
    (isDirectory : member.kind = .directory) (rooted : tree.Rooted destination) (absent : tree.entryAt? (destination ++ [last]) = none) :
    extractMembers destination tree (member :: members) =
      extractMembers destination (tree ++ [(destination ++ [last], .directory)]) members := by
  have made : tree.makeDirectories [] (destination ++ [last]) = (tree ++ [(destination ++ [last], .directory)], true) := by
    rw [FileTree.makeDirectories_below (by simpa using rooted), List.nil_append, FileTree.makeDirectories, absent]
    rfl
  simp only [extractMembers, if_pos isDirectory, isPlain.memberPath, isPath, made]

theorem topName (listed : name ∈ [str "manifest.json", str "oveo.sqlite3", str "attachments"]) :
    PlainName name ∧ pathParts name = [name] := by
  have all : ∀ name ∈ [str "manifest.json", str "oveo.sqlite3", str "attachments"],
      isAbsolute name = false ∧ str ".." ∉ pathParts name ∧ pathParts name = [name] := by decide
  obtain ⟨relative, down, isPath⟩ := all name listed
  exact ⟨⟨relative, down⟩, isPath⟩

theorem extractMembers_archive (bare : Ground ground destination) (safe : ∀ file ∈ files, safeStorageName file.storageName = true)
    (nodup : (files.map StagedFile.storageName).Nodup) :
    extractMembers destination ground (archiveMembers manifest snapshot (attachmentMembers files)) =
      (.ok (), ground ++ restoredEntries destination manifest snapshot files) := by
  obtain ⟨first, second, third⟩ := names_distinct
  have isManifest := @topName (str "manifest.json") (by simp)
  have isDatabase := @topName (str "oveo.sqlite3") (by simp)
  have isAttachments := @topName (str "attachments") (by simp)
  have absentAt (rest : List Str) (nonempty : rest ≠ []) : ground.entryAt? (destination ++ rest) = none :=
    bare.absent (List.prefix_append _ _) (by simpa using nonempty)
  rw [archiveMembers, List.cons_append, List.cons_append, List.cons_append, List.nil_append,
    extractMembers_top isManifest.1 isManifest.2 (by simp [regularMember]) rfl bare.rooted (absentAt _ (by simp)),
    extractMembers_top isDatabase.1 isDatabase.2 (by simp [regularMember]) rfl bare.rooted.append
      (by simp [FileTree.entryAt?_append, absentAt, FileTree.entryAt?_cons, first]),
    extractMembers_directory isAttachments.1 isAttachments.2 rfl bare.rooted.append.append
      (by simp [FileTree.entryAt?_append, absentAt, FileTree.entryAt?_cons, second, third]),
    extractMembers_attachments safe nodup ?rooted ?absent]
  case rooted =>
    refine bare.rooted.append.append.append.extend ?_
    simp [FileTree.entryAt?_append, absentAt, FileTree.entryAt?_cons, second, third]
  case absent =>
    intro file _
    simp [FileTree.entryAt?_append, absentAt, FileTree.entryAt?_cons]
  simp [restoredEntries, regularMember]

/-! ## The checks of the restored tree -/

theorem sameNames_iff {first second : List Str} : sameNames first second = true ↔ ∀ name, name ∈ first ↔ name ∈ second := by
  simp only [sameNames, Bool.and_eq_true, List.all_eq_true, List.contains_iff_mem]
  exact ⟨fun both name => ⟨both.1 name, both.2 name⟩, fun same => ⟨fun name => (same name).mp, fun name => (same name).mpr⟩⟩

theorem get?_manifest (host : Host) (snapshot : Bytes) (files : List StagedFile) (missing : List Str) :
    Json.get? (manifestMembers host snapshot files missing) (str "schema_version") = some (.int 1) ∧
      Json.get? (manifestMembers host snapshot files missing) (str "files") = some (.obj (manifestFilesOf host snapshot files)) ∧
      Json.get? (manifestMembers host snapshot files missing) (str "complete") = some (.bool missing.isEmpty) ∧
      Json.get? (manifestMembers host snapshot files missing) (str "missing_attachments") =
        if missing.isEmpty then none else some (.arr (missing.map .str)) := by
  cases missing with
  | nil => exact ⟨rfl, rfl, rfl, rfl⟩
  | cons => exact ⟨rfl, rfl, rfl, rfl⟩

theorem manifestFiles_eq : manifestFiles (manifestMembers host snapshot files missing) = .ok (manifestFilesOf host snapshot files) := by
  have hasDatabase : (Json.get? (manifestFilesOf host snapshot files) (str "oveo.sqlite3")).isSome = true := by
    rw [Json.get?, Option.isSome_map, List.find?_isSome]
    exact ⟨(str "oveo.sqlite3", fileMetadata host snapshot), by simp [manifestFilesOf], by simp⟩
  rw [manifestFiles, (get?_manifest host snapshot files missing).2.1]
  simp only [hasDatabase, if_true]

theorem mapM_safeName? {names : List Str} (safe : ∀ name ∈ names, safeStorageName name = true) :
    (names.map Json.str).mapM safeName? = some names := by
  induction names with
  | nil => rfl
  | cons name names inductionHypothesis =>
    obtain ⟨isSafe, safe⟩ := List.forall_mem_cons.mp safe
    simp [safeName?, isSafe, inductionHypothesis safe]

theorem expectedMissing_eq (safe : ∀ name ∈ missing, safeStorageName name = true) (allowIncomplete : Bool) :
    expectedMissing host (manifestMembers host snapshot files missing) allowIncomplete =
      if missing = [] ∨ allowIncomplete = true then .ok missing else .error (.incomplete missing.length) := by
  obtain ⟨-, -, complete, listed⟩ := get?_manifest host snapshot files missing
  cases missing with
  | nil => rfl
  | cons name names =>
    simp only [expectedMissing, complete, listed, List.isEmpty_cons, Bool.false_eq_true, if_false, Option.getD_some,
      List.map_cons]
    rw [← List.map_cons, mapM_safeName? safe]
    simp

theorem checkFiles_eq_ok {entries : List (Str × Json)}
    (there : ∀ entry ∈ entries, ∃ content, entry.2 = fileMetadata host content ∧
      tree.entryAt? (memberPath destination entry.1) = some (.file content)) : checkFiles host tree destination entries = .ok () := by
  induction entries with
  | nil => rfl
  | cons entry entries inductionHypothesis =>
    obtain ⟨⟨content, isMetadata, isThere⟩, later⟩ := List.forall_mem_cons.mp there
    obtain ⟨name, metadata⟩ := entry
    simp only at isMetadata isThere
    subst isMetadata
    have size : (Json.get? [(str "sha256", .str (host.sha256 content)), (str "size", .int content.length)] (str "size")).any
        (equalsNat host content.length) = true := by
      have isSize : Json.get? [(str "sha256", .str (host.sha256 content)), (str "size", .int content.length)] (str "size") =
          some (.int content.length) := rfl
      simp [isSize, equalsNat]
    have digest : Json.get? [(str "sha256", .str (host.sha256 content)), (str "size", .int content.length)] (str "sha256") =
        some (.str (host.sha256 content)) := rfl
    simp only [fileMetadata, checkFiles, isThere, size, digest, Bool.not_true, Bool.false_eq_true, if_false, if_true]
    exact inductionHypothesis later

theorem presentReferences_eq_ok (there : ∀ reference ∈ references, reference.storageName ∉ missing →
      ∃ content, tree.entryAt? (destination ++ [str "attachments", reference.storageName]) = some (.file content) ∧
        intact host content reference = true) :
    presentReferences host tree destination missing references =
      .ok ((references.filter fun reference => decide (reference.storageName ∉ missing)).map Reference.storageName) := by
  induction references with
  | nil => rfl
  | cons reference references inductionHypothesis =>
    obtain ⟨isThere, there⟩ := List.forall_mem_cons.mp there
    have rest := inductionHypothesis there
    by_cases gone : reference.storageName ∈ missing
    · simp [presentReferences, gone, rest]
    · obtain ⟨content, found, whole⟩ := isThere gone
      simp [presentReferences, gone, found, whole, rest, ok_bind_eq]

theorem restoredEntries_under : restoredEntries destination manifest snapshot files =
    (restoredEntries [] manifest snapshot files).map fun entry => (destination ++ entry.1, entry.2) := by
  simp [restoredEntries]

/-- There are no links, and the files are those that were extracted. -/
theorem regularFiles_restored (bare : Ground ground destination) (root : List Str) :
    regularFiles (ground ++ restoredEntries destination manifest snapshot files) (destination ++ root) =
      .ok (((restoredEntries [] manifest snapshot files).filesBelow root).map fun file => joinPath file.1) := by
  have nothing : ∀ entry ∈ ground, FileTree.below? (destination ++ root) entry.1 = none := by
    intro entry member
    refine Option.eq_none_iff_forall_ne_some.mpr fun rest found => ?_
    obtain ⟨isPath, nonempty⟩ := FileTree.below?_eq_some.mp found
    rw [List.append_assoc] at isPath
    have same := bare.bare entry member (isPath ▸ List.prefix_append _ _)
    rw [isPath] at same
    simp [nonempty] at same
  have noOther : (restoredEntries [] manifest snapshot files).hasOther root = false := by
    simp [FileTree.hasOther, restoredEntries]
  rw [regularFiles, FileTree.hasOther_append, FileTree.hasOther_eq_false nothing, FileTree.filesBelow_append,
    FileTree.filesBelow_eq_nil nothing, restoredEntries_under, FileTree.hasOther_under, FileTree.filesBelow_under, noOther]
  rfl

theorem filesBelow_top : (restoredEntries [] manifest snapshot files).filesBelow [] =
    [([str "manifest.json"], manifest), ([str "oveo.sqlite3"], snapshot)] ++
      files.map fun file => ([str "attachments", file.storageName], file.content) := by
  have whole (path : List Str) (nonempty : path ≠ []) : FileTree.below? [] path = some path :=
    FileTree.below?_eq_some.mpr ⟨rfl, nonempty⟩
  simp [FileTree.filesBelow, restoredEntries, whole, List.filterMap_map]

theorem filesBelow_attachments : (restoredEntries [] manifest snapshot files).filesBelow [str "attachments"] =
    files.map fun file => ([file.storageName], file.content) := by
  obtain ⟨-, second, third⟩ := names_distinct
  have inside (name : Str) : FileTree.below? [str "attachments"] [str "attachments", name] = some [name] :=
    FileTree.below?_eq_some.mpr ⟨rfl, by simp⟩
  have outside (name : Str) : FileTree.below? [str "attachments"] [name] = none := by
    refine Option.eq_none_iff_forall_ne_some.mpr fun rest found => ?_
    obtain ⟨same, nonempty⟩ := FileTree.below?_eq_some.mp found
    simp [nonempty] at same
  simp [FileTree.filesBelow, restoredEntries, inside, outside, List.filterMap_map]

/-! ## Archives of `create_archive` -/

theorem safe_of_archived (safe : ∀ reference ∈ references, safeStorageName reference.storageName = true)
    (archived : Archived host source references files missing) :
    (∀ file ∈ files, safeStorageName file.storageName = true) ∧ ∀ name ∈ missing, safeStorageName name = true := by
  constructor
  · intro file member
    obtain ⟨-, listed, -⟩ := (archived.files_iff file.storageName file.content).mp ⟨file, member, rfl, rfl⟩
    obtain ⟨reference, isReference, same⟩ := List.mem_map.mp listed
    exact same ▸ safe reference isReference
  · intro name gone
    obtain ⟨reference, isReference, same⟩ := List.mem_map.mp ((archived.missing_iff name).mp gone).1
    exact same ▸ safe reference isReference

theorem joinPath_singleton (part : Str) : joinPath [part] = part := by simp [joinPath]

theorem joinPath_attachment (storageName : Str) : joinPath [str "attachments", storageName] = attachmentName storageName := by
  simp [joinPath, attachmentName_eq]

theorem attachmentName_ne_manifest (storageName : Str) : attachmentName storageName ≠ str "manifest.json" := by
  rw [attachmentName_eq]
  intro same
  have listed : slash ∈ str "manifest.json" := same ▸ List.mem_append_right _ List.mem_cons_self
  exact absurd listed (by decide)

/-- The files of the manifest are those that were extracted. -/
theorem sameNames_manifest : sameNames
    ((([([str "manifest.json"], manifest), ([str "oveo.sqlite3"], snapshot)] ++
      files.map fun file => ([str "attachments", file.storageName], file.content)).map fun file => joinPath file.1).filter
        fun name => name != str "manifest.json") ((manifestFilesOf host snapshot files).map Prod.fst) = true := by
  obtain ⟨first, -, -⟩ := names_distinct
  rw [sameNames_iff]
  intro name
  simp only [List.mem_filter, List.mem_map, List.mem_append, List.mem_cons, List.not_mem_nil, or_false, manifestFilesOf, bne_iff_ne]
  constructor
  · rintro ⟨⟨file, (rfl | rfl) | ⟨staged, member, rfl⟩, rfl⟩, notManifest⟩
    · exact absurd (joinPath_singleton _) notManifest
    · exact ⟨_, .inr rfl, (joinPath_singleton _).symm⟩
    · exact ⟨_, .inl ⟨staged, member, rfl⟩, (joinPath_attachment _).symm⟩
  · rintro ⟨entry, ⟨staged, member, rfl⟩ | rfl, rfl⟩
    · exact ⟨⟨_, .inr ⟨staged, member, rfl⟩, joinPath_attachment _⟩, attachmentName_ne_manifest _⟩
    · exact ⟨⟨_, .inl (.inr rfl), joinPath_singleton _⟩, first.symm⟩

/-- The attachments extracted are those of the references that are not missing. -/
theorem sameNames_present (archived : Archived host source references files missing) :
    sameNames ((files.map fun file => ([file.storageName], file.content)).map fun file => joinPath file.1)
      ((references.filter fun reference => decide (reference.storageName ∉ missing)).map Reference.storageName) = true := by
  rw [sameNames_iff]
  intro name
  have extracted : ((files.map fun file => ([file.storageName], file.content)).map fun file => joinPath file.1) =
      files.map StagedFile.storageName := by
    rw [List.map_map]
    exact List.map_congr_left fun file _ => joinPath_singleton file.storageName
  rw [extracted]
  simp only [List.mem_map, List.mem_filter, decide_eq_true_eq]
  constructor
  · rintro ⟨file, member, rfl⟩
    obtain ⟨-, listed, -⟩ := (archived.files_iff file.storageName file.content).mp ⟨file, member, rfl, rfl⟩
    obtain ⟨reference, isReference, same⟩ := List.mem_map.mp listed
    exact ⟨reference, ⟨isReference, fun gone => ((archived.missing_iff _).mp gone).2 (same ▸ List.mem_map_of_mem member)⟩, same⟩
  · rintro ⟨reference, ⟨isReference, kept⟩, rfl⟩
    by_contra gone
    refine kept ((archived.missing_iff _).mpr ⟨List.mem_map_of_mem isReference, fun listed => gone ?_⟩)
    exact List.mem_map.mp listed

/-- The tree an archive makes passes the checks, unless attachments are missing and that is not allowed. -/
theorem validateRestoredTree_archived (bare : Ground ground destination) (isReferences : referencedAttachments host snapshot = .ok references)
    (sound : host.databaseIsSound snapshot = true) (archived : Archived host source references files missing)
    (safe : ∀ reference ∈ references, safeStorageName reference.storageName = true)
    (readsBack : host.loads (host.dumps (manifestOf host snapshot files missing)) = some (manifestOf host snapshot files missing))
    (allowIncomplete : Bool) :
    validateRestoredTree host
        (ground ++ restoredEntries destination (host.dumps (manifestOf host snapshot files missing)) snapshot files) destination allowIncomplete =
      if missing = [] ∨ allowIncomplete = true then .ok () else .error (.incomplete missing.length) := by
  obtain ⟨safeFiles, safeMissing⟩ := safe_of_archived safe archived
  generalize isManifestText : host.dumps (manifestOf host snapshot files missing) = text at readsBack
  have atManifest : (ground ++ restoredEntries destination text snapshot files).entryAt? (destination ++ [str "manifest.json"]) =
      some (.file text) := restored_present bare archived.nodup (by simp) (by simp [restoredEntries])
  have atDatabase : (ground ++ restoredEntries destination text snapshot files).entryAt? (destination ++ [str "oveo.sqlite3"]) =
      some (.file snapshot) := restored_present bare archived.nodup (by simp) (by simp [restoredEntries])
  have atAttachment (file : StagedFile) (member : file ∈ files) :
      (ground ++ restoredEntries destination text snapshot files).entryAt? (destination ++ [str "attachments", file.storageName]) =
        some (.file file.content) :=
    restored_present bare archived.nodup (by simp) (mem_restored_attachments.mpr ⟨file, member, rfl, rfl⟩)
  have isManifest : readManifest host (ground ++ restoredEntries destination text snapshot files) destination =
      .ok (manifestMembers host snapshot files missing) := by
    rw [readManifest, atManifest]
    simp only [readsBack]
    rfl
  have schema : (Json.get? (manifestMembers host snapshot files missing) (str "schema_version")).any (equalsNat host 1) = true := by
    rw [(get?_manifest host snapshot files missing).1]
    rfl
  have listed := @regularFiles_restored files destination ground text snapshot bare []
  rw [List.append_nil, filesBelow_top] at listed
  have attachments := @regularFiles_restored files destination ground text snapshot bare [str "attachments"]
  rw [filesBelow_attachments] at attachments
  have checked : checkFiles host (ground ++ restoredEntries destination text snapshot files) destination (manifestFilesOf host snapshot files) =
      .ok () := by
    refine checkFiles_eq_ok fun entry member => ?_
    rcases List.mem_append.mp member with isAttachment | isDatabase
    · obtain ⟨file, isFile, rfl⟩ := List.mem_map.mp isAttachment
      refine ⟨file.content, rfl, ?_⟩
      show FileTree.entryAt? _ (memberPath destination (attachmentName file.storageName)) = _
      rw [(plainName_attachmentName (safeFiles file isFile)).memberPath, pathParts_attachmentName (safeFiles file isFile)]
      exact atAttachment file isFile
    · rw [List.mem_singleton.mp isDatabase]
      have isTop := @topName (str "oveo.sqlite3") (by simp)
      exact ⟨snapshot, rfl, by rw [isTop.1.memberPath, isTop.2, atDatabase]⟩
  have isReferences' : restoredReferences host (ground ++ restoredEntries destination text snapshot files) destination = .ok references := by
    simp only [restoredReferences, atDatabase, sound, if_true, isReferences]
  have present := @presentReferences_eq_ok host references missing destination (ground ++ restoredEntries destination text snapshot files)
    fun reference member kept => by
      have archivedName : reference.storageName ∈ files.map StagedFile.storageName := by
        by_contra gone
        exact kept ((archived.missing_iff reference.storageName).mpr ⟨List.mem_map_of_mem member, gone⟩)
      obtain ⟨file, isFile, same⟩ := List.mem_map.mp archivedName
      obtain ⟨isThere, -, whole⟩ := (archived.files_iff file.storageName file.content).mp ⟨file, isFile, rfl, rfl⟩
      refine ⟨file.content, same ▸ atAttachment file isFile, ?_⟩
      have isWhole := whole reference member same.symm
      rwa [Source.hasIntact, ← same, isThere, Option.any_some] at isWhole
  have subset : missing.all (references.map Reference.storageName).contains = true := by
    refine List.all_eq_true.mpr fun name gone => ?_
    simpa using ((archived.missing_iff name).mp gone).1
  by_cases permitted : missing = [] ∨ allowIncomplete = true
  · rw [if_pos permitted]
    simp only [validateRestoredTree, isManifest, schema, manifestFiles_eq, expectedMissing_eq safeMissing, if_pos permitted, listed, checked,
      isReferences', present, attachments, sameNames_present archived, subset, sameNames_manifest, ok_bind_eq, Bool.not_true,
      Bool.false_eq_true, if_false]
    rfl
  · rw [if_neg permitted]
    simp only [validateRestoredTree, isManifest, schema, manifestFiles_eq, expectedMissing_eq safeMissing, if_neg permitted, ok_bind_eq,
      Bool.not_true, Bool.false_eq_true, if_false, error_bind_eq]

end

end Oveo.Restore
