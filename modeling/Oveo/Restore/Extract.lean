import Oveo.Restore.Archive

/-! # Restoring an archive

`restore_archive`: the members are checked, extracted one by one, and the tree they made is checked against
the manifest and the database.  An archive is whatever `tarfile` makes of a file, also one that was never
written by `create_archive`. -/

namespace Oveo.Restore

open Oveo.Lib Oveo.Docx Oveo.Attachments

/-! ## Members -/

/-- What `tarfile` reads of a file: its members, unless it cannot be read. -/
abbrev Archive := Option (List Member)

/-- `RESTORE_HEADROOM_BYTES`. -/
def restoreHeadroomBytes : Int := 256 * 1024 * 1024

/-- The names `_validate_member` allows. -/
def allowedName (name : Str) : Bool :=
  name == str "manifest.json" || name == str "oveo.sqlite3" || name == str "attachments" || (str "attachments/").isPrefixOf name

/-- `_validate_member` of each member, with the names seen. -/
def validateMembers : List Str → List Member → Except BackupError Unit
  | _, [] => .ok ()
  | seen, member :: members =>
    if member.name.isEmpty || isAbsolute member.name || (pathParts member.name).contains (str "..") || member.name.contains backslash then
      .error .unsafeMember
    else if seen.contains member.name then .error .duplicateMember
    else if !allowedName member.name || member.kind == .other then .error .unsupportedMember
    else validateMembers (member.name :: seen) members

/-- Where the operating system finds the parts of a path below a base: `..` leads up. -/
def resolve (base : List Str) (parts : List Str) : List Str :=
  parts.foldl (fun path part => if part = str ".." then path.dropLast else path ++ [part]) base

/-- `joinpath`: an absolute path replaces the base. -/
def memberPath (destination : List Str) (name : Str) : List Str :=
  resolve (if isAbsolute name then [] else destination) (pathParts name)

/-- The parent of the path of a member. -/
def memberParent (destination : List Str) (name : Str) : List Str :=
  resolve (if isAbsolute name then [] else destination) (pathParts name).dropLast

/-- The loop of `_extract_archive` over the members, with the tree it leaves. -/
def extractMembers (destination : List Str) : Tree → List Member → Except BackupError Unit × Tree
  | tree, [] => (.ok (), tree)
  | tree, member :: members =>
    if member.kind = .directory then
      match tree.makeDirectories [] (memberPath destination member.name) with
      | (tree, true) => extractMembers destination tree members
      | (tree, false) => (.error .raised, tree)
    else
      match tree.makeDirectories [] (memberParent destination member.name) with
      | (tree, false) => (.error .raised, tree)
      | (tree, true) =>
        match tree.createFile (memberPath destination member.name) member.data with
        | (tree, false) => (.error .raised, tree)
        | (tree, true) => if member.readable then extractMembers destination tree members else (.error .raised, tree)

/-- `_extract_archive`. -/
def extractArchive (free : Int) (archive : Archive) (destination : List Str) (tree : Tree) : Except BackupError Unit × Tree :=
  match tree.makeDirectories [] destination with
  | (tree, false) => (.error .raised, tree)
  | (tree, true) =>
    match archive with
    | none => (.error .raised, tree)
    | some members =>
      match validateMembers [] members with
      | .error error => (.error error, tree)
      | .ok () =>
        if free < (members.map Member.size).sum + restoreHeadroomBytes then (.error .noRoom, tree)
        else extractMembers destination tree members

/-! ## The restored tree -/

/-- `value == number` of a JSON value. -/
def equalsNat (host : Host) (number : Nat) : Json → Bool
  | .int value => decide (value = (number : Int))
  | .bool value => number == if value then 1 else 0
  | .float literal => host.floatEquals literal number
  | .null | .str _ | .arr _ | .obj _ => false

/-- `bool(value)`. -/
def isTruthy (host : Host) : Json → Bool
  | .null => false
  | .bool value => value
  | .int value => value != 0
  | .float literal => !host.floatEquals literal 0
  | .str text => !text.isEmpty
  | .arr items => !items.isEmpty
  | .obj members => !members.isEmpty

def readManifest (host : Host) (tree : Tree) (destination : List Str) : Except BackupError (List (Str × Json)) :=
  match tree.entryAt? (destination ++ [str "manifest.json"]) with
  | some (.file content) =>
    match host.loads content with
    | some (.obj members) => .ok members
    | some _ => .error .raised
    | none => .error .manifestInvalid
  | _ => .error .manifestInvalid

def manifestFiles (manifest : List (Str × Json)) : Except BackupError (List (Str × Json)) :=
  match Json.get? manifest (str "files") with
  | some (.obj files) => if (Json.get? files (str "oveo.sqlite3")).isSome then .ok files else .error .noDatabaseEntry
  | _ => .error .noDatabaseEntry

def safeName? : Json → Option Str
  | .str name => if safeStorageName name then some name else none
  | _ => none

/-- The attachments the manifest of an incomplete backup says are missing. -/
def expectedMissing (host : Host) (manifest : List (Str × Json)) (allowIncomplete : Bool) : Except BackupError (List Str) :=
  let missing := (Json.get? manifest (str "missing_attachments")).getD (.arr [])
  match (Json.get? manifest (str "complete")).getD (.bool true) with
  | .bool true => if isTruthy host missing then .error .missingListed else .ok []
  | _ =>
    match missing with
    | .arr items =>
      match items.isEmpty, items.mapM safeName? with
      | false, some names => if allowIncomplete then .ok names else .error (.incomplete names.length)
      | _, _ => .error .missingNotListed
    | _ => .error .missingNotListed

/-- `==` of two sets. -/
def sameNames (first second : List Str) : Bool := first.all second.contains && second.all first.contains

/-- The loop over the files of the manifest. -/
def checkFiles (host : Host) (tree : Tree) (destination : List Str) : List (Str × Json) → Except BackupError Unit
  | [] => .ok ()
  | (name, .obj metadata) :: files =>
    match tree.entryAt? (memberPath destination name) with
    | some (.file content) =>
      if !(Json.get? metadata (str "size")).any (equalsNat host content.length) then .error (.sizeMismatch name)
      else
        match Json.get? metadata (str "sha256") with
        | some (.str digest) => if host.sha256 content = digest then checkFiles host tree destination files else .error (.digestMismatch name)
        | _ => .error (.digestMismatch name)
    | _ => .error .raised
  | _ :: _ => .error .invalidMetadata

/-- `_check_database` and `_referenced_attachments`. -/
def restoredReferences (host : Host) (tree : Tree) (destination : List Str) : Except BackupError (List Reference) :=
  match tree.entryAt? (destination ++ [str "oveo.sqlite3"]) with
  | some (.file content) => if host.databaseIsSound content then referencedAttachments host content else .error .databaseCheck
  | _ => .error .raised

/-- The loop over the references: the names that are there. -/
def presentReferences (host : Host) (tree : Tree) (destination : List Str) (missing : List Str) : List Reference → Except BackupError (List Str)
  | [] => .ok []
  | reference :: references =>
    if reference.storageName ∈ missing then presentReferences host tree destination missing references
    else
      match tree.entryAt? (destination ++ [str "attachments", reference.storageName]) with
      | some (.file content) =>
        if intact host content reference then do
          let present ← presentReferences host tree destination missing references
          return reference.storageName :: present
        else .error (.referenceMissing reference.storageName)
      | _ => .error (.referenceMissing reference.storageName)

/-- `validate_restored_tree`. -/
def validateRestoredTree (host : Host) (tree : Tree) (destination : List Str) (allowIncomplete : Bool) : Except BackupError Unit := do
  let manifest ← readManifest host tree destination
  if !(Json.get? manifest (str "schema_version")).any (equalsNat host 1) then throw .schemaVersion
  let files ← manifestFiles manifest
  let missing ← expectedMissing host manifest allowIncomplete
  let restored ← regularFiles tree destination
  if !sameNames (restored.filter fun name => name != str "manifest.json") (files.map Prod.fst) then throw .membership
  checkFiles host tree destination files
  let references ← restoredReferences host tree destination
  let present ← presentReferences host tree destination missing references
  let attachments ← regularFiles tree (destination ++ [str "attachments"])
  if !sameNames attachments present then throw .unreferencedFiles
  if !missing.all (references.map Reference.storageName).contains then throw .unreferencedMissing

/-- `restore_archive`, with the tree it leaves. -/
def restoreArchive (host : Host) (free : Int) (archive : Archive) (destination : List Str) (allowIncomplete : Bool) (tree : Tree) :
    Except BackupError Unit × Tree :=
  if destination.isEmpty || (tree.entryAt? destination).isSome then (.error .destinationExists, tree)
  else
    let (extracted, restored) := extractArchive free archive destination tree
    match extracted.bind fun () => validateRestoredTree host restored destination allowIncomplete with
    | .ok () => (.ok (), restored)
    | .error error =>
      (.error error, if (restored.entryAt? destination).isSome then restored.removeBelow destination else restored)

end Oveo.Restore
