import Mathlib.Data.List.Lex
import Mathlib.Data.List.Sort
import Mathlib.Order.Fin.Basic
import Oveo.Attachments.Upload
import Oveo.Docx.Blocks
import Oveo.Lib.FileTree
import Oveo.Lib.Json

/-! # Writing an archive

`create_archive` of `backup_tool.py`, as the members `tarfile` writes for it.  While the write lock is
held nothing changes, so the attachment directory is one tree.  SQLite, SHA-256 and the text of a JSON
value are parameters. -/

namespace Oveo.Restore

open Oveo.Lib Oveo.Docx Oveo.Attachments

/-- The columns of an attachment row; the name is `none` where the column holds no text. -/
structure AttachmentRow where
  storageName : Option Str
  byteCount : Int
  sha256 : Str

/-- What the tool uses of its host. -/
structure Host where
  sha256 : Bytes → Str
  /-- `quick_check` and `foreign_key_check`. -/
  databaseIsSound : Bytes → Bool
  /-- The rows of `attachments`, if there is such a table. -/
  attachmentRows : Bytes → Option (List AttachmentRow)
  /-- `json.dumps` with a newline, as UTF-8, and `json.loads`. -/
  dumps : Json → Bytes
  loads : Bytes → Option Json
  /-- `==` of a float literal and an integer. -/
  floatEquals : Str → Nat → Bool
  /-- `datetime.now` in ISO format. -/
  createdAt : Str

abbrev Tree := FileTree Str Bytes

/-! ## Names -/

def slash : CodePoint := codePoint '/'

def backslash : CodePoint := codePoint '\\'

/-- `PurePosixPath(text).parts`, without the root of an absolute path. -/
def pathParts (text : Str) : List Str := (text.splitOn slash).filter fun part => !part.isEmpty && part != str "."

def isAbsolute (text : Str) : Bool := text.head? == some slash

/-- `as_posix` of a relative path. -/
def joinPath (parts : List Str) : Str := [slash].intercalate parts

/-- `_safe_storage_name`. -/
def safeStorageName (value : Str) : Bool :=
  !value.isEmpty && (pathParts value).length + (if isAbsolute value then 1 else 0) == 1 && value != str "." && value != str ".." &&
    !value.contains slash && !value.contains backslash

/-! ## References -/

structure Reference where
  storageName : Str
  byteCount : Int
  sha256 : Str
deriving DecidableEq, Repr

inductive BackupError where
  | notADatabaseFile
  | archiveExists
  | tableMissing
  | unsafeStorageName
  | notADirectory
  | notARegularFile
  | databaseCheck
  | missingAttachments (count : Nat)
  | unsafeMember
  | duplicateMember
  | unsupportedMember
  | noRoom
  | manifestInvalid
  | schemaVersion
  | noDatabaseEntry
  | missingNotListed
  | incomplete (count : Nat)
  | missingListed
  | membership
  | invalidMetadata
  | sizeMismatch (name : Str)
  | digestMismatch (name : Str)
  | referenceMissing (storageName : Str)
  | unreferencedFiles
  | unreferencedMissing
  | destinationExists
  /-- An error that is no `BackupError`. -/
  | raised
deriving DecidableEq, Repr

/-- `_referenced_attachments`. -/
def referencedAttachments (host : Host) (database : Bytes) : Except BackupError (List Reference) :=
  match host.attachmentRows database with
  | none => .error .tableMissing
  | some rows => rows.mapM fun row =>
    match row.storageName with
    | some storageName =>
      if safeStorageName storageName then .ok { storageName, byteCount := row.byteCount, sha256 := row.sha256 }
      else .error .unsafeStorageName
    | none => .error .unsafeStorageName

/-- `_intact`, of a regular file. -/
def intact (host : Host) (content : Bytes) (reference : Reference) : Bool :=
  decide ((content.length : Int) = reference.byteCount) && host.sha256 content == reference.sha256

/-- `_regular_files`. -/
def regularFiles (tree : Tree) (root : List Str) : Except BackupError (List Str) :=
  if tree.hasOther root then .error .notARegularFile else .ok ((tree.filesBelow root).map fun file => joinPath file.1)

/-! ## Staging -/

inductive AttachmentsRoot where
  | absent
  /-- A link, or no directory. -/
  | notADirectory
  | directory (entries : Tree)

/-- What a backup is made of. -/
structure Source where
  databaseIsFile : Bool
  archiveExists : Bool
  /-- What `Connection.backup` copies under the lock. -/
  snapshot : Bytes
  attachments : AttachmentsRoot
  /-- The inode of each file in the attachment directory. -/
  inode : Str → Nat
  /-- Can `_link_or_copy` link the file, or does it copy? -/
  canLink : Str → Bool

/-- The inode of a staged file: that of the file it is linked to, or one of its own. -/
inductive StagedInode where
  | linked (inode : Nat)
  | copied (storageName : Str)
deriving DecidableEq, Repr

def Source.file? (source : Source) (storageName : Str) : Option Bytes :=
  match source.attachments with
  | .directory entries =>
    match entries.entryAt? [storageName] with
    | some (.file content) => some content
    | _ => none
  | .absent | .notADirectory => none

def Source.stagedInode (source : Source) (storageName : Str) : StagedInode :=
  if source.canLink storageName then .linked (source.inode storageName) else .copied storageName

structure StagedFile where
  storageName : Str
  content : Bytes
  inode : StagedInode
deriving DecidableEq, Repr

/-- The loop of `_stage_referenced`, with the files staged and the names that are not there so far. -/
def stageReferenced (source : Source) : List StagedFile → List Str → List Reference → Except BackupError (List StagedFile × List Str)
  | staged, absent, [] => .ok (staged, absent)
  | staged, absent, reference :: references =>
    match source.file? reference.storageName with
    | none => stageReferenced source staged (absent ++ [reference.storageName]) references
    | some content =>
      -- a second row with the name finds its file staged
      if staged.any fun file => file.storageName == reference.storageName then .error .raised
      else stageReferenced source
        (staged ++ [{ storageName := reference.storageName, content, inode := source.stagedInode reference.storageName }]) absent references

/-- `sorted` of a set of names. -/
def sortedNames (names : List Str) : List Str := names.dedup.insertionSort fun first second => first ≤ second

/-- The loop of `_verify_staged`. -/
def verifyStaged (host : Host) (absent : List Str) : List StagedFile → List Str → List Reference → Except BackupError (List StagedFile × List Str)
  | staged, missing, [] => .ok (staged, missing)
  | staged, missing, reference :: references =>
    if reference.storageName ∈ absent then verifyStaged host absent staged missing references
    else
      match staged.find? fun file => file.storageName == reference.storageName with
      | none => .error .raised
      | some file =>
        if intact host file.content reference then verifyStaged host absent staged missing references
        else verifyStaged host absent (staged.filter fun file => file.storageName != reference.storageName)
          (missing ++ [reference.storageName]) references

/-! ## The manifest -/

def fileMetadata (host : Host) (content : Bytes) : Json :=
  .obj [(str "sha256", .str (host.sha256 content)), (str "size", .int content.length)]

/-- The files of a manifest, in the order of their names. -/
def manifestFilesOf (host : Host) (snapshot : Bytes) (files : List StagedFile) : List (Str × Json) :=
  (files.map fun file => (str "attachments/" ++ file.storageName, fileMetadata host file.content)) ++
    [(str "oveo.sqlite3", fileMetadata host snapshot)]

/-- The members of the manifest, in the order of their keys. -/
def manifestMembers (host : Host) (snapshot : Bytes) (files : List StagedFile) (missing : List Str) : List (Str × Json) :=
  [(str "complete", .bool missing.isEmpty), (str "created_at", .str host.createdAt),
    (str "files", .obj (manifestFilesOf host snapshot files))] ++
  (if missing.isEmpty then [] else [(str "missing_attachments", .arr (missing.map .str))]) ++ [(str "schema_version", .int 1)]

def manifestOf (host : Host) (snapshot : Bytes) (files : List StagedFile) (missing : List Str) : Json :=
  .obj (manifestMembers host snapshot files missing)

/-! ## Members -/

inductive MemberKind where
  | directory
  | regular
  /-- A link, a device or a pipe. -/
  | other
deriving DecidableEq, Repr

/-- A member of an archive, with the bytes that can be read of it. -/
structure Member where
  name : Str
  kind : MemberKind
  size : Int
  data : Bytes
  /-- Can it be read to its end? -/
  readable : Bool
deriving DecidableEq, Repr

def regularMember (name : Str) (content : Bytes) : Member :=
  { name, kind := .regular, size := content.length, data := content, readable := true }

/-- `TarFile.add` of the staged directory: a file whose inode is in the archive already is added as a
hard link. -/
def addStaged : List StagedInode → List StagedFile → List Member
  | _, [] => []
  | seen, file :: files =>
    let name := str "attachments/" ++ file.storageName
    (if file.inode ∈ seen then { name, kind := .other, size := 0, data := [], readable := true } else regularMember name file.content) ::
      addStaged (file.inode :: seen) files

structure BackupResult where
  missing : List Str
  unreferenced : Nat
deriving DecidableEq, Repr

def sortedFiles (files : List StagedFile) : List StagedFile :=
  files.insertionSort fun first second => first.storageName ≤ second.storageName

/-- The number of files no row references. -/
def countUnreferenced (source : Source) (references : List Reference) : Except BackupError Nat :=
  match source.attachments with
  | .directory entries => do
    let names ← regularFiles entries []
    return (names.filter fun name => !(references.map Reference.storageName).contains name).length
  | .absent | .notADirectory => .ok 0

/-- `create_archive`. -/
def createArchive (host : Host) (source : Source) (allowIncomplete : Bool) : Except BackupError (List Member × BackupResult) := do
  if !source.databaseIsFile then throw .notADatabaseFile
  if source.archiveExists then throw .archiveExists
  let references ← referencedAttachments host source.snapshot
  if source.attachments matches .notADirectory then throw .notADirectory
  let (staged, absent) ← stageReferenced source [] [] references
  let unreferenced ← countUnreferenced source references
  if !host.databaseIsSound source.snapshot then throw .databaseCheck
  let (verified, damaged) ← verifyStaged host absent staged [] references
  let missing := sortedNames (absent ++ damaged)
  if !missing.isEmpty && !allowIncomplete then throw (.missingAttachments missing.length)
  let files := sortedFiles verified
  return ([regularMember (str "manifest.json") (host.dumps (manifestOf host source.snapshot files missing)),
      regularMember (str "oveo.sqlite3") source.snapshot,
      { name := str "attachments", kind := .directory, size := 0, data := [], readable := true }] ++ addStaged [] files,
    { missing, unreferenced })

end Oveo.Restore
