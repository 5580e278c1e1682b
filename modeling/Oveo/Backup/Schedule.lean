import Oveo.Attachments.Upload

/-! # A backup beside the running application

Uploads, conversation deletions and one run of `create_archive` share the database, its write lock
and the attachment directory.  Each takes its steps in any order with those of the others; reading a
directory is a step for each of its entries.  Links and names that are no UUID do not occur in the
directory, which only `persist_attachment` writes to. -/

namespace Oveo.Backup

open Oveo.Lib Oveo.Store Oveo.Attachments

/-! ## `delete_thread` -/

inductive DeletionStage where
  /-- Before the storage names are read. -/
  | looking
  | found (names : List Id)
  /-- The transaction has the write lock. -/
  | deleting (names : List Id)
  /-- The rows are gone; these files are still to be unlinked. -/
  | unlinking (names : List Id)
  | finished
deriving DecidableEq, Repr

structure Deletion where
  threadId : Id
  stage : DeletionStage
deriving DecidableEq, Repr

inductive DeletionEvent where
  | proceed
  /-- An error or a cancellation; an error of `unlink` is ignored. -/
  | fault
  /-- The commit takes effect and raises or is cancelled all the same. -/
  | faultAfterCommit
deriving DecidableEq, Repr

def Storage.deleteThread (storage : Storage) (threadId : Id) : Storage :=
  { storage with rows := storage.rows.filter fun row => row.threadId != threadId }

def Deletion.step (deletion : Deletion) (storage : Storage) : DeletionEvent → Option (Storage × Deletion)
  | .proceed =>
    match deletion.stage with
    | .looking =>
      let names := (storage.rows.filter fun row => row.threadId == deletion.threadId).map Row.name
      some (storage, { deletion with stage := .found names })
    | .found names =>
      if storage.locked then none else some ({ storage with locked := true }, { deletion with stage := .deleting names })
    | .deleting names =>
      some ({ Storage.deleteThread storage deletion.threadId with locked := false }, { deletion with stage := .unlinking names })
    | .unlinking (name :: names) => some (storage.unlink name, { deletion with stage := .unlinking names })
    | .unlinking [] => some (storage, { deletion with stage := .finished })
    | .finished => none
  | .fault =>
    match deletion.stage with
    | .looking | .found _ => some (storage, { deletion with stage := .finished })
    | .deleting _ => some ({ storage with locked := false }, { deletion with stage := .finished })
    | .unlinking (_ :: names) => some (storage, { deletion with stage := .unlinking names })
    | .unlinking [] | .finished => none
  | .faultAfterCommit =>
    match deletion.stage with
    | .deleting _ =>
      some ({ Storage.deleteThread storage deletion.threadId with locked := false }, { deletion with stage := .finished })
    | _ => none

/-! ## `create_archive` -/

inductive BackupStage where
  /-- In `BEGIN IMMEDIATE`. -/
  | locking
  | copying
  /-- `_stage_referenced` goes through the references. -/
  | staging (todo : List Row)
  /-- `os.walk` reads the entries that were there when it began. -/
  | scanning (todo found : List Id)
  /-- `_regular_files` looks at each file found. -/
  | counting (todo : List Id)
  /-- The lock is released; `_verify_staged` goes through the references. -/
  | verifying (todo : List Row)
  | archived
  | failed
deriving DecidableEq, Repr

structure ArchiveRun where
  allowIncomplete : Bool
  /-- History only: did every row have its intact file when the backup began? -/
  intactBefore : Bool
  /-- The rows of the database copy. -/
  references : List Row
  /-- The files staged for the archive. -/
  staged : List File
  missing : List Id
  stage : BackupStage
deriving DecidableEq, Repr

section

variable (sha256 : Bytes → Bytes)

/-- `_intact`, of a file that is there. -/
def isIntact (row : Row) (file : File) : Bool := file.content.length == row.byteCount && sha256 file.content == row.sha256

/-- Does every row have its file, intact? -/
def rowsIntact (storage : Storage) : Bool :=
  storage.rows.all fun row => (storage.filesOf row.name).head?.any (isIntact sha256 row)

def ArchiveRun.step (backup : ArchiveRun) (storage : Storage) : Option (Storage × ArchiveRun) :=
  match backup.stage with
  | .locking =>
    if storage.locked then none else some ({ storage with locked := true }, { backup with stage := .copying })
  | .copying => some (storage, { backup with references := storage.rows, stage := .staging storage.rows })
  | .staging (row :: todo) =>
    match (storage.filesOf row.name).head? with
    | some file => some (storage, { backup with staged := backup.staged ++ [file], stage := .staging todo })
    | none => some (storage, { backup with missing := backup.missing ++ [row.name], stage := .staging todo })
  | .staging [] => some (storage, { backup with stage := .scanning (storage.files.map File.name) [] })
  | .scanning (name :: todo) found =>
    let found := if (storage.filesOf name).isEmpty then found else found ++ [name]
    some (storage, { backup with stage := .scanning todo found })
  | .scanning [] found => some (storage, { backup with stage := .counting found })
  | .counting (name :: todo) =>
    -- `lstat` raises `FileNotFoundError`, and the lock is released on the way out
    if (storage.filesOf name).isEmpty then some ({ storage with locked := false }, { backup with stage := .failed })
    else some (storage, { backup with stage := .counting todo })
  | .counting [] => some ({ storage with locked := false }, { backup with stage := .verifying backup.references })
  | .verifying (row :: todo) =>
    if backup.missing.contains row.name then some (storage, { backup with stage := .verifying todo })
    else if (backup.staged.find? fun file => file.name == row.name).any (isIntact sha256 row) then
      some (storage, { backup with stage := .verifying todo })
    else
      some (storage, { backup with
        staged := backup.staged.filter fun file => file.name != row.name
        missing := backup.missing ++ [row.name]
        stage := .verifying todo })
  | .verifying [] =>
    some (storage, { backup with
      stage := if backup.missing.isEmpty || backup.allowIncomplete then .archived else .failed })
  | .archived | .failed => none

end

/-! ## The site -/

structure Site where
  storage : Storage
  uploads : List Upload
  deletions : List Deletion
  backup : Option ArchiveRun
deriving DecidableEq, Repr

inductive SiteAction where
  | submit (name threadId : Id) (content : Bytes)
  | upload (index : Nat) (event : UploadEvent)
  | delete (threadId : Id)
  | deletion (index : Nat) (event : DeletionEvent)
  | startBackup (allowIncomplete : Bool)
  | backup
deriving DecidableEq, Repr

/-- The names a deletion has read. -/
def DeletionStage.names : DeletionStage → List Id
  | .found names | .deleting names | .unlinking names => names
  | .looking | .finished => []

/-- `new_id()` never returns an id twice. -/
def Site.isFreshName (s : Site) (name : Id) : Bool :=
  Attachments.isFreshName s.storage s.uploads name && s.deletions.all fun deletion => !deletion.stage.names.contains name

def siteStep (sha256 : Bytes → Bytes) (s : Site) : SiteAction → Option Site
  | .submit name threadId content =>
    if s.isFreshName name then some { s with uploads := s.uploads ++ [{ name, threadId, content, stage := .checking }] }
    else none
  | .upload index event => do
    let upload ← s.uploads[index]?
    let (storage, upload) ← upload.step sha256 s.storage event
    return { s with storage, uploads := s.uploads.set index upload }
  | .delete threadId => some { s with deletions := s.deletions ++ [{ threadId, stage := .looking }] }
  | .deletion index event => do
    let deletion ← s.deletions[index]?
    let (storage, deletion) ← deletion.step s.storage event
    return { s with storage, deletions := s.deletions.set index deletion }
  | .startBackup allowIncomplete =>
    if s.backup.isSome then none
    else
      some { s with
        backup := some
          { allowIncomplete, intactBefore := rowsIntact sha256 s.storage, references := [], staged := [], missing := [],
            stage := .locking } }
  | .backup => do
    let backup ← s.backup
    let (storage, backup) ← backup.step sha256 s.storage
    return { s with storage, backup := some backup }

/-- Rows and files may be there already; storage names are unique. -/
def site (sha256 : Bytes → Bytes) : Machine Site SiteAction where
  init s :=
    s.uploads = [] ∧ s.deletions = [] ∧ s.backup = none ∧ s.storage.locked = false ∧ (s.storage.rows.map Row.name).Nodup
  step := siteStep sha256

/-! ## Undisturbed runs -/

/-- The files `_regular_files` has found and not looked at yet. -/
def Site.awaited (s : Site) : List Id :=
  match s.backup.map ArchiveRun.stage with
  | some (.scanning _ found) => found
  | some (.counting todo) => todo
  | _ => []

/-- The file an action unlinks. -/
def Site.unlinked? (s : Site) : SiteAction → Option Id
  | .upload index event =>
    match s.uploads[index]? with
    | some upload => if (upload.stage.step event).map Prod.snd = some .unlink then some upload.name else none
    | none => none
  | .deletion index .proceed =>
    match (s.deletions[index]?).map Deletion.stage with
    | some (.unlinking (name :: _)) => some name
    | _ => none
  | _ => none

/-- No commit of an upload raises or is cancelled after it took effect. -/
def Site.commitReturns (s : Site) : SiteAction → Bool
  | .upload index event => (s.uploads[index]?).all fun upload => !(upload.stage == .committed && event == .fault)
  | _ => true

/-- No file is unlinked between the walk's finding it and its looking at it, and every commit of an
upload that takes effect returns. -/
def Undisturbed (s : Site) (action : SiteAction) : Prop :=
  (s.unlinked? action).all (fun name => !s.awaited.contains name) = true ∧ s.commitReturns action = true

instance (s : Site) (action : SiteAction) : Decidable (Undisturbed s action) := inferInstanceAs (Decidable (_ ∧ _))

end Oveo.Backup
