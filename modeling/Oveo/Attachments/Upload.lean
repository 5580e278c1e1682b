import Oveo.Lib.Machine
import Oveo.Store.Rows

/-! # An uploaded file and its row

`submit_turn` with an attachment, one statement at a time as far as they touch the attachment
directory, the table of attachments or SQLite's write lock.  An error or a cancellation may land at
every stage; only the ones a statement itself handles are told apart. -/

namespace Oveo.Attachments

open Oveo.Lib Oveo.Store

abbrev Bytes := List UInt8

/-- The row of an attachment.  Its storage name is its id and `.docx`. -/
structure Row where
  name : Id
  threadId : Id
  byteCount : Nat
  sha256 : Bytes
deriving DecidableEq, Repr

/-- A regular file of the attachment directory. -/
structure File where
  name : Id
  content : Bytes
deriving DecidableEq, Repr

/-- The committed rows, the directory, and whether someone has the write lock. -/
structure Storage where
  rows : List Row
  files : List File
  locked : Bool
deriving DecidableEq, Repr

/-- The files of one name: none, or the one file. -/
def Storage.filesOf (storage : Storage) (name : Id) : List File := storage.files.filter fun file => file.name == name

def Storage.rowsOf (storage : Storage) (name : Id) : List Row := storage.rows.filter fun row => row.name == name

/-- `unlink(missing_ok=True)`. -/
def Storage.unlink (storage : Storage) (name : Id) : Storage :=
  { storage with files := storage.files.filter fun file => file.name != name }

/-! ## The call -/

/-- How far a call is.  `staged` says whether `staged_files` holds its file. -/
inductive UploadStage where
  /-- Nothing is written yet. -/
  | checking
  /-- The transaction has the write lock, and the message is inserted. -/
  | writing
  /-- `persist_attachment` has created the file and writes to it. -/
  | persisting
  | staged
  /-- The attachment and the generation are added. -/
  | inserted
  /-- The database has applied the commit, which has not returned yet. -/
  | committed
  /-- `staged_files` is cleared. -/
  | cleared
  /-- An error passes through the session, which rolls back. -/
  | failing (staged conflict : Bool)
  /-- The session is closed; a conflict is still to be resolved. -/
  | closed (staged conflict : Bool)
  | exited
deriving DecidableEq, Repr

inductive UploadEvent where
  | proceed
  /-- An error or a cancellation. -/
  | fault
  /-- An `IntegrityError`. -/
  | conflict
deriving DecidableEq, Repr

/-- What a step does to the storage. -/
inductive Effect where
  | nothing
  | lock
  | create
  | write
  | commit
  | rollback
  | unlink
deriving DecidableEq, Repr

/-- The next stage of `submit_turn`, and what it does to the storage on the way. -/
def UploadStage.step : UploadStage → UploadEvent → Option (UploadStage × Effect)
  | .checking, .proceed => some (.writing, .lock)
  -- an earlier generation has the key, or a check fails
  | .checking, .fault => some (.exited, .nothing)
  | .writing, .proceed => some (.persisting, .create)
  | .writing, .fault => some (.failing false false, .nothing)
  | .writing, .conflict => some (.failing false true, .nothing)
  | .persisting, .proceed => some (.staged, .write)
  -- `persist_attachment` unlinks what it could not write
  | .persisting, .fault => some (.failing false false, .unlink)
  | .staged, .proceed => some (.inserted, .nothing)
  | .staged, .fault => some (.failing true false, .nothing)
  | .staged, .conflict => some (.failing true true, .nothing)
  | .inserted, .proceed => some (.committed, .commit)
  | .inserted, .fault => some (.failing true false, .nothing)
  | .inserted, .conflict => some (.failing true true, .nothing)
  | .committed, .proceed => some (.cleared, .nothing)
  -- the commit took effect, and raises or is cancelled all the same
  | .committed, .fault => some (.closed true false, .nothing)
  | .cleared, .proceed | .cleared, .fault => some (.exited, .nothing)
  | .failing isStaged conflict, .proceed => some (.closed isStaged conflict, .rollback)
  | .closed isStaged true, .proceed | .closed isStaged true, .fault => some (.closed isStaged false, .nothing)
  | .closed true false, .proceed => some (.exited, .unlink)
  | .closed false false, .proceed => some (.exited, .nothing)
  | _, _ => none

structure Upload where
  name : Id
  threadId : Id
  content : Bytes
  stage : UploadStage
deriving DecidableEq, Repr

section

variable (sha256 : Bytes → Bytes)

def Upload.row (upload : Upload) : Row :=
  { name := upload.name, threadId := upload.threadId, byteCount := upload.content.length, sha256 := sha256 upload.content }

/-- The storage after one step of a call; only the lock can keep it waiting. -/
def Upload.apply (upload : Upload) (storage : Storage) : Effect → Option Storage
  | .nothing => some storage
  | .lock => if storage.locked then none else some { storage with locked := true }
  | .create => some { storage with files := ⟨upload.name, []⟩ :: storage.files }
  | .write =>
    some { storage with files := storage.files.map fun file =>
      if file.name = upload.name then { file with content := upload.content } else file }
  | .commit => some { storage with rows := storage.rows ++ [upload.row sha256], locked := false }
  | .rollback => some { storage with locked := false }
  | .unlink => some (storage.unlink upload.name)

def Upload.step (upload : Upload) (storage : Storage) (event : UploadEvent) : Option (Storage × Upload) := do
  let (stage, effect) ← upload.stage.step event
  let storage ← upload.apply sha256 storage effect
  return (storage, { upload with stage })

end

/-! ## Any number of calls -/

structure UploadState where
  storage : Storage
  uploads : List Upload
deriving DecidableEq, Repr

inductive UploadAction where
  | submit (name threadId : Id) (content : Bytes)
  | step (upload : Nat) (event : UploadEvent)
deriving DecidableEq, Repr

/-- `new_id()` never returns an id twice. -/
def isFreshName (storage : Storage) (uploads : List Upload) (name : Id) : Bool :=
  (storage.filesOf name).isEmpty && (storage.rowsOf name).isEmpty && !(uploads.any fun upload => upload.name == name)

def uploadStep (sha256 : Bytes → Bytes) (s : UploadState) : UploadAction → Option UploadState
  | .submit name threadId content =>
    if isFreshName s.storage s.uploads name then
      some { s with uploads := s.uploads ++ [{ name, threadId, content, stage := .checking }] }
    else none
  | .step index event => do
    let upload ← s.uploads[index]?
    let (storage, upload) ← upload.step sha256 s.storage event
    return { storage, uploads := s.uploads.set index upload }

/-- Files and rows under other names may be there already. -/
def uploads (sha256 : Bytes → Bytes) : Machine UploadState UploadAction where
  init s := s.uploads = [] ∧ s.storage.locked = false
  step := uploadStep sha256

end Oveo.Attachments
