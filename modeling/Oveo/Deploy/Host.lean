import Mathlib.Data.List.AList
import Oveo.Lib.Machine

/-! # The host

What `oveo-deploy.sh` and `oveo-restore.sh` act on: the directories `/var/lib/oveo` and
`/var/lib/oveo.*`, `deploy.env`, and the container of `compose.yml`.  Every external command takes
effect or not, and reports success or not, as its `Outcome` says. -/

namespace Oveo.Deploy

abbrev Revision := Nat

/-- What a user was told is stored. -/
abbrev Write := Nat

structure Image where
  digest : Nat
  /-- Its migrations, the head first. -/
  head : Revision
  older : List Revision
  /-- It has the command `schema-revisions`. -/
  lists : Bool
  /-- It has `MaintenanceGate`. -/
  gated : Bool
deriving DecidableEq, Repr

def Image.revisions (image : Image) : List Revision := image.head :: image.older

/-- `oveo.sqlite3` and the attachments it refers to. -/
structure Database where
  revision : Revision
  writes : List Write
deriving DecidableEq, Repr

structure Directory where
  database : Option Database
  /-- `maintenance-mode`. -/
  marker : Bool
deriving DecidableEq, Repr

def Directory.writes (directory : Directory) : List Write :=
  match directory.database with
  | some database => database.writes
  | none => []

def Directory.revision? (directory : Directory) : Option Revision := directory.database.map Database.revision

inductive Name where
  /-- `/var/lib/oveo`. -/
  | live
  | predeploy (stamp : Nat)
  | failedDeploy (stamp : Nat)
  | restore (stamp : Nat)
  | preRestore (stamp : Nat)
  | failedRestore (stamp : Nat)
deriving DecidableEq, Repr

structure Container where
  image : Image
  /-- The name its data directory has now: a bind mount follows a rename. -/
  mount : Name
  /-- Its entry point migrated the database, and the application answers. -/
  serving : Bool
  /-- It has taken a user's request, and may still be working for it. -/
  busy : Bool
deriving DecidableEq, Repr

def Container.moved (source target : Name) (container : Container) : Container :=
  if container.mount = source then { container with mount := target } else container

/-- The variables of `oveo-deploy`. -/
structure Deployment where
  image : Image
  previous : Option Image
  stamp : Nat
  currentRevision : Option Revision
  migrating : Bool
deriving DecidableEq, Repr

/-- The command `oveo-deploy` runs next. -/
inductive DeployPoint where
  | prepared
  | closing
  | stopping
  | snapshotting
  /-- It removes the marker after a step that failed, and may restart the running release. -/
  | reopening (restart : Bool)
  | restarting
  | starting
  | launching
  | checking
  | opening
  | stoppingCandidate
  | settingAside
  | puttingBack
  /-- `rollback`. -/
  | pulling
  | rewriting
  | relaunching
  | rechecking
deriving DecidableEq, Repr

/-- The command `oveo-restore --live` runs next. -/
inductive RestorePoint where
  | unpacked
  | marking
  | stopping
  | settingAside
  | swapping
  | launching
  | checking
  | opening
  | stoppingAgain
  | revertingAside
  | revertingBack
  | relaunching
deriving DecidableEq, Repr

inductive Script where
  | idle
  | deploy (deployment : Deployment) (point : DeployPoint)
  | restore (stamp : Nat) (point : RestorePoint)
deriving DecidableEq, Repr

structure HostState where
  dirs : AList fun _ : Name => Directory
  /-- The image `deploy.env` records. -/
  env : Option Image
  container : Option Container
  /-- The script that holds the maintenance lock. -/
  script : Script
  /-- History only: what users were told is stored, since the last live restore. -/
  current : List Write

inductive Outcome where
  | succeeds
  | failsBefore
  | failsHalfway
  /-- It takes effect and reports a failure. -/
  | failsAfter
deriving DecidableEq, Repr

/-- The entry point: `alembic upgrade head`, then the application. -/
def Image.migrate (image : Image) : Option Database → Option Database
  | none => some { revision := image.head, writes := [] }
  | some database => if database.revision ∈ image.revisions then some { database with revision := image.head } else none

namespace HostState

variable (s : HostState)

def dir? (name : Name) : Option Directory := s.dirs.lookup name

def liveDatabase : Option Database := (s.dir? .live).bind Directory.database

/-- `[ -d "$sibling" ]` for some `/var/lib/oveo.*`. -/
def sibling : Bool := s.dirs.keys.any (· != .live)

def exit : HostState := { s with script := .idle }

def atDeploy (deployment : Deployment) (point : DeployPoint) : HostState := { s with script := .deploy deployment point }

def atRestore (stamp : Nat) (point : RestorePoint) : HostState := { s with script := .restore stamp point }

def setDir (name : Name) : Option Directory → HostState
  | some directory => { s with dirs := s.dirs.insert name directory }
  | none => { s with dirs := s.dirs.erase name }

/-- `: >marker` and `rm -f -- marker`. -/
def setMarker (name : Name) (marker : Bool) : HostState :=
  s.setDir name ((s.dir? name).map fun directory => { directory with marker })

def setContainer (container : Option Container) : HostState := { s with container }

def move (source target : Name) : HostState :=
  ((s.setDir target (s.dir? source)).setDir source none).setContainer (s.container.map (Container.moved source target))

/-- `mv -T`. -/
def mv (source target : Name) (outcome : Outcome) : HostState × Bool :=
  if outcome = .succeeds ∧ (s.dir? source).isSome ∧ s.dir? target = none then (s.move source target, true) else (s, false)

/-- `install -d`. -/
def installDir : HostState :=
  if s.dir? .live = none then s.setDir .live (some { database := none, marker := false }) else s

/-- `compose stop app`. -/
def stop : Outcome → HostState × Bool
  | .succeeds => (s.setContainer none, true)
  | .failsBefore => (s, false)
  | .failsHalfway | .failsAfter => (s.setContainer none, false)

/-- A container of another image is replaced, and one that runs stays. -/
def launch (image : Image) : HostState :=
  if s.container.map Container.image = some image then s
  else s.installDir.setContainer (some { image, mount := .live, serving := false, busy := false })

/-- `compose up --detach app`: the image comes from `deploy.env`. -/
def up (outcome : Outcome) : HostState × Bool :=
  match s.env, outcome with
  | none, _ => (s, false)
  | some image, .succeeds => (s.launch image, true)
  | some _, .failsBefore => (s, false)
  | some _, .failsHalfway => (s.setContainer none, false)
  | some image, .failsAfter => (s.launch image, false)

def ready (outcome : Outcome) : Bool := outcome = .succeeds && s.container.any Container.serving

/-- `write_image_env`, which runs where a failing command does not end it: without room for the line, an empty file is
moved into place. -/
def writeImageEnv (image : Image) : Outcome → HostState × Bool
  | .succeeds => ({ s with env := some image }, true)
  | .failsHalfway => ({ s with env := none }, true)
  | .failsBefore | .failsAfter => (s, false)

/-- `snapshot_data_dir`: the marker is left out.  What a failed copy leaves is removed, if that works. -/
def snapshot (target : Name) (outcome : Outcome) : HostState × Bool :=
  match s.dir? .live, s.dir? target, outcome with
  | some directory, none, .succeeds => (s.setDir target (some { directory with marker := false }), true)
  | some _, none, .failsHalfway => (s.setDir target (some { database := none, marker := false }), false)
  | _, _, _ => (s, false)

end HostState

/-! ## What each command leaves as it is -/

namespace HostState

variable {s : HostState} {name other source target : Name} {directory? : Option Directory} {outcome : Outcome}

theorem dir?_setDir (s : HostState) (name other : Name) (directory? : Option Directory) :
    (s.setDir name directory?).dir? other = if other = name then directory? else s.dir? other := by
  cases directory? with
  | none =>
    simp only [setDir, dir?]
    split
    next same => rw [same, AList.lookup_erase]
    next different => exact AList.lookup_erase_ne different
  | some directory =>
    simp only [setDir, dir?]
    split
    next same => rw [same, AList.lookup_insert]
    next different => exact AList.lookup_insert_ne different

@[simp] theorem dir?_setDir_same : (s.setDir name directory?).dir? name = directory? := by
  rw [dir?_setDir, if_pos rfl]

@[simp] theorem dir?_setDir_ne (different : other ≠ name) : (s.setDir name directory?).dir? other = s.dir? other := by
  rw [dir?_setDir, if_neg different]

@[simp] theorem container_setDir : (s.setDir name directory?).container = s.container := by
  cases directory? <;> rfl

@[simp] theorem env_setDir : (s.setDir name directory?).env = s.env := by
  cases directory? <;> rfl

@[simp] theorem current_setDir : (s.setDir name directory?).current = s.current := by
  cases directory? <;> rfl

@[simp] theorem script_setDir : (s.setDir name directory?).script = s.script := by
  cases directory? <;> rfl

theorem sibling_iff : s.sibling = true ↔ ∃ name, name ≠ .live ∧ s.dir? name ≠ none := by
  simp only [sibling, List.any_eq_true, bne_iff_ne, ne_eq, dir?]
  constructor
  · rintro ⟨name, isKey, notLive⟩
    exact ⟨name, notLive, fun absent => AList.lookup_eq_none.mp absent (AList.mem_keys.mpr isKey)⟩
  · rintro ⟨name, notLive, present⟩
    refine ⟨name, AList.mem_keys.mp ?_, notLive⟩
    by_contra absent
    exact present (AList.lookup_eq_none.mpr absent)

theorem sibling_of_dir? {directory : Directory} (notLive : name ≠ .live) (found : s.dir? name = some directory) : s.sibling = true :=
  sibling_iff.mpr ⟨name, notLive, by rw [found]; exact Option.some_ne_none _⟩

theorem installDir_of_some {directory : Directory} (found : s.dir? .live = some directory) : s.installDir = s := by
  rw [installDir, if_neg]
  rw [found]
  exact Option.some_ne_none _

theorem dir?_installDir (s : HostState) (name : Name) :
    s.installDir.dir? name = if name = .live then some ((s.dir? .live).getD { database := none, marker := false }) else s.dir? name := by
  rw [installDir]
  cases found : s.dir? .live with
  | none =>
    rw [if_pos rfl, dir?_setDir]
    rfl
  | some directory =>
    rw [if_neg (Option.some_ne_none _)]
    split
    next same => rw [same, found]; rfl
    next => rfl

@[simp] theorem container_installDir : s.installDir.container = s.container := by
  rw [installDir]
  split
  · exact container_setDir
  · rfl

@[simp] theorem env_installDir : s.installDir.env = s.env := by
  rw [installDir]
  split
  · exact env_setDir
  · rfl

@[simp] theorem current_installDir : s.installDir.current = s.current := by
  rw [installDir]
  split
  · exact current_setDir
  · rfl

@[simp] theorem script_installDir : s.installDir.script = s.script := by
  rw [installDir]
  split
  · exact script_setDir
  · rfl

/-- A freshly started container of an image. -/
abbrev fresh (image : Image) : Container := { image, mount := .live, serving := false, busy := false }

@[simp] theorem dir?_setContainer {container : Option Container} : (s.setContainer container).dir? name = s.dir? name := rfl

theorem stop_cases (s : HostState) (outcome : Outcome) :
    s.stop outcome = (s.setContainer none, true) ∨ s.stop outcome = (s, false) ∨ s.stop outcome = (s.setContainer none, false) := by
  cases outcome <;> simp [stop]

theorem stop_eq_true (stopped : (s.stop outcome).2 = true) : (s.stop outcome).1 = s.setContainer none := by
  cases outcome <;> simp_all [stop]

/-- Where the live directory exists, `compose up` touches no directory. -/
theorem up_cases {live : Directory} (found : s.dir? .live = some live) (outcome : Outcome) :
    (s.up outcome).1 = s ∨ (s.up outcome).1 = s.setContainer none ∨
      ∃ image, s.env = some image ∧ (s.up outcome).1 = s.setContainer (some (fresh image)) := by
  have launched (image : Image) : s.launch image = s ∨ s.launch image = s.setContainer (some (fresh image)) := by
    rw [launch, installDir_of_some found]
    split
    · exact .inl rfl
    · exact .inr rfl
  cases recorded : s.env with
  | none => simp [up, recorded]
  | some image =>
    cases outcome with
    | failsBefore => simp [up, recorded]
    | failsHalfway => simp [up, recorded]
    | succeeds | failsAfter =>
      obtain stays | starts := launched image
      · exact .inl (by simp [up, recorded, stays])
      · exact .inr (.inr ⟨image, rfl, by simp [up, recorded, starts]⟩)

theorem snapshot_cases {live : Directory} (found : s.dir? .live = some live) (target : Name) (outcome : Outcome) :
    s.snapshot target outcome = (s.setDir target (some { live with marker := false }), true) ∨
      s.snapshot target outcome = (s.setDir target (some { database := none, marker := false }), false) ∨
      s.snapshot target outcome = (s, false) := by
  cases free : s.dir? target <;> cases outcome <;> simp [snapshot, found, free]

theorem mv_eq_false (failed : (s.mv source target outcome).2 = false) : (s.mv source target outcome).1 = s := by
  rw [mv] at failed ⊢
  split at failed
  · cases failed
  · rw [if_neg ‹_›]

theorem mv_eq_true (moved : (s.mv source target outcome).2 = true) :
    (∃ directory, s.dir? source = some directory) ∧ s.dir? target = none ∧ (s.mv source target outcome).1 = s.move source target := by
  rw [mv] at moved ⊢
  split at moved
  next possible =>
    rw [if_pos possible]
    exact ⟨Option.isSome_iff_exists.mp possible.2.1, possible.2.2, rfl⟩
  next => cases moved

theorem dir?_move (name : Name) : (s.move source target).dir? name =
    if name = source then none else if name = target then s.dir? source else s.dir? name := by
  show ((s.setDir target (s.dir? source)).setDir source none).dir? name = _
  rw [dir?_setDir]
  split
  next => rfl
  next => rw [dir?_setDir]

@[simp] theorem container_move : (s.move source target).container = s.container.map (Container.moved source target) := rfl

@[simp] theorem env_move : (s.move source target).env = s.env := by
  simp [move, setContainer]

@[simp] theorem current_move : (s.move source target).current = s.current := by
  simp [move, setContainer]

end HostState

end Oveo.Deploy
