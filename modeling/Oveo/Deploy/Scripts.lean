import Oveo.Deploy.Host

/-! # The deployment and the live restore

`oveo-deploy.sh` and `oveo-restore.sh --live`, one step for each command that changes the host, with
the users, the container and an interruption between any two of them.  A script holds the maintenance
lock while it runs. -/

namespace Oveo.Deploy

open Oveo.Lib

inductive HostAction where
  /-- A state-changing request that the application answers. -/
  | request (write : Write)
  /-- The application stores what an earlier request asked for. -/
  | background (write : Write)
  /-- The container's entry point and the application's startup finish. -/
  | boot
  | deploy (image : Image) (stamp : Nat)
  | restore (backup : Database) (stamp : Nat)
  /-- The script runs its next command. -/
  | proceed (outcome : Outcome)
  /-- The script is killed. -/
  | interrupt
  /-- `install-host.sh`, run by hand. -/
  | installHost
deriving DecidableEq, Repr

namespace HostState

variable (s : HostState)

/-- `MaintenanceGate` lets state-changing requests pass. -/
def accepts (container : Container) : Bool :=
  container.serving && !(container.image.gated && (s.dir? container.mount).any Directory.marker)

def store (container : Container) (write : Write) : Option HostState :=
  match s.dir? container.mount with
  | some { database := some database, marker } => some
      { s.setDir container.mount (some { database := some { database with writes := database.writes ++ [write] }, marker }) with
        container := some { container with busy := true }
        current := s.current ++ [write] }
  | _ => none

def bootContainer (container : Container) : Option HostState :=
  match s.dir? container.mount with
  | some directory =>
    match container.image.migrate directory.database with
    | some database => some
        { s.setDir container.mount (some { directory with database := some database }) with
          container := some { container with serving := true } }
    | none => none
  | none => none

/-! ## oveo-deploy -/

/-- From the lock to the image's download: an interrupted run must be cleared up by a person first. -/
def beginDeploy (image : Image) (stamp : Nat) : HostState :=
  if s.liveDatabase = none ∧ s.sibling then s
  else if (s.installDir.dir? .live).any Directory.marker then s.installDir
  else s.installDir.atDeploy { image, previous := s.env, stamp, currentRevision := none, migrating := false } .prepared

/-- Does the candidate migrate the database?  One that cannot say counts as migrating. -/
def migrating? (image : Image) (currentRevision : Option Revision) (outcome : Outcome) : Option Bool :=
  match currentRevision, outcome with
  | _, .failsBefore | _, .failsAfter => none
  | none, _ => some false
  | some _, .failsHalfway => some true
  | some revision, .succeeds =>
    if image.lists then
      if revision = image.head then some false else if revision ∈ image.revisions then some true else none
    else some true

def plan (deployment : Deployment) (outcome : Outcome) : HostState :=
  let currentRevision := s.liveDatabase.map Database.revision
  match migrating? deployment.image currentRevision outcome with
  | none => s.exit
  | some false => s.atDeploy { deployment with currentRevision, migrating := false } .starting
  | some true =>
    if deployment.previous ≠ none ∧ s.dir? (.predeploy deployment.stamp) = none ∧ s.dir? (.failedDeploy deployment.stamp) = none then
      s.atDeploy { deployment with currentRevision, migrating := true } .closing
    else s.exit

/-- The candidate failed. -/
def undo (deployment : Deployment) : HostState :=
  if deployment.migrating then s.atDeploy deployment .stoppingCandidate else s.atDeploy deployment .pulling

def deployStep (deployment : Deployment) (point : DeployPoint) (outcome : Outcome) : HostState :=
  match point with
  | .prepared => s.plan deployment outcome
  | .closing =>
    if outcome = .succeeds then (s.setMarker .live true).atDeploy deployment .stopping else s.exit
  | .stopping =>
    if (s.stop outcome).2 then (s.stop outcome).1.atDeploy deployment .snapshotting
    else (s.stop outcome).1.atDeploy deployment (.reopening false)
  | .snapshotting =>
    if (s.snapshot (.predeploy deployment.stamp) outcome).2 then
      (s.snapshot (.predeploy deployment.stamp) outcome).1.atDeploy deployment .starting
    else (s.snapshot (.predeploy deployment.stamp) outcome).1.atDeploy deployment (.reopening true)
  | .reopening restart =>
    if outcome = .succeeds then
      if restart then (s.setMarker .live false).atDeploy deployment .restarting else (s.setMarker .live false).exit
    else s.exit
  | .restarting => (s.up outcome).1.exit
  | .starting =>
    if (s.writeImageEnv deployment.image outcome).2 then (s.writeImageEnv deployment.image outcome).1.atDeploy deployment .launching
    else (s.writeImageEnv deployment.image outcome).1.undo deployment
  | .launching =>
    if (s.up outcome).2 then (s.up outcome).1.atDeploy deployment .checking else (s.up outcome).1.undo deployment
  | .checking => if s.ready outcome then s.atDeploy deployment .opening else s.undo deployment
  -- What follows records the image, installs the bundle and removes older images.
  | .opening => if outcome = .succeeds then (s.setMarker .live false).exit else s.exit
  | .stoppingCandidate => (s.stop outcome).1.atDeploy deployment .settingAside
  | .settingAside =>
    if (s.mv .live (.failedDeploy deployment.stamp) outcome).2 then
      (s.mv .live (.failedDeploy deployment.stamp) outcome).1.atDeploy deployment .puttingBack
    else (s.mv .live (.failedDeploy deployment.stamp) outcome).1.exit
  | .puttingBack =>
    if (s.mv (.predeploy deployment.stamp) .live outcome).2 then
      (s.mv (.predeploy deployment.stamp) .live outcome).1.atDeploy deployment .pulling
    else (s.mv (.predeploy deployment.stamp) .live outcome).1.exit
  | .pulling =>
    if deployment.previous ≠ none ∧ outcome = .succeeds then s.atDeploy deployment .rewriting else s.exit
  | .rewriting =>
    match deployment.previous with
    | some previous =>
      if (s.writeImageEnv previous outcome).2 then (s.writeImageEnv previous outcome).1.atDeploy deployment .relaunching
      else (s.writeImageEnv previous outcome).1.exit
    | none => s.exit
  | .relaunching =>
    if (s.up outcome).2 then (s.up outcome).1.atDeploy deployment .rechecking else (s.up outcome).1.exit
  | .rechecking => s.exit

/-! ## oveo-restore --live -/

/-- Up to the archive's extraction beside the live directory. -/
def beginRestore (backup : Database) (stamp : Nat) : HostState :=
  if s.dir? (.restore stamp) = none ∧ s.dir? (.preRestore stamp) = none ∧ s.dir? (.failedRestore stamp) = none then
    (s.setDir (.restore stamp) (some { database := some backup, marker := false })).atRestore stamp .unpacked
  else s

/-- The running image must know the backup's revision, unless it cannot list its migrations. -/
def restorable (stamp : Nat) (outcome : Outcome) : Bool :=
  match s.env, (s.dir? (.restore stamp)).bind Directory.database, outcome with
  | some image, some backup, .succeeds => !image.lists || decide (backup.revision ∈ image.revisions)
  | some _, some _, .failsHalfway => true
  | _, _, _ => false

def restoreStep (stamp : Nat) (point : RestorePoint) (outcome : Outcome) : HostState :=
  match point with
  | .unpacked =>
    if s.restorable stamp outcome then s.atRestore stamp .marking else (s.setDir (.restore stamp) none).exit
  | .marking =>
    if outcome = .succeeds then (s.setMarker (.restore stamp) true).atRestore stamp .stopping else s.exit
  | .stopping =>
    if (s.stop outcome).2 then (s.stop outcome).1.atRestore stamp .settingAside else (s.stop outcome).1.exit
  | .settingAside =>
    if (s.mv .live (.preRestore stamp) outcome).2 then (s.mv .live (.preRestore stamp) outcome).1.atRestore stamp .swapping
    else (s.mv .live (.preRestore stamp) outcome).1.exit
  | .swapping =>
    if (s.mv (.restore stamp) .live outcome).2 then (s.mv (.restore stamp) .live outcome).1.atRestore stamp .launching
    else (s.mv (.restore stamp) .live outcome).1.exit
  | .launching =>
    if (s.up outcome).2 then (s.up outcome).1.atRestore stamp .checking else (s.up outcome).1.atRestore stamp .stoppingAgain
  | .checking => if s.ready outcome then s.atRestore stamp .opening else s.atRestore stamp .stoppingAgain
  | .opening =>
    -- From here on the users' data is what the backup holds.
    if outcome = .succeeds then
      { (s.setMarker .live false).exit with current := ((s.dir? .live).map Directory.writes).getD [] }
    else s.exit
  | .stoppingAgain => (s.stop outcome).1.atRestore stamp .revertingAside
  | .revertingAside =>
    if (s.mv .live (.failedRestore stamp) outcome).2 then
      (s.mv .live (.failedRestore stamp) outcome).1.atRestore stamp .revertingBack
    else (s.mv .live (.failedRestore stamp) outcome).1.exit
  | .revertingBack =>
    if (s.mv (.preRestore stamp) .live outcome).2 then
      (s.mv (.preRestore stamp) .live outcome).1.atRestore stamp .relaunching
    else (s.mv (.preRestore stamp) .live outcome).1.exit
  | .relaunching => (s.up outcome).1.exit

end HostState

def hostStep (s : HostState) : HostAction → Option HostState
  | .request write =>
    match s.container with
    | some container => if s.accepts container then s.store container write else none
    | none => none
  | .background write =>
    match s.container with
    | some container => if container.serving && container.busy then s.store container write else none
    | none => none
  | .boot =>
    match s.container with
    | some container => if container.serving then none else s.bootContainer container
    | none => none
  | .deploy image stamp => if s.script = .idle then some (s.beginDeploy image stamp) else none
  | .restore backup stamp => if s.script = .idle then some (s.beginRestore backup stamp) else none
  | .proceed outcome =>
    match s.script with
    | .idle => none
    | .deploy deployment point => some (s.deployStep deployment point outcome)
    | .restore stamp point => some (s.restoreStep stamp point outcome)
  | .interrupt => if s.script = .idle then none else some s.exit
  | .installHost => some s.installDir

namespace HostState

variable {s s' : HostState} {container : Container}

theorem script_store {write : Write} (stored : s.store container write = some s') : s'.script = s.script := by
  rw [store] at stored
  split at stored
  next =>
    obtain rfl := Option.some.inj stored
    exact script_setDir
  next => cases stored

theorem script_boot (booted : s.bootContainer container = some s') : s'.script = s.script := by
  rw [bootContainer] at booted
  split at booted
  next =>
    split at booted
    next =>
      obtain rfl := Option.some.inj booted
      exact script_setDir
    next => cases booted
  next => cases booted

end HostState

def emptyHost : HostState := { dirs := ∅, env := none, container := none, script := .idle, current := [] }

def hostMachine : Machine HostState HostAction where
  init s := s = emptyHost
  step := hostStep

def release (digest : Nat) (head : Revision) (older : List Revision) : Image := { digest, head, older, lists := true, gated := true }

/-- The first release is deployed and written to; the next one migrates, fails its checks and is undone. -/
def undoneRun : List HostAction :=
  [.deploy (release 1 1 []) 0] ++ List.replicate 3 (.proceed .succeeds) ++ [.boot] ++ List.replicate 2 (.proceed .succeeds) ++
    [.request 1, .deploy (release 2 2 [1]) 1] ++ List.replicate 6 (.proceed .succeeds) ++ [.boot, .proceed .failsBefore] ++
    List.replicate 6 (.proceed .succeeds) ++ [.boot, .request 2]

end Oveo.Deploy
