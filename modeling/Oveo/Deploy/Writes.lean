import Oveo.Deploy.Standing

/-! # No write is lost

Users may be writing while a deployment or a restore copies and swaps directories, fails at any
command or is killed between two of them.  What they were told is stored stays in the directory that
takes their next write. -/

namespace Oveo.Deploy

open Oveo.Lib

/-- A candidate that is tried behind the write gate has one, and so has the release that starts on restored data; a
restore replaces a database. -/
def respectsGate (s : HostState) : HostAction → Bool
  | .proceed _ =>
    match s.script with
    | .deploy deployment .closing => deployment.image.gated
    | _ => true
  | .restore _ _ => s.liveDatabase.isSome && s.env.all Image.gated
  | _ => true

namespace HostState

variable {s s' : HostState} {name source target : Name} {outcome : Outcome} {container : Container} {stamp : Nat} {deployment : Deployment}

/-! ## oveo-deploy -/

theorem WritesInv.exit (resting : s.Resting) (tame : s.Tame) : s.exit.WritesInv := ⟨resting, tame⟩

theorem WritesInv.atDeploy {point : DeployPoint} (invariant : s.DeployInv deployment point) : (s.atDeploy deployment point).WritesInv :=
  DeployInv.alike invariant (alike_script s _) fun vacant _ => vacant

theorem WritesInv.atRestore {point : RestorePoint} (invariant : s.RestoreInv stamp point) : (s.atRestore stamp point).WritesInv :=
  RestoreInv.alike invariant (alike_script s _) fun vacant _ => vacant

/-- A deployment begins only on a live directory that holds everything. -/
theorem beginDeploy_spec (resting : s.Resting) (image : Image) (stamp : Nat) :
    s.beginDeploy image stamp = s ∨ s.beginDeploy image stamp = s.installDir ∨
      s.installDir.Kept .live ∧ s.beginDeploy image stamp =
        s.installDir.atDeploy { image, previous := s.env, stamp, currentRevision := none, migrating := false } .prepared := by
  rw [beginDeploy]
  split
  next => exact .inl rfl
  next passes =>
    split
    next => exact .inr (.inl rfl)
    next opened =>
      refine .inr (.inr ⟨?_, rfl⟩)
      cases found : s.dir? .live with
      | some live =>
        rw [installDir_of_some found] at opened ⊢
        refine ⟨live, found, ?_⟩
        obtain closed | holds | ⟨empty, sibling⟩ := resting.1 live found
        · simp [found, closed] at opened
        · exact holds
        · exact absurd ⟨by simp [liveDatabase, found, empty], sibling⟩ passes
      | none =>
        obtain nothing | sibling := resting.2 found
        · refine ⟨{ database := none, marker := false }, ?_, ?_⟩
          · rw [dir?_installDir, if_pos rfl, found]
            rfl
          · rw [current_installDir, nothing]
            exact List.nil_subset _
        · exact absurd ⟨by simp [liveDatabase, found], sibling⟩ passes

theorem WritesInv.beginDeploy (idle : s.script = .idle) (invariant : s.WritesInv) (image : Image) : (s.beginDeploy image stamp).WritesInv := by
  have resting := invariant
  rw [WritesInv, idle] at resting
  obtain same | same | ⟨kept, same⟩ := beginDeploy_spec resting.1 image stamp
  · rwa [same]
  · rw [same]
    exact invariant.installDir
  · rw [same]
    exact .atDeploy ⟨kept, resting.2.installDir⟩

theorem WritesInv.undo (tried : s.Tried deployment) : (s.undo deployment).WritesInv := by
  rw [HostState.undo]
  split
  next migrates => exact .atDeploy (tried.2.2 migrates).2
  next => exact .atDeploy ⟨tried.1, tried.2.1⟩

theorem WritesInv.plan (kept : s.Kept .live) (tame : s.Tame) : (s.plan deployment outcome).WritesInv := by
  simp only [HostState.plan]
  split
  next => exact .exit kept.resting tame
  next => exact .atDeploy ⟨kept, tame, fun migrates => by cases migrates⟩
  next =>
    split
    next => exact .atDeploy ⟨kept, tame, rfl⟩
    next => exact .exit kept.resting tame

theorem Trial.setAside (trial : s.Trial stamp) (free : s.dir? (.failedDeploy stamp) = none) :
    let s' := s.move .live (.failedDeploy stamp)
    s'.Vacant ∧ s'.Kept (.predeploy stamp) ∧ s'.Behind := by
  refine ⟨fun live isLive => ?_, ?_, ?_⟩
  · rw [dir?_move, if_pos rfl] at isLive
    cases isLive
  · exact trial.snapshot.congr (by rw [dir?_move, if_neg (by simp), if_neg (by simp)]) current_move
  · exact Behind.move (fun container isContainer => (trial.container container isContainer).1) (by simp) free

theorem Kept.move (kept : s.Kept source) (different : source ≠ target) : (s.move source target).Kept target := by
  obtain ⟨directory, found, holds⟩ := kept
  refine ⟨directory, ?_, by rwa [current_move]⟩
  rw [dir?_move, if_neg different.symm, if_pos rfl]
  exact found

theorem Former.move (former : s.Former source) (different : source ≠ target) : (s.move source target).Former target := by
  obtain ⟨directory, found, present, holds⟩ := former
  refine ⟨directory, ?_, present, by rwa [current_move]⟩
  rw [dir?_move, if_neg different.symm, if_pos rfl]
  exact found

theorem Kept.writeImageEnv {image : Image} (kept : s.Kept name) : (s.writeImageEnv image outcome).1.Kept name := by
  cases outcome <;> exact kept

theorem Tame.writeImageEnv {image : Image} (tame : s.Tame) : (s.writeImageEnv image outcome).1.Tame := by
  cases outcome <;> exact tame

theorem Tried.writeImageEnv {image : Image} (tried : s.Tried deployment) : (s.writeImageEnv image outcome).1.Tried deployment := by
  have trial (trial : s.Trial deployment.stamp) : (s.writeImageEnv image outcome).1.Trial deployment.stamp := by
    cases outcome <;> exact ⟨trial.closed, trial.live, trial.snapshot, trial.container⟩
  exact ⟨tried.1.writeImageEnv, tried.2.1.writeImageEnv, fun migrates => ⟨(tried.2.2 migrates).1, trial (tried.2.2 migrates).2⟩⟩

theorem env_writeImageEnv {image recorded : Image} (written : (s.writeImageEnv image outcome).2 = true)
    (isRecorded : (s.writeImageEnv image outcome).1.env = some recorded) : recorded = image := by
  cases outcome with
  | succeeds => exact (Option.some.inj isRecorded).symm
  | failsHalfway => cases isRecorded
  | failsBefore | failsAfter => cases written

theorem Tried.up (tried : s.Tried deployment) (recorded : ∀ image, s.env = some image → image = deployment.image) :
    (s.up outcome).1.Tried deployment :=
  ⟨tried.1.up, tried.2.1.up tried.1, fun migrates =>
    ⟨(tried.2.2 migrates).1, (tried.2.2 migrates).2.up fun image isImage => by
      rw [recorded image isImage]
      exact (tried.2.2 migrates).1⟩⟩

/-- The snapshot holds what the stopped release left; a failed one leaves the live directory alone. -/
theorem snapshot_spec (kept : s.Kept .live) (closed : s.Closed) (stopped : s.container = none) (outcome : Outcome) :
    (s.snapshot (.predeploy stamp) outcome).1.Kept .live ∧ (s.snapshot (.predeploy stamp) outcome).1.container = none ∧
      (s.snapshot (.predeploy stamp) outcome).1.Closed ∧
      ((s.snapshot (.predeploy stamp) outcome).2 = true → (s.snapshot (.predeploy stamp) outcome).1.Kept (.predeploy stamp)) := by
  obtain ⟨live, isLive, holds⟩ := kept
  obtain ⟨other, isOther, marked⟩ := closed
  obtain rfl := Option.some.inj (isLive.symm.trans isOther)
  have beside (directory? : Option Directory) : (s.setDir (.predeploy stamp) directory?).Kept .live ∧
      (s.setDir (.predeploy stamp) directory?).container = none ∧ (s.setDir (.predeploy stamp) directory?).Closed := by
    have same : (s.setDir (.predeploy stamp) directory?).dir? .live = some live := by
      rw [dir?_setDir_ne (by simp), isLive]
    exact ⟨⟨live, same, by rwa [current_setDir]⟩, container_setDir.trans stopped, live, same, marked⟩
  obtain copied | failed | failed := snapshot_cases isLive (.predeploy stamp) outcome
  · obtain ⟨kept, stopped, closed⟩ := beside (some { live with marker := false })
    rw [copied]
    refine ⟨kept, stopped, closed, fun _ => ⟨{ live with marker := false }, dir?_setDir_same, ?_⟩⟩
    rw [current_setDir]
    exact holds
  · obtain ⟨kept, stopped, closed⟩ := beside (some { database := none, marker := false })
    rw [failed]
    exact ⟨kept, stopped, closed, fun copied => by cases copied⟩
  · rw [failed]
    exact ⟨⟨live, isLive, holds⟩, stopped, ⟨live, isLive, marked⟩, fun copied => by cases copied⟩

/-- A candidate that is stopped, or does not stop. -/
theorem Trial.stop (trial : s.Trial stamp) (outcome : Outcome) : (s.stop outcome).1.Trial stamp := by
  obtain same | same | same := stop_cases s outcome
  · rw [same]
    exact ⟨trial.closed, trial.live, trial.snapshot, fun container isContainer => by cases isContainer⟩
  · rw [same]
    exact trial
  · rw [same]
    exact ⟨trial.closed, trial.live, trial.snapshot, fun container isContainer => by cases isContainer⟩

theorem WritesInv.deployStep {point : DeployPoint} (invariant : s.DeployInv deployment point)
    (gated : point = .closing → deployment.image.gated = true) : (s.deployStep deployment point outcome).WritesInv := by
  cases point with
  | prepared => exact .plan invariant.1 invariant.2
  | closing =>
    simp only [HostState.deployStep]
    split
    next =>
      exact .atDeploy ⟨invariant.1.setMarker true, invariant.2.1.setMarker invariant.1 true, .of_setMarker invariant.1, invariant.2.2, gated rfl⟩
    next => exact .exit invariant.1.resting invariant.2.1
  | stopping =>
    simp only [HostState.deployStep]
    split
    next stopped =>
      rw [stop_eq_true stopped]
      exact .atDeploy ⟨invariant.1, rfl, invariant.2.2.1, invariant.2.2.2⟩
    next => exact .atDeploy ⟨invariant.1.stop, invariant.2.1.stop⟩
  | snapshotting =>
    obtain ⟨kept, stopped, closed, copy⟩ := @snapshot_spec s deployment.stamp invariant.1 invariant.2.2.1 invariant.2.1 outcome
    simp only [HostState.deployStep]
    split
    next copied =>
      refine .atDeploy ⟨kept, .of_none stopped, fun _ => ⟨invariant.2.2.2.2, closed, kept, copy copied, fun container isContainer => ?_⟩⟩
      rw [stopped] at isContainer
      cases isContainer
    next => exact .atDeploy ⟨kept, .of_none stopped⟩
  | reopening restart =>
    simp only [HostState.deployStep]
    have kept := invariant.1.setMarker false
    have tame := invariant.2.setMarker invariant.1 false
    split
    next =>
      split
      next => exact .atDeploy ⟨kept, tame⟩
      next => exact .exit kept.resting tame
    next => exact .exit invariant.1.resting invariant.2
  | restarting => exact .exit invariant.1.up.resting (invariant.2.up invariant.1)
  | starting =>
    simp only [HostState.deployStep]
    split
    next written => exact .atDeploy ⟨Tried.writeImageEnv invariant, fun _ => env_writeImageEnv written⟩
    next => exact .undo (Tried.writeImageEnv invariant)
  | launching =>
    simp only [HostState.deployStep]
    split
    next => exact .atDeploy (invariant.1.up invariant.2)
    next => exact .undo (invariant.1.up invariant.2)
  | checking =>
    simp only [HostState.deployStep]
    split
    next => exact .atDeploy invariant
    next => exact .undo invariant
  | opening =>
    simp only [HostState.deployStep]
    split
    next => exact .exit (Kept.setMarker invariant.1 false).resting (Tame.setMarker invariant.2.1 invariant.1 false)
    next => exact .exit (Kept.resting invariant.1) invariant.2.1
  | stoppingCandidate => exact .atDeploy (Trial.stop invariant outcome)
  | settingAside =>
    simp only [HostState.deployStep]
    split
    next moved =>
      obtain ⟨-, free, same⟩ := mv_eq_true moved
      rw [same]
      exact .atDeploy (Trial.setAside invariant free)
    next stuck =>
      rw [mv_eq_false (by simpa using stuck)]
      exact .exit (Kept.resting (Trial.live invariant)) (Trial.tame invariant)
  | puttingBack =>
    simp only [HostState.deployStep]
    split
    next moved =>
      obtain ⟨-, free, same⟩ := mv_eq_true moved
      rw [same]
      exact .atDeploy ⟨invariant.2.1.move (by simp), (invariant.2.2.move (by simp) free).tame⟩
    next stuck =>
      rw [mv_eq_false (by simpa using stuck)]
      obtain ⟨directory, found, -⟩ := invariant.2.1
      exact .exit (invariant.1.resting (by simp) found) invariant.2.2.tame
  | pulling =>
    simp only [HostState.deployStep]
    split
    next => exact .atDeploy invariant
    next => exact .exit invariant.1.resting invariant.2
  | rewriting =>
    simp only [HostState.deployStep]
    split
    next previous _ =>
      split
      next => exact .atDeploy ⟨invariant.1.writeImageEnv, invariant.2.writeImageEnv⟩
      next => exact .exit (Kept.writeImageEnv invariant.1).resting invariant.2.writeImageEnv
    next => exact .exit invariant.1.resting invariant.2
  | relaunching =>
    simp only [HostState.deployStep]
    split
    next => exact .atDeploy ⟨invariant.1.up, invariant.2.up invariant.1⟩
    next => exact .exit (Kept.up invariant.1).resting (invariant.2.up invariant.1)
  | rechecking => exact .exit invariant.1.resting invariant.2

/-! ## oveo-restore -/

theorem Former.beside {directory? : Option Directory} (former : s.Former .live) (notLive : name ≠ .live) :
    (s.setDir name directory?).Former .live :=
  former.congr (dir?_setDir_ne notLive.symm) current_setDir

/-- No container waits behind the gate of a directory that is open. -/
theorem Tame.beside {directory? : Option Directory} (tame : s.Tame) (notLive : name ≠ .live)
    (opened : ∀ directory, s.dir? name = some directory → directory.marker = false) : (s.setDir name directory?).Tame := by
  intro container isContainer
  rw [container_setDir] at isContainer
  obtain ⟨hasGate, idle, directory, found, marked⟩ | ⟨isLive, kept⟩ := tame container isContainer
  · have elsewhere : container.mount ≠ name := by
      intro isMount
      rw [isMount] at found
      rw [opened directory found] at marked
      cases marked
    exact .inl ⟨hasGate, idle, directory, by rwa [dir?_setDir_ne elsewhere], marked⟩
  · exact .inr ⟨isLive, kept.congr (dir?_setDir_ne notLive.symm) current_setDir⟩

theorem EnvGated.setDir {directory? : Option Directory} (gated : s.EnvGated) : (s.setDir name directory?).EnvGated := by
  rwa [EnvGated, env_setDir]

theorem EnvGated.move (gated : s.EnvGated) : (s.move source target).EnvGated := by
  rwa [EnvGated, env_move]

theorem Vacant.of_move (isLive : source = .live) : (s.move source target).Vacant := by
  intro live found
  rw [dir?_move, if_pos isLive.symm] at found
  cases found

theorem WritesInv.beginRestore (idle : s.script = .idle) (invariant : s.WritesInv) (present : s.liveDatabase.isSome = true)
    (gated : s.EnvGated) (backup : Database) (stamp : Nat) : (s.beginRestore backup stamp).WritesInv := by
  have resting := invariant
  rw [WritesInv, idle] at resting
  rw [HostState.beginRestore]
  split
  next free =>
    obtain ⟨database, isDatabase⟩ := Option.isSome_iff_exists.mp present
    obtain ⟨live, isLive, isThere⟩ := Option.bind_eq_some_iff.mp isDatabase
    have former : s.Former .live := by
      refine ⟨live, isLive, by rw [isThere]; exact Option.some_ne_none _, ?_⟩
      obtain closed | holds | ⟨empty, -⟩ := resting.1.1 live isLive
      · exact .inl closed
      · exact .inr holds
      · rw [isThere] at empty
        cases empty
    refine .atRestore ⟨former.beside (by simp), resting.2.beside (by simp) ?_, gated.setDir, _, dir?_setDir_same, rfl⟩
    intro directory found
    rw [free.1] at found
    cases found
  next => exact invariant

/-- Restored data whose release is stopped, or does not stop. -/
theorem Restored.stop (restored : s.Restored stamp) (outcome : Outcome) : (s.stop outcome).1.Restored stamp := by
  obtain same | same | same := stop_cases s outcome
  · rw [same]
    exact ⟨restored.closed, restored.former, (fun container isContainer => by cases isContainer), restored.env⟩
  · rw [same]
    exact restored
  · rw [same]
    exact ⟨restored.closed, restored.former, (fun container isContainer => by cases isContainer), restored.env⟩

theorem Unpacked.opened {directory : Directory} (unpacked : s.Unpacked stamp false) (found : s.dir? (.restore stamp) = some directory) :
    directory.marker = false := by
  obtain ⟨other, isOther, opened⟩ := unpacked.candidate
  rwa [Option.some.inj (found.symm.trans isOther)]

theorem WritesInv.restoreStep {point : RestorePoint} (invariant : s.RestoreInv stamp point) : (s.restoreStep stamp point outcome).WritesInv := by
  cases point with
  | unpacked =>
    simp only [HostState.restoreStep]
    split
    next => exact .atRestore invariant
    next =>
      refine .exit (Former.resting ?_) ?_
      · exact (Unpacked.former invariant).beside (by simp)
      · exact (Unpacked.tame invariant).beside (by simp) fun _ => Unpacked.opened invariant
  | marking =>
    simp only [HostState.restoreStep]
    split
    next =>
      obtain ⟨directory, found, -⟩ := Unpacked.candidate invariant
      refine .atRestore ⟨(Unpacked.former invariant).beside (by simp), (Unpacked.tame invariant).beside (by simp) fun _ => Unpacked.opened invariant,
        (Unpacked.env invariant).setDir, { directory with marker := true }, ?_, rfl⟩
      rw [HostState.setMarker, dir?_setDir_same, found]
      rfl
    next => exact .exit (Unpacked.former invariant).resting (Unpacked.tame invariant)
  | stopping =>
    simp only [HostState.restoreStep]
    split
    next stopped =>
      have none : (s.setContainer none).Unpacked stamp true := by
        obtain ⟨former, -, env, candidate⟩ : s.Unpacked stamp true := invariant
        exact ⟨former, .of_none rfl, env, candidate⟩
      rw [stop_eq_true stopped]
      exact .atRestore ⟨none, rfl⟩
    next =>
      refine .exit ?_ (Unpacked.tame invariant).stop
      obtain same | same | same := stop_cases s outcome <;> (rw [same]; exact (Unpacked.former invariant).resting)
  | settingAside =>
    obtain ⟨unpacked, stopped⟩ := invariant
    simp only [HostState.restoreStep]
    split
    next moved =>
      obtain ⟨-, -, same⟩ := mv_eq_true moved
      obtain ⟨directory, found, marked⟩ := unpacked.candidate
      rw [same]
      refine .atRestore ⟨.of_move rfl, unpacked.former.move (by simp), by rw [container_move, stopped]; rfl, unpacked.env.move,
        directory, ?_, marked⟩
      rw [dir?_move, if_neg (by simp), if_neg (by simp)]
      exact found
    next stuck =>
      rw [mv_eq_false (by simpa using stuck)]
      exact .exit unpacked.former.resting unpacked.tame
  | swapping =>
    obtain ⟨vacant, former, stopped, env, directory, found, marked⟩ := invariant
    simp only [HostState.restoreStep]
    split
    next moved =>
      obtain ⟨-, -, same⟩ := mv_eq_true moved
      rw [same]
      refine .atRestore ⟨⟨directory, ?_, marked⟩, former.congr ?_ current_move, fun container isContainer => ?_, env.move⟩
      · rw [dir?_move, if_neg (by simp), if_pos rfl]
        exact found
      · rw [dir?_move, if_neg (by simp), if_neg (by simp)]
      · rw [container_move, stopped] at isContainer
        cases isContainer
    next stuck =>
      rw [mv_eq_false (by simpa using stuck)]
      obtain ⟨kept, isKept, -⟩ := former
      exact .exit (vacant.resting (by simp) isKept) (.of_none stopped)
  | launching =>
    simp only [HostState.restoreStep]
    split
    next => exact .atRestore (Restored.up invariant)
    next => exact .atRestore (Restored.up invariant)
  | checking =>
    simp only [HostState.restoreStep]
    split
    next => exact .atRestore invariant
    next => exact .atRestore invariant
  | opening =>
    simp only [HostState.restoreStep]
    split
    next =>
      obtain ⟨live, isLive, -⟩ := Restored.closed invariant
      have kept : HostState.Kept { (s.setMarker .live false).exit with current := ((s.dir? .live).map Directory.writes).getD [] } .live := by
        refine ⟨{ live with marker := false }, ?_, ?_⟩
        · show (s.setMarker .live false).dir? .live = _
          rw [HostState.setMarker, dir?_setDir_same, isLive]
          rfl
        · rw [isLive]
          exact List.Subset.refl _
      refine ⟨kept.resting, fun container isContainer => .inr ⟨?_, kept⟩⟩
      have same : (s.setMarker .live false).container = s.container := container_setDir
      exact (Restored.container invariant container (same ▸ isContainer)).2
    next => exact .exit (Restored.closed invariant).resting (Restored.tame invariant)
  | stoppingAgain => exact .atRestore (Restored.stop invariant outcome)
  | revertingAside =>
    simp only [HostState.restoreStep]
    split
    next moved =>
      obtain ⟨-, free, same⟩ := mv_eq_true moved
      rw [same]
      refine .atRestore ⟨.of_move rfl, (Restored.former invariant).congr ?_ current_move, ?_, (Restored.env invariant).move⟩
      · rw [dir?_move, if_neg (by simp), if_neg (by simp)]
      · exact Behind.move (fun container isContainer => (Restored.container invariant container isContainer).1) (by simp) free
    next stuck =>
      rw [mv_eq_false (by simpa using stuck)]
      exact .exit (Restored.closed invariant).resting (Restored.tame invariant)
  | revertingBack =>
    obtain ⟨vacant, former, behind, env⟩ := invariant
    simp only [HostState.restoreStep]
    split
    next moved =>
      obtain ⟨-, free, same⟩ := mv_eq_true moved
      rw [same]
      exact .atRestore ⟨former.move (by simp), (behind.move (by simp) free).tame, env.move⟩
    next stuck =>
      rw [mv_eq_false (by simpa using stuck)]
      obtain ⟨kept, isKept, -⟩ := former
      exact .exit (vacant.resting (by simp) isKept) behind.tame
  | relaunching =>
    obtain ⟨former, tame, env⟩ := invariant
    obtain ⟨former, tame⟩ := former.up tame env
    exact .exit former.resting tame

theorem WritesInv.boot (invariant : s.WritesInv) (isContainer : s.container = some container)
    (booted : s.bootContainer container = some s') : s'.WritesInv := by
  have alike := alike_boot isContainer booted
  have script : s'.script = s.script := script_boot booted
  have vacant (vacant : s.Vacant) (behind : s.Behind) : s'.Vacant := vacant.boot (behind container isContainer) booted
  rw [WritesInv] at invariant ⊢
  rw [script]
  cases running : s.script with
  | idle =>
    rw [running] at invariant
    exact ⟨invariant.1.boot invariant.2 isContainer booted, invariant.2.alike alike⟩
  | deploy deployment point =>
    rw [running] at invariant
    exact DeployInv.alike invariant alike vacant
  | restore stamp point =>
    rw [running] at invariant
    exact RestoreInv.alike invariant alike vacant

theorem WritesInv.store {write : Write} (invariant : s.WritesInv) (isContainer : s.container = some container)
    (notGated : ¬ s.Gated container) (stored : s.store container write = some s') : s'.WritesInv := by
  have script : s'.script = s.script := script_store stored
  rw [WritesInv] at invariant ⊢
  rw [script]
  cases running : s.script with
  | idle =>
    rw [running] at invariant
    obtain ⟨-, kept, tame, -⟩ := invariant.2.store isContainer notGated stored
    exact ⟨kept.resting, tame⟩
  | deploy deployment point =>
    rw [running] at invariant
    exact DeployInv.store isContainer notGated stored invariant
  | restore stamp point =>
    rw [running] at invariant
    exact RestoreInv.store isContainer notGated stored invariant

/-- A script that is killed leaves the host at rest. -/
theorem WritesInv.interrupt (invariant : s.WritesInv) : s.exit.WritesInv := by
  rw [WritesInv] at invariant
  cases running : s.script with
  | idle =>
    rw [running] at invariant
    exact .exit invariant.1 invariant.2
  | deploy deployment point =>
    rw [running] at invariant
    cases point with
    | prepared | reopening | restarting | pulling | rewriting | relaunching | rechecking => exact .exit invariant.1.resting invariant.2
    | closing | stopping | starting | checking | opening => exact .exit (Kept.resting invariant.1) invariant.2.1
    | snapshotting => exact .exit invariant.1.resting (.of_none invariant.2.1)
    | launching => exact .exit invariant.1.1.resting invariant.1.2.1
    | stoppingCandidate | settingAside => exact .exit (Trial.live invariant).resting (Trial.tame invariant)
    | puttingBack =>
      obtain ⟨directory, found, -⟩ := invariant.2.1
      exact .exit (invariant.1.resting (by simp) found) invariant.2.2.tame
  | restore stamp point =>
    rw [running] at invariant
    cases point with
    | unpacked | marking | stopping => exact .exit (Unpacked.former invariant).resting (Unpacked.tame invariant)
    | settingAside => exact .exit invariant.1.former.resting invariant.1.tame
    | swapping =>
      obtain ⟨directory, found, -⟩ := invariant.2.1
      exact .exit (invariant.1.resting (by simp) found) (.of_none invariant.2.2.1)
    | launching | checking | opening | stoppingAgain | revertingAside =>
      exact .exit (Restored.closed invariant).resting (Restored.tame invariant)
    | revertingBack =>
      obtain ⟨directory, found, -⟩ := invariant.2.1
      exact .exit (invariant.1.resting (by simp) found) invariant.2.2.1.tame
    | relaunching => exact .exit invariant.1.resting invariant.2.1

end HostState

open HostState

variable {s s' : HostState}

theorem hostStep_writes {action : HostAction} (invariant : s.WritesInv) (respected : respectsGate s action = true)
    (taken : hostStep s action = some s') : s'.WritesInv := by
  cases action with
  | request write =>
    simp only [hostStep] at taken
    split at taken
    next container isContainer =>
      split at taken
      next accepts => exact invariant.store isContainer (not_gated_of_accepts accepts) taken
      next => cases taken
    next => cases taken
  | background write =>
    simp only [hostStep] at taken
    split at taken
    next container isContainer =>
      split at taken
      next working =>
        rw [Bool.and_eq_true] at working
        exact invariant.store isContainer (not_gated_of_busy working.2) taken
      next => cases taken
    next => cases taken
  | boot =>
    simp only [hostStep] at taken
    split at taken
    next container isContainer =>
      split at taken
      next => cases taken
      next => exact invariant.boot isContainer taken
    next => cases taken
  | deploy image stamp =>
    simp only [hostStep] at taken
    split at taken
    next idle =>
      cases taken
      exact invariant.beginDeploy idle image
    next => cases taken
  | restore backup stamp =>
    simp only [hostStep] at taken
    split at taken
    next idle =>
      cases taken
      simp only [respectsGate, Bool.and_eq_true] at respected
      refine invariant.beginRestore idle respected.1 (fun image isImage => ?_) backup stamp
      simpa [isImage] using respected.2
    next => cases taken
  | proceed outcome =>
    simp only [hostStep] at taken
    rw [WritesInv] at invariant
    cases running : s.script with
    | idle => simp [running] at taken
    | deploy deployment point =>
      simp only [running, Option.some.injEq] at taken invariant
      subst taken
      refine .deployStep invariant fun isClosing => ?_
      simpa [respectsGate, running, isClosing] using respected
    | restore stamp point =>
      simp only [running, Option.some.injEq] at taken invariant
      subst taken
      exact .restoreStep invariant
  | interrupt =>
    simp only [hostStep] at taken
    split at taken
    next => cases taken
    next =>
      cases taken
      exact invariant.interrupt
  | installHost =>
    cases taken
    exact invariant.installDir

theorem writesInv_of_reachable (reachable : hostMachine.ReachableVia (fun s action => respectsGate s action = true) s) : s.WritesInv := by
  apply Machine.invariant WritesInv _ _ reachable
  · intro state start
    cases start
    refine ⟨⟨fun live isLive => ?_, fun _ => .inl rfl⟩, .of_none rfl⟩
    rw [dir?, emptyHost, AList.lookup_empty] at isLive
    cases isLive
  · intro state action next invariant respected taken
    exact hostStep_writes invariant respected taken

/-- The part of a deployment in which a candidate that migrates is tried. -/
def DeployPoint.tries : DeployPoint → Bool
  | .starting | .launching | .checking | .opening | .stoppingCandidate | .settingAside | .puttingBack => true
  | _ => false

/-- The part of a restore in which the restored data is tried. -/
def RestorePoint.tries : RestorePoint → Bool
  | .launching | .checking | .opening | .stoppingAgain | .revertingAside | .revertingBack => true
  | _ => false

def undone : Option HostState := hostMachine.runVia (fun s action => respectsGate s action = true) emptyHost undoneRun

end Oveo.Deploy
