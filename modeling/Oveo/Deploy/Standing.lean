import Oveo.Deploy.Scripts

/-! # What holds of the host while a script runs

For each command a script may run next: which directory holds everything that users were told is
stored, and which container the write gate holds back.  The container's start and the users' writes
come in between. -/

namespace Oveo.Deploy

open Oveo.Lib

namespace HostState

section

variable (s : HostState)

/-- The directory holds everything that users were told is stored. -/
def Kept (name : Name) : Prop := ∃ directory, s.dir? name = some directory ∧ s.current ⊆ directory.writes

/-- The gate keeps every request from the container, and it works for no earlier one. -/
def Gated (container : Container) : Prop :=
  container.image.gated = true ∧ container.busy = false ∧ ∃ directory, s.dir? container.mount = some directory ∧ directory.marker = true

def Behind : Prop := ∀ container, s.container = some container → s.Gated container

def Tame : Prop := ∀ container, s.container = some container → s.Gated container ∨ container.mount = .live ∧ s.Kept .live

def Closed : Prop := ∃ live, s.dir? .live = some live ∧ live.marker = true

/-- At most an empty directory is live. -/
def Vacant : Prop := ∀ live, s.dir? .live = some live → live.database = none ∧ live.marker = false

/-- A candidate migrates the live directory behind the gate, beside the snapshot. -/
structure Trial (stamp : Nat) : Prop where
  closed : s.Closed
  live : s.Kept .live
  snapshot : s.Kept (.predeploy stamp)
  container : ∀ container, s.container = some container → s.Gated container ∧ container.mount = .live

def Tried (deployment : Deployment) : Prop :=
  s.Kept .live ∧ s.Tame ∧ (deployment.migrating = true → deployment.image.gated = true ∧ s.Trial deployment.stamp)

/-- Data that no user can write to, or that holds everything. -/
def Former (name : Name) : Prop :=
  ∃ directory, s.dir? name = some directory ∧ directory.database ≠ none ∧ (directory.marker = true ∨ s.current ⊆ directory.writes)

/-- Between scripts: what is live is closed or complete, or a script was killed between its renames. -/
def Resting : Prop :=
  (∀ live, s.dir? .live = some live → live.marker = true ∨ s.current ⊆ live.writes ∨ live.database = none ∧ s.sibling = true) ∧
    (s.dir? .live = none → s.current = [] ∨ s.sibling = true)

def EnvGated : Prop := ∀ image, s.env = some image → image.gated = true

/-- The restored data is live behind the gate. -/
structure Restored (stamp : Nat) : Prop where
  closed : s.Closed
  former : s.Former (.preRestore stamp)
  container : ∀ container, s.container = some container → s.Gated container ∧ container.mount = .live
  env : s.EnvGated

/-- The restored data lies beside the live data. -/
structure Unpacked (stamp : Nat) (marker : Bool) : Prop where
  former : s.Former .live
  tame : s.Tame
  env : s.EnvGated
  candidate : ∃ directory, s.dir? (.restore stamp) = some directory ∧ directory.marker = marker

def DeployInv (deployment : Deployment) : DeployPoint → Prop
  | .prepared | .reopening _ | .restarting | .pulling | .rewriting | .relaunching | .rechecking => s.Kept .live ∧ s.Tame
  | .closing => s.Kept .live ∧ s.Tame ∧ deployment.migrating = true
  | .stopping => s.Kept .live ∧ s.Tame ∧ s.Closed ∧ deployment.migrating = true ∧ deployment.image.gated = true
  | .snapshotting => s.Kept .live ∧ s.container = none ∧ s.Closed ∧ deployment.migrating = true ∧ deployment.image.gated = true
  | .starting | .checking | .opening => s.Tried deployment
  | .launching => s.Tried deployment ∧ ∀ image, s.env = some image → image = deployment.image
  | .stoppingCandidate | .settingAside => s.Trial deployment.stamp
  | .puttingBack => s.Vacant ∧ s.Kept (.predeploy deployment.stamp) ∧ s.Behind

def RestoreInv (stamp : Nat) : RestorePoint → Prop
  | .unpacked | .marking => s.Unpacked stamp false
  | .stopping => s.Unpacked stamp true
  | .settingAside => s.Unpacked stamp true ∧ s.container = none
  | .swapping => s.Vacant ∧ s.Former (.preRestore stamp) ∧ s.container = none ∧ s.EnvGated ∧
      ∃ directory, s.dir? (.restore stamp) = some directory ∧ directory.marker = true
  | .launching | .checking | .opening | .stoppingAgain | .revertingAside => s.Restored stamp
  | .revertingBack => s.Vacant ∧ s.Former (.preRestore stamp) ∧ s.Behind ∧ s.EnvGated
  | .relaunching => s.Former .live ∧ s.Tame ∧ s.EnvGated

def WritesInv : Prop :=
  match s.script with
  | .idle => s.Resting ∧ s.Tame
  | .deploy deployment point => s.DeployInv deployment point
  | .restore stamp point => s.RestoreInv stamp point

end

variable {s s' : HostState} {name source target : Name} {outcome : Outcome} {container : Container} {stamp : Nat} {deployment : Deployment}

/-! ## Between scripts -/

theorem Kept.resting (kept : s.Kept .live) : s.Resting := by
  obtain ⟨live, isLive, holds⟩ := kept
  constructor
  · intro other isOther
    obtain rfl := Option.some.inj (isLive.symm.trans isOther)
    exact .inr (.inl holds)
  · intro absent
    rw [isLive] at absent
    cases absent

theorem Closed.resting (closed : s.Closed) : s.Resting := by
  obtain ⟨live, isLive, marked⟩ := closed
  constructor
  · intro other isOther
    obtain rfl := Option.some.inj (isLive.symm.trans isOther)
    exact .inl marked
  · intro absent
    rw [isLive] at absent
    cases absent

theorem Former.resting (former : s.Former .live) : s.Resting := by
  obtain ⟨live, isLive, -, closed | holds⟩ := former
  · exact Closed.resting ⟨live, isLive, closed⟩
  · exact Kept.resting ⟨live, isLive, holds⟩

theorem Vacant.resting {directory : Directory} (vacant : s.Vacant) (notLive : name ≠ .live) (found : s.dir? name = some directory) :
    s.Resting := by
  have sibling := sibling_of_dir? notLive found
  exact ⟨fun live isLive => .inr (.inr ⟨(vacant live isLive).1, sibling⟩), fun _ => .inr sibling⟩

theorem Behind.tame (behind : s.Behind) : s.Tame := fun container isContainer => .inl (behind container isContainer)

theorem Tame.of_none (none : s.container = none) : s.Tame := by
  intro container isContainer
  rw [none] at isContainer
  cases isContainer

theorem Trial.tame (trial : s.Trial stamp) : s.Tame := fun container isContainer => .inl (trial.container container isContainer).1

theorem Restored.tame (restored : s.Restored stamp) : s.Tame := fun container isContainer => .inl (restored.container container isContainer).1

/-! ## What the commands keep -/

theorem Kept.exists_live (kept : s.Kept .live) : ∃ live, s.dir? .live = some live := by
  obtain ⟨live, isLive, -⟩ := kept
  exact ⟨live, isLive⟩

/-- What of a state only depends on its directories and what is written. -/
theorem Kept.congr (kept : s.Kept name) (same : s'.dir? name = s.dir? name) (written : s'.current = s.current) : s'.Kept name := by
  obtain ⟨directory, found, holds⟩ := kept
  exact ⟨directory, same.trans found, by rwa [written]⟩

theorem Former.congr (former : s.Former name) (same : s'.dir? name = s.dir? name) (written : s'.current = s.current) : s'.Former name := by
  obtain ⟨directory, found, present, holds⟩ := former
  exact ⟨directory, same.trans found, present, by rwa [written]⟩

theorem Kept.setMarker (kept : s.Kept .live) (marker : Bool) : (s.setMarker .live marker).Kept .live := by
  obtain ⟨live, isLive, holds⟩ := kept
  refine ⟨{ live with marker }, ?_, ?_⟩
  · rw [HostState.setMarker, dir?_setDir_same, isLive]
    rfl
  · rw [HostState.setMarker, current_setDir]
    exact holds

theorem Closed.of_setMarker (kept : s.Kept .live) : (s.setMarker .live true).Closed := by
  obtain ⟨live, isLive, -⟩ := kept
  refine ⟨{ live with marker := true }, ?_, rfl⟩
  rw [setMarker, dir?_setDir_same, isLive]
  rfl

/-- Where the live directory holds everything, its marker may come and go. -/
theorem Tame.setMarker (tame : s.Tame) (kept : s.Kept .live) (marker : Bool) : (s.setMarker .live marker).Tame := by
  intro container isContainer
  rw [HostState.setMarker, container_setDir] at isContainer
  by_cases isLive : container.mount = .live
  · exact .inr ⟨isLive, kept.setMarker marker⟩
  · obtain ⟨gated, idle, directory, found, marked⟩ | ⟨mounted, -⟩ := tame container isContainer
    · refine .inl ⟨gated, idle, directory, ?_, marked⟩
      rw [HostState.setMarker, dir?_setDir_ne isLive]
      exact found
    · exact absurd mounted isLive

theorem Tame.stop (tame : s.Tame) : (s.stop outcome).1.Tame := by
  obtain same | same | same := stop_cases s outcome
  · rw [same]
    exact .of_none rfl
  · rw [same]
    exact tame
  · rw [same]
    exact .of_none rfl

theorem Kept.stop (kept : s.Kept name) : (s.stop outcome).1.Kept name := by
  obtain same | same | same := stop_cases s outcome <;> (rw [same]; exact kept)

theorem Kept.up (kept : s.Kept .live) : (s.up outcome).1.Kept .live := by
  obtain ⟨live, isLive⟩ := kept.exists_live
  obtain same | same | ⟨image, -, same⟩ := up_cases isLive outcome <;> (rw [same]; exact kept)

theorem Tame.up (tame : s.Tame) (kept : s.Kept .live) : (s.up outcome).1.Tame := by
  obtain ⟨live, isLive⟩ := kept.exists_live
  obtain same | same | ⟨image, -, same⟩ := up_cases isLive outcome
  · rw [same]
    exact tame
  · rw [same]
    exact .of_none rfl
  · rw [same]
    intro container isContainer
    obtain rfl := Option.some.inj isContainer
    exact .inr ⟨rfl, kept⟩

/-- What starts on a closed live directory waits behind its gate. -/
theorem gated_up (closed : s.Closed) (gated : s.EnvGated)
    (waiting : ∀ container, s.container = some container → s.Gated container ∧ container.mount = .live) (outcome : Outcome) :
    ∀ container, (s.up outcome).1.container = some container → (s.up outcome).1.Gated container ∧ container.mount = .live := by
  obtain ⟨live, isLive, marked⟩ := closed
  obtain same | same | ⟨image, isImage, same⟩ := up_cases isLive outcome
  · rw [same]
    exact waiting
  · rw [same]
    intro container isContainer
    cases isContainer
  · rw [same]
    intro container isContainer
    obtain rfl := Option.some.inj isContainer
    exact ⟨⟨gated image isImage, rfl, live, isLive, marked⟩, rfl⟩

theorem Trial.up (trial : s.Trial stamp) (gated : s.EnvGated) : (s.up outcome).1.Trial stamp := by
  have waiting := gated_up trial.closed gated trial.container outcome
  obtain ⟨live, isLive⟩ := trial.live.exists_live
  obtain same | same | ⟨image, -, same⟩ := up_cases isLive outcome <;>
    (rw [same] at waiting ⊢; exact ⟨trial.closed, trial.live, trial.snapshot, waiting⟩)

theorem Restored.up (restored : s.Restored stamp) : (s.up outcome).1.Restored stamp := by
  have waiting := gated_up restored.closed restored.env restored.container outcome
  obtain ⟨live, isLive, -⟩ := restored.closed
  obtain same | same | ⟨image, -, same⟩ := up_cases isLive outcome <;>
    (rw [same] at waiting ⊢; exact ⟨restored.closed, restored.former, waiting, restored.env⟩)

theorem Former.up (former : s.Former .live) (tame : s.Tame) (gated : s.EnvGated) :
    (s.up outcome).1.Former .live ∧ (s.up outcome).1.Tame := by
  obtain ⟨live, isLive, present, closed | holds⟩ := former
  · obtain same | same | ⟨image, isImage, same⟩ := up_cases isLive outcome
    · rw [same]
      exact ⟨⟨live, isLive, present, .inl closed⟩, tame⟩
    · rw [same]
      exact ⟨⟨live, isLive, present, .inl closed⟩, .of_none rfl⟩
    · rw [same]
      refine ⟨⟨live, isLive, present, .inl closed⟩, fun container isContainer => .inl ?_⟩
      obtain rfl := Option.some.inj isContainer
      exact ⟨gated image isImage, rfl, live, isLive, closed⟩
  · have kept : s.Kept .live := ⟨live, isLive, holds⟩
    refine ⟨?_, tame.up kept⟩
    obtain same | same | ⟨image, -, same⟩ := up_cases isLive outcome <;>
      (rw [same]; exact ⟨live, isLive, present, .inr holds⟩)

/-- A rename takes the marker with it. -/
theorem Gated.move (gated : s.Gated container) (different : source ≠ target) (free : s.dir? target = none) :
    (s.move source target).Gated (container.moved source target) := by
  obtain ⟨hasGate, idle, directory, found, marked⟩ := gated
  rw [Container.moved]
  split
  next isSource =>
    refine ⟨hasGate, idle, directory, ?_, marked⟩
    rw [dir?_move, if_neg different.symm, if_pos rfl, ← isSource]
    exact found
  next notSource =>
    refine ⟨hasGate, idle, directory, ?_, marked⟩
    have notTarget : container.mount ≠ target := by
      intro isTarget
      rw [isTarget, free] at found
      cases found
    rw [dir?_move, if_neg notSource, if_neg notTarget]
    exact found

theorem Behind.move (behind : s.Behind) (different : source ≠ target) (free : s.dir? target = none) : (s.move source target).Behind := by
  intro container isContainer
  rw [container_move, Option.map_eq_some_iff] at isContainer
  obtain ⟨original, isOriginal, rfl⟩ := isContainer
  exact (behind original isOriginal).move different free

/-! ## The container starts -/

/-- A migration changes neither what is stored nor a marker. -/
structure Alike (s s' : HostState) : Prop where
  env : s'.env = s.env
  current : s'.current = s.current
  dirs : ∀ name directory, s.dir? name = some directory → ∃ changed, s'.dir? name = some changed ∧ changed.marker = directory.marker ∧
    changed.writes = directory.writes ∧ (directory.database ≠ none → changed.database ≠ none)
  sibling : s.sibling = true → s'.sibling = true
  container : ∀ container, s'.container = some container → ∃ before, s.container = some before ∧ container.image = before.image ∧
    container.mount = before.mount ∧ container.busy = before.busy

theorem Kept.alike (kept : s.Kept name) (alike : Alike s s') : s'.Kept name := by
  obtain ⟨directory, found, holds⟩ := kept
  obtain ⟨changed, isChanged, -, written, -⟩ := alike.dirs name directory found
  exact ⟨changed, isChanged, by rwa [written, alike.current]⟩

theorem Closed.alike (closed : s.Closed) (alike : Alike s s') : s'.Closed := by
  obtain ⟨live, isLive, marked⟩ := closed
  obtain ⟨changed, isChanged, marker, -, -⟩ := alike.dirs .live live isLive
  exact ⟨changed, isChanged, marker.trans marked⟩

theorem Former.alike (former : s.Former name) (alike : Alike s s') : s'.Former name := by
  obtain ⟨directory, found, present, holds⟩ := former
  obtain ⟨changed, isChanged, marker, written, stays⟩ := alike.dirs name directory found
  exact ⟨changed, isChanged, stays present, by rwa [marker, written, alike.current]⟩

theorem Gated.alike {after : Container} (gated : s.Gated container) (alike : Alike s s') (image : after.image = container.image)
    (mount : after.mount = container.mount) (busy : after.busy = container.busy) : s'.Gated after := by
  obtain ⟨hasGate, idle, directory, found, marked⟩ := gated
  obtain ⟨changed, isChanged, marker, -, -⟩ := alike.dirs container.mount directory found
  exact ⟨by rwa [image], by rwa [busy], changed, by rwa [mount], marker.trans marked⟩

theorem Tame.alike (tame : s.Tame) (alike : Alike s s') : s'.Tame := by
  intro after isAfter
  obtain ⟨before, isBefore, image, mount, busy⟩ := alike.container after isAfter
  obtain gated | ⟨isLive, kept⟩ := tame before isBefore
  · exact .inl (gated.alike alike image mount busy)
  · exact .inr ⟨mount.trans isLive, kept.alike alike⟩

theorem Behind.alike (behind : s.Behind) (alike : Alike s s') : s'.Behind := by
  intro after isAfter
  obtain ⟨before, isBefore, image, mount, busy⟩ := alike.container after isAfter
  exact (behind before isBefore).alike alike image mount busy

theorem waiting_alike (waiting : ∀ container, s.container = some container → s.Gated container ∧ container.mount = .live)
    (alike : Alike s s') : ∀ container, s'.container = some container → s'.Gated container ∧ container.mount = .live := by
  intro after isAfter
  obtain ⟨before, isBefore, image, mount, busy⟩ := alike.container after isAfter
  obtain ⟨gated, isLive⟩ := waiting before isBefore
  exact ⟨gated.alike alike image mount busy, mount.trans isLive⟩

theorem EnvGated.alike (gated : s.EnvGated) (alike : Alike s s') : s'.EnvGated := by
  rw [EnvGated, alike.env]
  exact gated

theorem Trial.alike (trial : s.Trial stamp) (alike : Alike s s') : s'.Trial stamp :=
  ⟨trial.closed.alike alike, trial.live.alike alike, trial.snapshot.alike alike, waiting_alike trial.container alike⟩

theorem Tried.alike (tried : s.Tried deployment) (alike : Alike s s') : s'.Tried deployment :=
  ⟨tried.1.alike alike, tried.2.1.alike alike, fun migrates => ⟨(tried.2.2 migrates).1, (tried.2.2 migrates).2.alike alike⟩⟩

theorem Restored.alike (restored : s.Restored stamp) (alike : Alike s s') : s'.Restored stamp :=
  ⟨restored.closed.alike alike, restored.former.alike alike, waiting_alike restored.container alike, restored.env.alike alike⟩

theorem Unpacked.alike {marker : Bool} (unpacked : s.Unpacked stamp marker) (alike : Alike s s') : s'.Unpacked stamp marker := by
  obtain ⟨former, tame, env, directory, found, marked⟩ := unpacked
  obtain ⟨changed, isChanged, sameMarker, -, -⟩ := alike.dirs _ directory found
  exact ⟨former.alike alike, tame.alike alike, env.alike alike, changed, isChanged, sameMarker.trans marked⟩

theorem Directory.writes_migrate {image : Image} {directory : Directory} {database : Database}
    (migrated : image.migrate directory.database = some database) :
    Directory.writes { directory with database := some database } = directory.writes := by
  cases before : directory.database with
  | none =>
    rw [before] at migrated
    simp only [Image.migrate, Option.some.injEq] at migrated
    simp [Directory.writes, before, ← migrated]
  | some old =>
    rw [before] at migrated
    simp only [Image.migrate, Option.ite_none_right_eq_some, Option.some.injEq] at migrated
    simp [Directory.writes, before, ← migrated.2]

theorem sibling_setDir {directory : Directory} (present : s.sibling = true) : (s.setDir name (some directory)).sibling = true := by
  obtain ⟨other, notLive, isThere⟩ := sibling_iff.mp present
  refine sibling_iff.mpr ⟨other, notLive, ?_⟩
  rw [dir?_setDir]
  split
  · exact Option.some_ne_none _
  · exact isThere

/-- What starting a container comes to. -/
theorem bootContainer_spec (booted : s.bootContainer container = some s') : ∃ directory changed, s.dir? container.mount = some directory ∧
    s' = (s.setDir container.mount (some changed)).setContainer (some { container with serving := true }) ∧
    changed.marker = directory.marker ∧ changed.writes = directory.writes ∧ changed.database ≠ none ∧
    container.image.migrate directory.database = changed.database := by
  rw [bootContainer] at booted
  split at booted
  next directory found =>
    split at booted
    next database migrated =>
      obtain rfl := Option.some.inj booted
      exact ⟨directory, { directory with database := some database }, found, rfl, rfl, Directory.writes_migrate migrated,
        Option.some_ne_none _, migrated⟩
    next => cases booted
  next => cases booted

theorem alike_boot (isContainer : s.container = some container) (booted : s.bootContainer container = some s') : Alike s s' := by
  obtain ⟨directory, changed, found, rfl, marker, written, present, -⟩ := bootContainer_spec booted
  constructor
  case env => exact env_setDir
  case current => exact current_setDir
  case dirs =>
    intro name other isOther
    rw [dir?_setContainer, dir?_setDir]
    split
    next isMount =>
      rw [isMount, found] at isOther
      obtain rfl := Option.some.inj isOther
      exact ⟨changed, rfl, marker, written, fun _ => present⟩
    next => exact ⟨other, isOther, rfl, rfl, id⟩
  case sibling => exact sibling_setDir
  case container =>
    intro after isAfter
    obtain rfl := Option.some.inj isAfter
    exact ⟨container, isContainer, rfl, rfl, rfl⟩

/-- A container behind the gate has no empty directory. -/
theorem Vacant.boot (vacant : s.Vacant) (gated : s.Gated container) (booted : s.bootContainer container = some s') : s'.Vacant := by
  obtain ⟨directory, changed, found, rfl, marker, -, -, -⟩ := bootContainer_spec booted
  intro live isLive
  obtain ⟨-, -, other, isOther, marked⟩ := gated
  obtain rfl := Option.some.inj (found.symm.trans isOther)
  rw [dir?_setContainer, dir?_setDir] at isLive
  split at isLive
  next isMount =>
    have closed := (vacant directory (by rw [isMount]; exact found)).2
    rw [marked] at closed
    cases closed
  next => exact vacant live isLive

theorem Alike.none (alike : Alike s s') (stopped : s.container = none) : s'.container = none := by
  cases isAfter : s'.container with
  | none => rfl
  | some after =>
    obtain ⟨before, isBefore, -⟩ := alike.container after isAfter
    rw [stopped] at isBefore
    cases isBefore

theorem DeployInv.alike {point : DeployPoint} (invariant : s.DeployInv deployment point) (alike : Alike s s')
    (vacant : s.Vacant → s.Behind → s'.Vacant) : s'.DeployInv deployment point := by
  cases point with
  | prepared | reopening | restarting | pulling | rewriting | relaunching | rechecking =>
    exact ⟨invariant.1.alike alike, invariant.2.alike alike⟩
  | closing => exact ⟨invariant.1.alike alike, invariant.2.1.alike alike, invariant.2.2⟩
  | stopping => exact ⟨invariant.1.alike alike, invariant.2.1.alike alike, invariant.2.2.1.alike alike, invariant.2.2.2⟩
  | snapshotting => exact ⟨invariant.1.alike alike, alike.none invariant.2.1, invariant.2.2.1.alike alike, invariant.2.2.2⟩
  | starting | checking | opening => exact Tried.alike invariant alike
  | launching =>
    refine ⟨invariant.1.alike alike, ?_⟩
    rw [alike.env]
    exact invariant.2
  | stoppingCandidate | settingAside => exact Trial.alike invariant alike
  | puttingBack => exact ⟨vacant invariant.1 invariant.2.2, invariant.2.1.alike alike, invariant.2.2.alike alike⟩

theorem RestoreInv.alike {point : RestorePoint} (invariant : s.RestoreInv stamp point) (alike : Alike s s')
    (vacant : s.Vacant → s.Behind → s'.Vacant) : s'.RestoreInv stamp point := by
  cases point with
  | unpacked | marking | stopping => exact Unpacked.alike invariant alike
  | settingAside => exact ⟨invariant.1.alike alike, alike.none invariant.2⟩
  | swapping =>
    obtain ⟨empty, former, stopped, env, directory, found, marked⟩ := invariant
    obtain ⟨changed, isChanged, marker, -, -⟩ := alike.dirs _ directory found
    have behind : s.Behind := fun container isContainer => by
      rw [stopped] at isContainer
      cases isContainer
    exact ⟨vacant empty behind, former.alike alike, alike.none stopped, env.alike alike, changed, isChanged, marker.trans marked⟩
  | launching | checking | opening | stoppingAgain | revertingAside => exact Restored.alike invariant alike
  | revertingBack =>
    exact ⟨vacant invariant.1 invariant.2.2.1, invariant.2.1.alike alike, invariant.2.2.1.alike alike, invariant.2.2.2.alike alike⟩
  | relaunching => exact ⟨invariant.1.alike alike, invariant.2.1.alike alike, invariant.2.2.alike alike⟩

theorem alike_script (s : HostState) (script : Script) : Alike s { s with script } where
  env := rfl
  current := rfl
  dirs _ directory found := ⟨directory, found, rfl, rfl, id⟩
  sibling := id
  container container isContainer := ⟨container, isContainer, rfl, rfl, rfl⟩

theorem Resting.boot (resting : s.Resting) (tame : s.Tame) (isContainer : s.container = some container)
    (booted : s.bootContainer container = some s') : s'.Resting := by
  have alike := alike_boot isContainer booted
  obtain gated | ⟨isLive, kept⟩ := tame container isContainer
  · obtain ⟨directory, changed, found, rfl, marker, -, -, -⟩ := bootContainer_spec booted
    obtain ⟨-, -, other, isOther, marked⟩ := gated
    obtain rfl := Option.some.inj (found.symm.trans isOther)
    refine ⟨fun live isLive => ?_, fun absent => ?_⟩
    · rw [dir?_setContainer, dir?_setDir] at isLive
      split at isLive
      next =>
        obtain rfl := Option.some.inj isLive
        exact .inl (marker.trans marked)
      next =>
        obtain closed | holds | ⟨empty, sibling⟩ := resting.1 live isLive
        · exact .inl closed
        · exact .inr (.inl (by rwa [alike.current]))
        · exact .inr (.inr ⟨empty, alike.sibling sibling⟩)
    · rw [dir?_setContainer, dir?_setDir] at absent
      split at absent
      next => cases absent
      next =>
        obtain nothing | sibling := resting.2 absent
        · exact .inl (by rwa [alike.current])
        · exact .inr (alike.sibling sibling)
  · exact (kept.alike alike).resting

/-! ## Users write -/

theorem store_spec {write : Write} (stored : s.store container write = some s') : ∃ directory changed, s.dir? container.mount = some directory ∧
    s' = { (s.setDir container.mount (some changed)).setContainer (some { container with busy := true }) with
      current := s.current ++ [write] } ∧
    changed.database ≠ none ∧ changed.writes = directory.writes ++ [write] ∧ changed.marker = directory.marker ∧
    changed.revision? = directory.revision? := by
  rw [store] at stored
  split at stored
  next database marker found =>
    obtain rfl := Option.some.inj stored
    exact ⟨_, _, found, rfl, Option.some_ne_none _, rfl, rfl, rfl⟩
  next => cases stored

/-- What a release that is not held back stores is stored in the live directory, with everything before it. -/
theorem store_former {write : Write} (kept : s.Kept .live) (isLive : container.mount = .live) (stored : s.store container write = some s') :
    s'.Former .live ∧ s'.Kept .live ∧ s'.Tame ∧ (∀ name, name ≠ .live → s'.dir? name = s.dir? name) ∧
      (s.Closed → s'.Closed) := by
  obtain ⟨directory, changed, found, rfl, present, written, marker, -⟩ := store_spec stored
  rw [isLive] at found
  obtain ⟨live, isDirectory, holds⟩ := kept
  obtain rfl := Option.some.inj (found.symm.trans isDirectory)
  have isChanged : (s.setDir container.mount (some changed)).dir? .live = some changed := by
    rw [isLive, dir?_setDir_same]
  have complete : s.current ++ [write] ⊆ changed.writes := by
    rw [written]
    exact List.append_subset.mpr ⟨List.subset_append_of_subset_left _ holds, List.subset_append_right _ _⟩
  refine ⟨⟨changed, isChanged, present, .inr complete⟩, ⟨changed, isChanged, complete⟩, ?_, ?_, ?_⟩
  · intro after isAfter
    obtain rfl := Option.some.inj isAfter
    exact .inr ⟨isLive, changed, isChanged, complete⟩
  · intro name notLive
    exact dir?_setDir_ne (by rwa [isLive])
  · rintro ⟨other, isOther, marked⟩
    obtain rfl := Option.some.inj (found.symm.trans isOther)
    exact ⟨changed, isChanged, marker.trans marked⟩

theorem not_gated_of_accepts (accepts : s.accepts container = true) : ¬ s.Gated container := by
  rintro ⟨hasGate, -, directory, found, marked⟩
  simp [HostState.accepts, hasGate, found, marked] at accepts

theorem not_gated_of_busy (busy : container.busy = true) : ¬ s.Gated container := by
  rintro ⟨-, idle, -⟩
  rw [busy] at idle
  cases idle

section

variable {write : Write} (isContainer : s.container = some container) (notGated : ¬ s.Gated container)
  (stored : s.store container write = some s')

include isContainer notGated stored

theorem Tame.store (tame : s.Tame) : s'.Former .live ∧ s'.Kept .live ∧ s'.Tame ∧ (∀ name, name ≠ .live → s'.dir? name = s.dir? name) ∧
    (s.Closed → s'.Closed) := by
  obtain gated | ⟨isLive, kept⟩ := tame container isContainer
  · exact absurd gated notGated
  · exact store_former kept isLive stored

theorem DeployInv.store {point : DeployPoint} (invariant : s.DeployInv deployment point) : s'.DeployInv deployment point := by
  have tried (invariant : s.Tried deployment) : s'.Tried deployment := by
    obtain ⟨-, kept, tame, -, -⟩ := invariant.2.1.store isContainer notGated stored
    exact ⟨kept, tame, fun migrates => absurd ((invariant.2.2 migrates).2.container _ isContainer).1 notGated⟩
  cases point with
  | prepared | reopening | restarting | pulling | rewriting | relaunching | rechecking =>
    obtain ⟨-, kept, tame, -, -⟩ := invariant.2.store isContainer notGated stored
    exact ⟨kept, tame⟩
  | closing =>
    obtain ⟨-, kept, tame, -, -⟩ := invariant.2.1.store isContainer notGated stored
    exact ⟨kept, tame, invariant.2.2⟩
  | stopping =>
    obtain ⟨-, kept, tame, -, closed⟩ := invariant.2.1.store isContainer notGated stored
    exact ⟨kept, tame, closed invariant.2.2.1, invariant.2.2.2⟩
  | snapshotting =>
    rw [invariant.2.1] at isContainer
    cases isContainer
  | starting | checking | opening => exact tried invariant
  | launching =>
    refine ⟨tried invariant.1, ?_⟩
    obtain ⟨directory, changed, -, rfl, -⟩ := store_spec stored
    simpa [setContainer] using invariant.2
  | stoppingCandidate | settingAside => exact absurd (Trial.container invariant _ isContainer).1 notGated
  | puttingBack => exact absurd (invariant.2.2 _ isContainer) notGated

theorem RestoreInv.store {point : RestorePoint} (invariant : s.RestoreInv stamp point) : s'.RestoreInv stamp point := by
  have env (gated : s.EnvGated) : s'.EnvGated := by
    obtain ⟨directory, changed, -, rfl, -⟩ := store_spec stored
    simpa [EnvGated, setContainer] using gated
  have unpacked {marker : Bool} (invariant : s.Unpacked stamp marker) : s'.Unpacked stamp marker := by
    obtain ⟨former, -, tame, same, -⟩ := invariant.tame.store isContainer notGated stored
    obtain ⟨directory, found, marked⟩ := invariant.candidate
    exact ⟨former, tame, env invariant.env, directory, (same _ (by simp)).trans found, marked⟩
  cases point with
  | unpacked | marking | stopping => exact unpacked invariant
  | settingAside =>
    rw [invariant.2] at isContainer
    cases isContainer
  | swapping =>
    rw [invariant.2.2.1] at isContainer
    cases isContainer
  | launching | checking | opening | stoppingAgain | revertingAside => exact absurd (Restored.container invariant _ isContainer).1 notGated
  | revertingBack => exact absurd (invariant.2.2.1 _ isContainer) notGated
  | relaunching =>
    obtain ⟨former, -, tame, -, -⟩ := invariant.2.1.store isContainer notGated stored
    exact ⟨former, tame, env invariant.2.2⟩

end

/-! ## An empty directory appears -/

theorem Vacant.installDir (vacant : s.Vacant) : s.installDir.Vacant := by
  intro live isLive
  rw [dir?_installDir, if_pos rfl] at isLive
  obtain rfl := Option.some.inj isLive
  cases found : s.dir? .live with
  | none => exact ⟨rfl, rfl⟩
  | some directory => exact vacant directory found

theorem Kept.installDir (kept : s.Kept name) (notLive : name ≠ .live) : s.installDir.Kept name :=
  kept.congr (by rw [dir?_installDir, if_neg notLive]) current_installDir

theorem Former.installDir (former : s.Former name) (notLive : name ≠ .live) : s.installDir.Former name :=
  former.congr (by rw [dir?_installDir, if_neg notLive]) current_installDir

theorem Gated.installDir (gated : s.Gated container) : s.installDir.Gated container := by
  obtain ⟨hasGate, idle, directory, found, marked⟩ := gated
  refine ⟨hasGate, idle, directory, ?_, marked⟩
  rw [dir?_installDir]
  split
  next isLive =>
    rw [isLive] at found
    rw [found]
    rfl
  next => exact found

theorem Tame.installDir (tame : s.Tame) : s.installDir.Tame := by
  intro container isContainer
  rw [container_installDir] at isContainer
  obtain gated | ⟨isLive, kept⟩ := tame container isContainer
  · exact .inl gated.installDir
  · obtain ⟨live, found⟩ := kept.exists_live
    exact .inr ⟨isLive, by rwa [installDir_of_some found]⟩

theorem Resting.installDir (resting : s.Resting) : s.installDir.Resting := by
  cases found : s.dir? .live with
  | some live => rwa [installDir_of_some found]
  | none =>
    refine ⟨fun live isLive => ?_, fun absent => ?_⟩
    · rw [dir?_installDir, if_pos rfl, found] at isLive
      obtain rfl := Option.some.inj isLive
      obtain nothing | sibling := resting.2 found
      · refine .inr (.inl ?_)
        rw [current_installDir, nothing]
        exact List.nil_subset _
      · refine .inr (.inr ⟨rfl, ?_⟩)
        obtain ⟨other, notLive, present⟩ := sibling_iff.mp sibling
        refine sibling_iff.mpr ⟨other, notLive, ?_⟩
        rwa [dir?_installDir, if_neg notLive]
    · rw [dir?_installDir, if_pos rfl] at absent
      cases absent

theorem WritesInv.installDir (invariant : s.WritesInv) : s.installDir.WritesInv := by
  cases found : s.dir? .live with
  | some live => rwa [installDir_of_some found]
  | none =>
    have noLive {property : Directory → Prop} (present : ∃ live, s.dir? .live = some live ∧ property live) : False := by
      obtain ⟨live, isLive, -⟩ := present
      rw [found] at isLive
      cases isLive
    rw [WritesInv] at invariant ⊢
    rw [script_installDir]
    cases running : s.script with
    | idle =>
      rw [running] at invariant
      exact ⟨invariant.1.installDir, invariant.2.installDir⟩
    | deploy deployment point =>
      rw [running] at invariant
      cases point with
      | puttingBack =>
        refine ⟨invariant.1.installDir, invariant.2.1.installDir (by simp), fun container isContainer => ?_⟩
        rw [container_installDir] at isContainer
        exact (invariant.2.2 container isContainer).installDir
      | launching => exact (noLive invariant.1.1).elim
      | stoppingCandidate | settingAside => exact (noLive (Trial.live invariant)).elim
      | _ => exact (noLive invariant.1).elim
    | restore stamp point =>
      rw [running] at invariant
      cases point with
      | swapping =>
        obtain ⟨vacant, former, stopped, env, directory, isThere, marked⟩ := invariant
        refine ⟨vacant.installDir, former.installDir (by simp), container_installDir.trans stopped, ?_, directory, ?_, marked⟩
        · rwa [EnvGated, env_installDir]
        · rwa [dir?_installDir, if_neg (by simp)]
      | revertingBack =>
        obtain ⟨vacant, former, behind, env⟩ := invariant
        refine ⟨vacant.installDir, former.installDir (by simp), fun container isContainer => ?_, ?_⟩
        · rw [container_installDir] at isContainer
          exact (behind container isContainer).installDir
        · rwa [EnvGated, env_installDir]
      | unpacked | marking | stopping => exact (noLive (Unpacked.former invariant)).elim
      | settingAside => exact (noLive invariant.1.former).elim
      | relaunching => exact (noLive invariant.1).elim
      | launching | checking | opening | stoppingAgain | revertingAside => exact (noLive (Restored.closed invariant)).elim

end HostState

end Oveo.Deploy
