import Mathlib.Logic.Function.Basic
import Oveo.Deploy.Scripts

/-! # The recorded release knows the live schema

`deploy.env` names the release that an undone deployment, a reverted restore or a person starts next.
What matters here of a host is only the schema revision of each directory, and which release runs
where: `HostState.schema`. -/

namespace Oveo.Deploy

open Oveo.Lib

/-- What runs. -/
structure Release where
  image : Image
  mount : Name
  serving : Bool
deriving DecidableEq, Repr

/-- What of a host decides on which schema a release starts. -/
structure Schema where
  env : Option Image
  /-- Of each directory that exists, the revision of its database, if it has one. -/
  revision : Name → Option (Option Revision)
  release : Option Release

def Container.release (container : Container) : Release := ⟨container.image, container.mount, container.serving⟩

def HostState.schema (s : HostState) : Schema where
  env := s.env
  revision name := (s.dir? name).map Directory.revision?
  release := s.container.map Container.release

namespace Schema

section

variable (c : Schema)

def setRevision (name : Name) (revision : Option (Option Revision)) : Schema :=
  { c with revision := Function.update c.revision name revision }

def setRelease (release : Option Release) : Schema := { c with release }

def move (source target : Name) : Schema :=
  ((c.setRevision target (c.revision source)).setRevision source none).setRelease
    (c.release.map fun release => if release.mount = source then { release with mount := target } else release)

/-- A release finishes its start. -/
def boot (release : Release) : Schema :=
  (c.setRevision release.mount (some (some release.image.head))).setRelease (some { release with serving := true })

end

end Schema

namespace HostState

variable {s s' : HostState} {name source target : Name} {outcome : Outcome} {container : Container}

@[simp] theorem schema_setDir {directory? : Option Directory} :
    (s.setDir name directory?).schema = s.schema.setRevision name (directory?.map Directory.revision?) := by
  simp only [schema, Schema.setRevision, env_setDir, container_setDir, Schema.mk.injEq, true_and, and_true]
  funext other
  rw [dir?_setDir, Function.update_apply]
  split <;> rfl

@[simp] theorem schema_setMarker {marker : Bool} : (s.setMarker name marker).schema = s.schema := by
  have same : ((s.dir? name).map fun directory => { directory with marker }).map Directory.revision? = s.schema.revision name := by
    rw [Option.map_map]
    rfl
  rw [setMarker, schema_setDir, same]
  simp [Schema.setRevision]

@[simp] theorem schema_move : (s.move source target).schema = s.schema.move source target := by
  have moved : (s.container.map (Container.moved source target)).map Container.release = s.schema.release.map
      fun release => if release.mount = source then { release with mount := target } else release := by
    rw [schema, Option.map_map, Option.map_map]
    congr 1
    funext container
    by_cases isSource : container.mount = source <;> simp [Container.moved, Container.release, isSource]
  show ((s.setDir target (s.dir? source)).setDir source none).schema.setRelease
    ((s.container.map (Container.moved source target)).map Container.release) = _
  rw [schema_setDir, schema_setDir, moved]
  rfl

theorem schema_store {write : Write} (isContainer : s.container = some container) (stored : s.store container write = some s') :
    s'.schema = s.schema := by
  rw [store] at stored
  split at stored
  next database marker found =>
    obtain rfl := Option.some.inj stored
    have same : s.schema.revision container.mount = some (some database.revision) := by
      simp only [schema, found]
      rfl
    show { (s.setDir container.mount _).schema with release := some container.release } = s.schema
    rw [schema_setDir]
    have running : s.schema.release = some container.release := by
      simp only [schema, isContainer]
      rfl
    have unchanged : Function.update s.schema.revision container.mount (some (some database.revision)) = s.schema.revision := by
      rw [← same, Function.update_eq_self]
    simp only [Schema.setRevision, Option.map_some, Directory.revision?, unchanged, ← running]
  next => cases stored

/-- A release starts on a directory without a database, or whose revision it knows. -/
theorem schema_boot (booted : s.bootContainer container = some s') :
    s'.schema = s.schema.boot container.release ∧ ∃ revision?, s.schema.revision container.mount = some revision? ∧
      ∀ revision, revision? = some revision → revision ∈ container.image.revisions := by
  rw [bootContainer] at booted
  split at booted
  next directory found =>
    split at booted
    next database migrated =>
      obtain rfl := Option.some.inj booted
      have known : database.revision = container.image.head ∧
          ∀ revision, directory.revision? = some revision → revision ∈ container.image.revisions := by
        cases before : directory.database with
        | none =>
          rw [before] at migrated
          simp only [Image.migrate, Option.some.injEq] at migrated
          rw [← migrated]
          simp [Directory.revision?, before]
        | some old =>
          rw [before] at migrated
          simp only [Image.migrate, Option.ite_none_right_eq_some, Option.some.injEq] at migrated
          rw [← migrated.2]
          simpa [Directory.revision?, before] using migrated.1
      refine ⟨?_, directory.revision?, by simp [schema, found], known.2⟩
      show (s.setDir container.mount _).schema.setRelease (some { container.release with serving := true }) = _
      rw [schema_setDir, Option.map_some, Directory.revision?, Option.map_some, known.1]
      rfl
    next => cases booted
  next => cases booted

end HostState

/-- What a release that starts on the revision finds. -/
def Image.Knows (image : Image) (revision? : Option Revision) : Prop := ∀ revision, revision? = some revision → revision ∈ image.revisions

/-- Where a container can be: what is unpacked or copied is not started before it is moved. -/
def Name.mountable : Name → Bool
  | .predeploy _ | .restore _ => false
  | _ => true

namespace Schema

section

variable (c : Schema)

def Compatible : Prop := ∀ image revision?, c.env = some image → c.revision .live = some revision? → image.Knows revision?

/-- What starts on the live directory is recorded, or does not migrate it. -/
def Starts : Prop := ∀ release, c.release = some release → release.serving = false → release.mount = .live →
  c.env = some release.image ∨ c.revision .live = some (some release.image.head)

def Mounts : Prop := ∀ release, c.release = some release → release.mount.mountable = true

def Settled : Prop := ∀ release, c.release = some release → release.serving = true

def Vacant : Prop := ∀ revision?, c.revision .live = some revision? → revision? = none

structure Sound : Prop where
  compatible : c.Compatible
  starts : c.Starts
  mounts : c.Mounts

/-- What a deployment knows once it has decided whether the candidate migrates. -/
structure Planned (deployment : Deployment) : Prop where
  previous : ∀ previous, deployment.previous = some previous → previous.Knows deployment.currentRevision
  recorded : deployment.previous ≠ none → deployment.currentRevision ≠ none
  image : deployment.image.Knows deployment.currentRevision
  plain : deployment.migrating = false → ∀ revision, deployment.currentRevision = some revision → revision = deployment.image.head

structure Prepared (deployment : Deployment) : Prop where
  sound : c.Sound
  recorded : c.env = deployment.previous
  settled : c.Settled
  live : ∃ revision?, c.revision .live = some revision? ∧ (deployment.previous ≠ none → revision? ≠ none)

/-- Before the candidate is recorded. -/
structure Early (deployment : Deployment) : Prop where
  planned : Planned deployment
  recorded : c.env = deployment.previous
  settled : c.Settled
  mounts : c.Mounts
  live : c.revision .live = some deployment.currentRevision

def Snapped (deployment : Deployment) : Prop := c.revision (.predeploy deployment.stamp) = some deployment.currentRevision

/-- The candidate may be recorded, and may have migrated the live directory. -/
structure Launched (deployment : Deployment) : Prop where
  planned : Planned deployment
  mounts : c.Mounts
  starts : ∀ release, c.release = some release → release.serving = false →
    release.image = deployment.image ∧ release.mount = .live ∧ c.env = some deployment.image
  snapped : deployment.migrating = true → c.Snapped deployment
  live : ∃ revision?, c.revision .live = some revision? ∧
    (∀ image, c.env = some image → image = deployment.image ∧ (revision? = deployment.currentRevision ∨ revision? = some deployment.image.head) ∨
      deployment.previous = some image ∧ revision? = deployment.currentRevision) ∧
    (deployment.migrating = false → deployment.currentRevision ≠ none → revision? = deployment.currentRevision)

/-- The migrated directory is set aside. -/
structure Aside (deployment : Deployment) : Prop where
  planned : Planned deployment
  mounts : c.Mounts
  elsewhere : ∀ release, c.release = some release → release.serving = false → release.mount ≠ .live
  snapped : c.Snapped deployment
  vacant : c.Vacant
  recorded : ∀ image, c.env = some image → image = deployment.image ∨ deployment.previous = some image

/-- The live directory is as the deployment found it. -/
structure Undone (deployment : Deployment) : Prop where
  planned : Planned deployment
  sound : c.Sound
  live : deployment.previous ≠ none → c.revision .live = some deployment.currentRevision
  starts : deployment.previous ≠ none → ∀ release, c.release = some release → release.serving = false → release.mount = .live →
    deployment.currentRevision = some release.image.head

def Restorable (stamp : Nat) : Prop := ∃ image revision?, c.env = some image ∧ c.revision (.restore stamp) = some revision? ∧ image.Knows revision?

def Former (stamp : Nat) : Prop := ∀ image revision?, c.env = some image → c.revision (.preRestore stamp) = some revision? → image.Knows revision?

/-- The recorded release is tried on the restored data. -/
structure Reborn (stamp : Nat) : Prop where
  former : c.Former stamp
  live : ∃ image revision?, c.env = some image ∧ c.revision .live = some revision? ∧ image.Knows revision? ∧
    ∀ release, c.release = some release → release.mount = .live ∧ (release.serving = false → release.image = image)

def DeployInv (deployment : Deployment) : DeployPoint → Prop
  | .prepared => c.Prepared deployment
  | .closing | .stopping | .snapshotting | .reopening _ | .restarting => c.Early deployment
  | .starting => c.Early deployment ∧ (deployment.migrating = true → c.Snapped deployment)
  | .launching => c.Launched deployment ∧ ∀ image, c.env = some image → image = deployment.image
  | .checking | .opening => c.Launched deployment
  | .stoppingCandidate | .settingAside => c.Launched deployment ∧ deployment.migrating = true
  | .puttingBack => c.Aside deployment
  | .pulling | .rewriting => c.Undone deployment
  | .relaunching | .rechecking => c.Sound

def RestoreInv (stamp : Nat) : RestorePoint → Prop
  | .unpacked => c.Sound
  | .marking | .stopping => c.Sound ∧ c.Restorable stamp
  | .settingAside => c.Sound ∧ c.Restorable stamp ∧ c.release = none
  | .swapping => c.release = none ∧ c.Vacant ∧ c.Restorable stamp ∧ c.Former stamp
  | .launching | .checking | .opening | .stoppingAgain | .revertingAside => c.Reborn stamp
  | .revertingBack => c.Vacant ∧ c.Former stamp ∧ ∀ release, c.release = some release → release.mount = .failedRestore stamp
  | .relaunching => c.Sound

end

variable {c : Schema} {deployment : Deployment} {stamp : Nat} {release : Release} {source target : Name}

/-! ## Every point leaves the recorded release compatible -/

theorem Image.knows_head (image : Image) : image.Knows (some image.head) := by
  intro revision isHead
  rw [← Option.some.inj isHead]
  exact List.mem_cons_self

theorem Image.knows_none (image : Image) : image.Knows none := fun _ isSome => by cases isSome

theorem Early.sound (early : c.Early deployment) : c.Sound where
  compatible image revision? isRecorded isLive := by
    rw [early.live] at isLive
    obtain rfl := Option.some.inj isLive
    exact early.planned.previous image (early.recorded ▸ isRecorded)
  starts release isRelease starting := by
    rw [early.settled release isRelease] at starting
    cases starting
  mounts := early.mounts

theorem Launched.sound (launched : c.Launched deployment) : c.Sound where
  compatible image revision? isRecorded isLive := by
    obtain ⟨other, isOther, recorded, -⟩ := launched.live
    obtain rfl := Option.some.inj (isLive.symm.trans isOther)
    obtain ⟨rfl, rfl | rfl⟩ | ⟨isPrevious, rfl⟩ := recorded image isRecorded
    · exact launched.planned.image
    · exact Image.knows_head _
    · exact launched.planned.previous image isPrevious
  starts release isRelease starting _ := by
    obtain ⟨isCandidate, -, recorded⟩ := launched.starts release isRelease starting
    exact .inl (isCandidate ▸ recorded)
  mounts := launched.mounts

theorem Aside.sound (aside : c.Aside deployment) : c.Sound where
  compatible image revision? _ isLive := by
    rw [aside.vacant revision? isLive]
    exact Image.knows_none image
  starts release isRelease starting isLive := absurd isLive (aside.elsewhere release isRelease starting)
  mounts := aside.mounts

theorem Reborn.sound (reborn : c.Reborn stamp) : c.Sound := by
  obtain ⟨image, revision?, isRecorded, isLive, known, running⟩ := reborn.live
  constructor
  case compatible =>
    intro other other? isOther isThere
    obtain rfl := Option.some.inj (isRecorded.symm.trans isOther)
    obtain rfl := Option.some.inj (isLive.symm.trans isThere)
    exact known
  case starts =>
    intro release isRelease starting _
    rw [(running release isRelease).2 starting]
    exact .inl isRecorded
  case mounts =>
    intro release isRelease
    rw [(running release isRelease).1]
    rfl

/-- What a deployment that failed leaves is as it found it, unless there was no database. -/
theorem Launched.undone (launched : c.Launched deployment) (plain : deployment.migrating = false) : c.Undone deployment where
  planned := launched.planned
  sound := launched.sound
  live recorded := by
    obtain ⟨revision?, isLive, -, same⟩ := launched.live
    rw [isLive, same plain (launched.planned.recorded recorded)]
  starts recorded release isRelease starting _ := by
    obtain ⟨revision, isCurrent⟩ := Option.ne_none_iff_exists'.mp (launched.planned.recorded recorded)
    rw [isCurrent, launched.planned.plain plain revision isCurrent, (launched.starts release isRelease starting).1]

/-! ## A release finishes its start -/

theorem revision_boot_ne {name : Name} (elsewhere : name ≠ release.mount) : (c.boot release).revision name = c.revision name := by
  simp only [Schema.boot, setRevision, setRelease, Function.update_apply, if_neg elsewhere]

theorem revision_boot_same : (c.boot release).revision release.mount = some (some release.image.head) := by
  simp only [Schema.boot, setRevision, setRelease, Function.update_self]

theorem release_boot {other : Release} (isOther : (c.boot release).release = some other) : other = { release with serving := true } :=
  (Option.some.inj isOther).symm

theorem Mounts.ne_of_not_mountable {name : Name} (mounts : c.Mounts) (isRelease : c.release = some release) (hidden : name.mountable = false) :
    name ≠ release.mount := by
  rintro rfl
  rw [mounts release isRelease] at hidden
  cases hidden

section

variable (isRelease : c.release = some release) (starting : release.serving = false)

include isRelease starting

theorem Sound.boot (sound : c.Sound) : (c.boot release).Sound where
  compatible image revision? isRecorded isLive := by
    simp only [Schema.boot, setRevision, setRelease, Function.update_apply] at isRecorded isLive
    split at isLive
    next mounted =>
      obtain rfl := Option.some.inj isLive
      obtain recorded | same := sound.starts release isRelease starting mounted.symm
      · obtain rfl := Option.some.inj (recorded.symm.trans isRecorded)
        exact Image.knows_head _
      · exact sound.compatible image _ isRecorded same
    next => exact sound.compatible image revision? isRecorded isLive
  starts other isOther notServing := by
    obtain rfl := Option.some.inj isOther
    cases notServing
  mounts other isOther := by
    obtain rfl := Option.some.inj isOther
    exact sound.mounts release isRelease

theorem Launched.boot (launched : c.Launched deployment) : (c.boot release).Launched deployment := by
  obtain ⟨isCandidate, mounted, recorded⟩ := launched.starts release isRelease starting
  constructor
  case planned => exact launched.planned
  case mounts => exact (launched.sound.boot isRelease starting).mounts
  case starts =>
    intro other isOther notServing
    rw [release_boot isOther] at notServing
    cases notServing
  case snapped =>
    intro migrates
    rw [Snapped, revision_boot_ne (by simp [mounted])]
    exact launched.snapped migrates
  case live =>
    refine ⟨some release.image.head, by rw [← mounted, revision_boot_same], fun image isRecorded => .inl ⟨?_, .inr (by rw [isCandidate])⟩, ?_⟩
    · exact (Option.some.inj (recorded.symm.trans isRecorded)).symm
    · intro plain present
      obtain ⟨revision, isCurrent⟩ := Option.ne_none_iff_exists'.mp present
      rw [isCurrent, launched.planned.plain plain revision isCurrent, isCandidate]

theorem Aside.boot (aside : c.Aside deployment) : (c.boot release).Aside deployment := by
  have elsewhere := aside.elsewhere release isRelease starting
  constructor
  case planned => exact aside.planned
  case mounts => exact (aside.sound.boot isRelease starting).mounts
  case elsewhere =>
    intro other isOther notServing
    rw [release_boot isOther] at notServing
    cases notServing
  case snapped =>
    rw [Snapped, revision_boot_ne (aside.mounts.ne_of_not_mountable isRelease rfl)]
    exact aside.snapped
  case vacant =>
    intro revision? isLive
    rw [revision_boot_ne elsewhere.symm] at isLive
    exact aside.vacant revision? isLive
  case recorded => exact aside.recorded

theorem Undone.boot (undone : c.Undone deployment) : (c.boot release).Undone deployment := by
  constructor
  case planned => exact undone.planned
  case sound => exact undone.sound.boot isRelease starting
  case live =>
    intro recorded
    by_cases mounted : release.mount = .live
    · rw [undone.starts recorded release isRelease starting mounted, ← mounted, revision_boot_same]
    · rw [revision_boot_ne (Ne.symm mounted)]
      exact undone.live recorded
  case starts =>
    intro _ other isOther notServing
    rw [release_boot isOther] at notServing
    cases notServing

omit starting in
theorem Restorable.boot (restorable : c.Restorable stamp) (mounts : c.Mounts) : (c.boot release).Restorable stamp := by
  obtain ⟨image, revision?, isRecorded, isThere, known⟩ := restorable
  exact ⟨image, revision?, isRecorded, by rwa [revision_boot_ne (mounts.ne_of_not_mountable isRelease rfl)], known⟩

theorem Reborn.boot (reborn : c.Reborn stamp) : (c.boot release).Reborn stamp := by
  obtain ⟨image, revision?, isRecorded, isLive, known, running⟩ := reborn.live
  obtain ⟨mounted, isImage⟩ := running release isRelease
  constructor
  case former =>
    intro other other? isOther isThere
    rw [revision_boot_ne (by simp [mounted])] at isThere
    exact reborn.former other other? isOther isThere
  case live =>
    refine ⟨image, some release.image.head, isRecorded, by rw [← mounted, revision_boot_same], ?_, fun other isOther => ?_⟩
    · rw [isImage starting]
      exact Image.knows_head image
    · rw [release_boot isOther]
      exact ⟨mounted, fun notServing => by cases notServing⟩

theorem DeployInv.boot {point : DeployPoint} (invariant : c.DeployInv deployment point) : (c.boot release).DeployInv deployment point := by
  have notEarly (early : c.Early deployment) : False := by
    rw [early.settled release isRelease] at starting
    cases starting
  cases point with
  | prepared =>
    rw [Prepared.settled invariant release isRelease] at starting
    cases starting
  | closing | stopping | snapshotting | reopening | restarting => exact (notEarly invariant).elim
  | starting => exact (notEarly invariant.1).elim
  | launching => exact ⟨invariant.1.boot isRelease starting, invariant.2⟩
  | checking | opening => exact Launched.boot isRelease starting invariant
  | stoppingCandidate | settingAside => exact ⟨invariant.1.boot isRelease starting, invariant.2⟩
  | puttingBack => exact Aside.boot isRelease starting invariant
  | pulling | rewriting => exact Undone.boot isRelease starting invariant
  | relaunching | rechecking => exact Sound.boot isRelease starting invariant

theorem RestoreInv.boot {point : RestorePoint} (invariant : c.RestoreInv stamp point) : (c.boot release).RestoreInv stamp point := by
  cases point with
  | unpacked | relaunching => exact Sound.boot isRelease starting invariant
  | marking | stopping => exact ⟨invariant.1.boot isRelease starting, invariant.2.boot isRelease invariant.1.mounts⟩
  | settingAside =>
    rw [invariant.2.2] at isRelease
    cases isRelease
  | swapping =>
    rw [invariant.1] at isRelease
    cases isRelease
  | launching | checking | opening | stoppingAgain | revertingAside => exact Reborn.boot isRelease starting invariant
  | revertingBack =>
    obtain ⟨vacant, former, running⟩ := invariant
    have mounted := running release isRelease
    refine ⟨fun revision? isLive => ?_, fun image revision? isRecorded isThere => ?_, fun other isOther => ?_⟩
    · rw [revision_boot_ne (by simp [mounted])] at isLive
      exact vacant revision? isLive
    · rw [revision_boot_ne (by simp [mounted])] at isThere
      exact former image revision? isRecorded isThere
    · rw [release_boot isOther]
      exact mounted

end

/-! ## What the commands make of it -/

variable {name : Name}

/-- `install -d`, and what Docker does for a mount. -/
def install (c : Schema) : Schema := if c.revision .live = none then c.setRevision .live (some none) else c

theorem install_of_some {revision? : Option Revision} (isLive : c.revision .live = some revision?) : c.install = c := by
  rw [install, if_neg]
  rw [isLive]
  exact Option.some_ne_none _

theorem revision_install (c : Schema) : ∃ revision?, c.install.revision .live = some revision? ∧
    (c.revision .live = some revision? ∨ c.revision .live = none ∧ revision? = none) := by
  rw [install]
  cases isLive : c.revision .live with
  | none => exact ⟨none, by simp [setRevision], .inr ⟨rfl, rfl⟩⟩
  | some revision? => exact ⟨revision?, by rw [if_neg (Option.some_ne_none _), isLive], .inl rfl⟩

theorem env_install : c.install.env = c.env := by
  rw [install]
  split <;> rfl

theorem release_install : c.install.release = c.release := by
  rw [install]
  split <;> rfl

theorem Sound.install (sound : c.Sound) : c.install.Sound := by
  obtain ⟨revision?, installed, isLive | ⟨absent, rfl⟩⟩ := revision_install c
  · rwa [install_of_some isLive]
  · constructor
    case compatible =>
      intro image other isRecorded isOther
      obtain rfl := Option.some.inj (installed.symm.trans isOther)
      exact Image.knows_none image
    case starts =>
      intro release isRelease starting mounted
      rw [release_install] at isRelease
      rw [env_install]
      obtain recorded | same := sound.starts release isRelease starting mounted
      · exact .inl recorded
      · rw [absent] at same
        cases same
    case mounts =>
      intro release isRelease
      rw [release_install] at isRelease
      exact sound.mounts release isRelease

theorem Sound.stopped (sound : c.Sound) : (c.setRelease none).Sound where
  compatible := sound.compatible
  starts _ isRelease := by cases isRelease
  mounts _ isRelease := by cases isRelease

/-- The recorded release starts. -/
theorem Sound.launched {image : Image} (sound : c.Sound) (recorded : c.env = some image) :
    (c.install.setRelease (some ⟨image, .live, false⟩)).Sound where
  compatible := sound.install.compatible
  starts release isRelease _ _ := by
    obtain rfl := Option.some.inj isRelease
    exact .inl (env_install.trans recorded)
  mounts release isRelease := by
    obtain rfl := Option.some.inj isRelease
    rfl

/-- Only what the live directory holds matters between scripts. -/
theorem Sound.beside {revision? : Option (Option Revision)} (sound : c.Sound) (notLive : name ≠ .live) :
    (c.setRevision name revision?).Sound := by
  have same : (c.setRevision name revision?).revision .live = c.revision .live := Function.update_of_ne notLive.symm _ _
  constructor
  case compatible =>
    intro image other isRecorded isLive
    exact sound.compatible image other isRecorded (same ▸ isLive)
  case starts =>
    intro release isRelease starting mounted
    rw [same]
    exact sound.starts release isRelease starting mounted
  case mounts => exact sound.mounts

theorem Early.stopped (early : c.Early deployment) : (c.setRelease none).Early deployment :=
  ⟨early.planned, early.recorded, (fun _ isRelease => by cases isRelease), (fun _ isRelease => by cases isRelease), early.live⟩

theorem Early.beside {revision? : Option (Option Revision)} (early : c.Early deployment) (notLive : name ≠ .live) :
    (c.setRevision name revision?).Early deployment :=
  ⟨early.planned, early.recorded, early.settled, early.mounts, (Function.update_of_ne notLive.symm _ _).trans early.live⟩

/-- `write_image_env` records the candidate, or nothing, or leaves the preceding image recorded. -/
theorem Early.launched {env : Option Image} (early : c.Early deployment) (snapped : deployment.migrating = true → c.Snapped deployment)
    (recorded : ∀ image, env = some image → image = deployment.image ∨ deployment.previous = some image) :
    Launched { c with env } deployment where
  planned := early.planned
  mounts := early.mounts
  starts release isRelease starting := by
    rw [early.settled release isRelease] at starting
    cases starting
  snapped := snapped
  live := by
    refine ⟨deployment.currentRevision, early.live, fun image isImage => ?_, fun _ _ => rfl⟩
    obtain isCandidate | isPrevious := recorded image isImage
    · exact .inl ⟨isCandidate, .inl rfl⟩
    · exact .inr ⟨isPrevious, rfl⟩

theorem Launched.stopped (launched : c.Launched deployment) : (c.setRelease none).Launched deployment :=
  ⟨launched.planned, (fun _ isRelease => by cases isRelease), (fun _ isRelease => by cases isRelease), launched.snapped, launched.live⟩

theorem Launched.launched (launched : c.Launched deployment) (recorded : c.env = some deployment.image) :
    (c.install.setRelease (some ⟨deployment.image, .live, false⟩)).Launched deployment := by
  obtain ⟨revision?, isLive, -⟩ := launched.live
  rw [install_of_some isLive]
  refine ⟨launched.planned, fun release isRelease => ?_, fun release isRelease _ => ?_, launched.snapped, launched.live⟩
  · obtain rfl := Option.some.inj isRelease
    rfl
  · obtain rfl := Option.some.inj isRelease
    exact ⟨rfl, rfl, recorded⟩

theorem revision_move (name : Name) : (c.move source target).revision name =
    if name = source then none else if name = target then c.revision source else c.revision name := by
  simp only [move, setRelease, setRevision, Function.update_apply]

theorem env_move : (c.move source target).env = c.env := rfl

theorem release_move {release : Release} (isRelease : (c.move source target).release = some release) :
    ∃ before, c.release = some before ∧ release.image = before.image ∧ release.serving = before.serving ∧
      release.mount = if before.mount = source then target else before.mount := by
  obtain ⟨before, isBefore, rfl⟩ := Option.map_eq_some_iff.mp isRelease
  refine ⟨before, isBefore, ?_⟩
  split <;> exact ⟨rfl, rfl, rfl⟩

/-- The candidate's data is set aside, and with it the release that runs on it. -/
theorem Launched.aside (launched : c.Launched deployment) (migrates : deployment.migrating = true) :
    (c.move .live (.failedDeploy deployment.stamp)).Aside deployment where
  planned := launched.planned
  mounts release isRelease := by
    obtain ⟨before, isBefore, -, -, mount⟩ := release_move isRelease
    rw [mount]
    split
    · rfl
    · exact launched.mounts before isBefore
  elsewhere release isRelease _ := by
    obtain ⟨before, -, -, -, mount⟩ := release_move isRelease
    rw [mount]
    split
    next => simp
    next elsewhere => exact elsewhere
  snapped := by
    rw [Snapped, revision_move, if_neg (by simp), if_neg (by simp)]
    exact launched.snapped migrates
  vacant revision? isLive := by
    rw [revision_move, if_pos rfl] at isLive
    cases isLive
  recorded image isRecorded := by
    obtain ⟨revision?, -, recorded, -⟩ := launched.live
    obtain ⟨isCandidate, -⟩ | ⟨isPrevious, -⟩ := recorded image isRecorded
    · exact .inl isCandidate
    · exact .inr isPrevious

/-- The snapshot is put back. -/
theorem Aside.undone (aside : c.Aside deployment) : (c.move (.predeploy deployment.stamp) .live).Undone deployment := by
  have back : (c.move (.predeploy deployment.stamp) .live).revision .live = some deployment.currentRevision := by
    rw [revision_move, if_neg (by simp), if_pos rfl]
    exact aside.snapped
  have elsewhere {release : Release} (isRelease : (c.move (.predeploy deployment.stamp) .live).release = some release)
      (starting : release.serving = false) : release.mount ≠ .live := by
    obtain ⟨before, isBefore, -, serving, mount⟩ := release_move isRelease
    rw [mount, if_neg (aside.mounts.ne_of_not_mountable isBefore rfl).symm]
    exact aside.elsewhere before isBefore (serving ▸ starting)
  constructor
  case planned => exact aside.planned
  case live => exact fun _ => back
  case starts => exact fun _ release isRelease starting mounted => absurd mounted (elsewhere isRelease starting)
  case sound =>
    constructor
    case compatible =>
      intro image revision? isRecorded isLive
      obtain rfl := Option.some.inj (back.symm.trans isLive)
      obtain rfl | isPrevious := aside.recorded image isRecorded
      · exact aside.planned.image
      · exact aside.planned.previous image isPrevious
    case starts => exact fun release isRelease starting mounted => absurd mounted (elsewhere isRelease starting)
    case mounts =>
      intro release isRelease
      obtain ⟨before, isBefore, -, -, mount⟩ := release_move isRelease
      rw [mount]
      split
      · rfl
      · exact aside.mounts before isBefore

/-- The preceding image is recorded again, or nothing is. -/
theorem Undone.rewritten {env : Option Image} (undone : c.Undone deployment) (present : deployment.previous ≠ none)
    (recorded : ∀ image, env = some image → deployment.previous = some image) : Sound { c with env } where
  compatible image revision? isRecorded isLive := by
    have back := undone.live present
    obtain rfl := Option.some.inj (back.symm.trans isLive)
    exact undone.planned.previous image (recorded image isRecorded)
  starts release isRelease starting mounted := by
    refine .inr ?_
    show c.revision .live = _
    rw [undone.live present, undone.starts present release isRelease starting mounted]
  mounts := undone.sound.mounts

/-- The restored data is live, and the data it replaces is kept. -/
theorem Restorable.reborn (restorable : c.Restorable stamp) (former : c.Former stamp) (stopped : c.release = none) :
    (c.move (.restore stamp) .live).Reborn stamp where
  former image revision? isRecorded isThere := by
    rw [revision_move, if_neg (by simp), if_neg (by simp)] at isThere
    exact former image revision? isRecorded isThere
  live := by
    obtain ⟨image, revision?, isRecorded, isThere, known⟩ := restorable
    refine ⟨image, revision?, isRecorded, ?_, known, fun release isRelease => ?_⟩
    · rw [revision_move, if_neg (by simp), if_pos rfl]
      exact isThere
    · obtain ⟨before, isBefore, -⟩ := release_move isRelease
      rw [stopped] at isBefore
      cases isBefore

theorem Reborn.stopped (reborn : c.Reborn stamp) : (c.setRelease none).Reborn stamp := by
  obtain ⟨image, revision?, isRecorded, isLive, known, -⟩ := reborn.live
  exact ⟨reborn.former, image, revision?, isRecorded, isLive, known, fun _ isRelease => by cases isRelease⟩

theorem Reborn.launched {image : Image} (reborn : c.Reborn stamp) (recorded : c.env = some image) :
    (c.install.setRelease (some ⟨image, .live, false⟩)).Reborn stamp := by
  obtain ⟨other, revision?, isRecorded, isLive, known, -⟩ := reborn.live
  obtain rfl := Option.some.inj (recorded.symm.trans isRecorded)
  rw [install_of_some isLive]
  refine ⟨reborn.former, image, revision?, isRecorded, isLive, known, fun release isRelease => ?_⟩
  obtain rfl := Option.some.inj isRelease
  exact ⟨rfl, fun _ => rfl⟩

theorem DeployInv.sound {point : DeployPoint} (invariant : c.DeployInv deployment point) : c.Sound := by
  cases point with
  | prepared => exact Prepared.sound invariant
  | closing | stopping | snapshotting | reopening | restarting => exact Early.sound invariant
  | starting => exact invariant.1.sound
  | launching | stoppingCandidate | settingAside => exact invariant.1.sound
  | checking | opening => exact Launched.sound invariant
  | puttingBack => exact Aside.sound invariant
  | pulling | rewriting => exact Undone.sound invariant
  | relaunching | rechecking => exact invariant

theorem Vacant.compatible (vacant : c.Vacant) : c.Compatible := by
  intro image revision? _ isLive
  rw [vacant revision? isLive]
  exact Image.knows_none image

theorem RestoreInv.sound {point : RestorePoint} (invariant : c.RestoreInv stamp point) : c.Sound := by
  cases point with
  | unpacked | relaunching => exact invariant
  | marking | stopping | settingAside => exact invariant.1
  | swapping =>
    obtain ⟨stopped, vacant, -, -⟩ := invariant
    refine ⟨vacant.compatible, fun release isRelease => ?_, fun release isRelease => ?_⟩
    all_goals
      rw [stopped] at isRelease
      cases isRelease
  | launching | checking | opening | stoppingAgain | revertingAside => exact Reborn.sound invariant
  | revertingBack =>
    obtain ⟨vacant, -, running⟩ := invariant
    refine ⟨vacant.compatible, fun release isRelease _ mounted => ?_, fun release isRelease => ?_⟩
    · rw [running release isRelease] at mounted
      cases mounted
    · rw [running release isRelease]
      rfl

end Schema

end Oveo.Deploy
