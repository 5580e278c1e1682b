import Oveo.Deploy.Schema

/-! # The recorded release knows the live schema, in every run

Each command of the two scripts, on the schema it leaves. -/

namespace Oveo.Deploy

open Oveo.Lib

/-- Images list their migrations when a script asks.  A deployment begins on a release that answers, and where a
release is recorded there is a database. -/
def schemaKnown (s : HostState) : HostAction → Bool
  | .deploy _ _ => s.container.all Container.serving && (s.env.isNone || s.liveDatabase.isSome)
  | .proceed outcome =>
    match s.script with
    | .deploy deployment .prepared => deployment.image.lists && outcome != .failsHalfway
    | .restore _ .unpacked => s.env.all Image.lists && outcome != .failsHalfway
    | _ => true
  | _ => true

namespace HostState

open Schema

variable {s s' : HostState} {source target name : Name} {outcome : Outcome} {deployment : Deployment} {stamp : Nat} {container : Container}

def SchemaInv (s : HostState) : Prop :=
  match s.script with
  | .idle => s.schema.Sound
  | .deploy deployment point => s.schema.DeployInv deployment point
  | .restore stamp point => s.schema.RestoreInv stamp point

theorem schema_installDir : s.installDir.schema = s.schema.install := by
  rw [installDir, Schema.install]
  have absent : s.schema.revision .live = none ↔ s.dir? .live = none := Option.map_eq_none_iff
  by_cases missing : s.dir? .live = none
  · rw [if_pos missing, if_pos (absent.mpr missing), schema_setDir]
    rfl
  · rw [if_neg missing, if_neg (missing ∘ absent.mp)]

theorem schema_stop (s : HostState) (outcome : Outcome) : (s.stop outcome).1.schema = s.schema ∨ (s.stop outcome).1.schema = s.schema.setRelease none := by
  obtain same | same | same := stop_cases s outcome
  · exact .inr (by rw [same]; rfl)
  · exact .inl (by rw [same])
  · exact .inr (by rw [same]; rfl)

theorem schema_launch (s : HostState) (image : Image) : (s.launch image).schema = s.schema ∨
    (s.launch image).schema = s.schema.install.setRelease (some ⟨image, .live, false⟩) := by
  rw [launch]
  split
  · exact .inl rfl
  · refine .inr ?_
    rw [← schema_installDir]
    rfl

theorem schema_up (s : HostState) (outcome : Outcome) : (s.up outcome).1.schema = s.schema ∨ (s.up outcome).1.schema = s.schema.setRelease none ∨
    ∃ image, s.schema.env = some image ∧ (s.up outcome).1.schema = s.schema.install.setRelease (some ⟨image, .live, false⟩) := by
  cases recorded : s.env with
  | none => exact .inl (by simp [up, recorded])
  | some image =>
    cases outcome with
    | failsBefore => exact .inl (by simp [up, recorded])
    | failsHalfway =>
      refine .inr (.inl ?_)
      simp only [up, recorded]
      rfl
    | succeeds | failsAfter =>
      simp only [up, recorded]
      obtain stays | starts := schema_launch s image
      · exact .inl stays
      · exact .inr (.inr ⟨image, recorded, starts⟩)

end HostState

namespace Schema

variable {s : HostState} {outcome : Outcome} {deployment : Deployment} {stamp : Nat}

open HostState

theorem Sound.up (sound : s.schema.Sound) : (s.up outcome).1.schema.Sound := by
  obtain same | same | ⟨image, recorded, same⟩ := schema_up s outcome
  · rwa [same]
  · rw [same]
    exact sound.stopped
  · rw [same]
    exact sound.launched recorded

theorem Launched.up (launched : s.schema.Launched deployment) (recorded : ∀ image, s.schema.env = some image → image = deployment.image) :
    (s.up outcome).1.schema.Launched deployment := by
  obtain same | same | ⟨image, isRecorded, same⟩ := schema_up s outcome
  · rwa [same]
  · rw [same]
    exact launched.stopped
  · obtain rfl := recorded image isRecorded
    rw [same]
    exact launched.launched isRecorded

theorem Reborn.up (reborn : s.schema.Reborn stamp) : (s.up outcome).1.schema.Reborn stamp := by
  obtain same | same | ⟨image, isRecorded, same⟩ := schema_up s outcome
  · rwa [same]
  · rw [same]
    exact reborn.stopped
  · rw [same]
    exact reborn.launched isRecorded

theorem Early.stop (early : s.schema.Early deployment) (outcome : Outcome) : (s.stop outcome).1.schema.Early deployment := by
  obtain same | same := schema_stop s outcome
  · rwa [same]
  · rw [same]
    exact early.stopped

theorem Sound.stop (sound : s.schema.Sound) (outcome : Outcome) : (s.stop outcome).1.schema.Sound := by
  obtain same | same := schema_stop s outcome
  · rwa [same]
  · rw [same]
    exact sound.stopped

theorem Launched.stop (launched : s.schema.Launched deployment) (outcome : Outcome) : (s.stop outcome).1.schema.Launched deployment := by
  obtain same | same := schema_stop s outcome
  · rwa [same]
  · rw [same]
    exact launched.stopped

theorem Reborn.stop (reborn : s.schema.Reborn stamp) (outcome : Outcome) : (s.stop outcome).1.schema.Reborn stamp := by
  obtain same | same := schema_stop s outcome
  · rwa [same]
  · rw [same]
    exact reborn.stopped

end Schema

namespace HostState

open Schema

variable {s s' : HostState} {source target name : Name} {outcome : Outcome} {deployment : Deployment} {stamp : Nat} {container : Container}

theorem SchemaInv.exit (sound : s.schema.Sound) : s.exit.SchemaInv := sound

theorem SchemaInv.atDeploy {point : DeployPoint} (invariant : s.schema.DeployInv deployment point) : (s.atDeploy deployment point).SchemaInv :=
  invariant

theorem SchemaInv.atRestore {point : RestorePoint} (invariant : s.schema.RestoreInv stamp point) : (s.atRestore stamp point).SchemaInv :=
  invariant

theorem SchemaInv.undo (launched : s.schema.Launched deployment) : (s.undo deployment).SchemaInv := by
  rw [HostState.undo]
  split
  next migrates => exact ⟨launched, migrates⟩
  next plain => exact launched.undone (by simpa using plain)

theorem migrating?_spec {image : Image} {currentRevision : Option Revision} {migrates : Bool} (lists : image.lists = true)
    (listed : outcome ≠ .failsHalfway) (decided : migrating? image currentRevision outcome = some migrates) :
    image.Knows currentRevision ∧ (migrates = false → ∀ revision, currentRevision = some revision → revision = image.head) := by
  cases outcome with
  | failsBefore | failsAfter => cases currentRevision <;> cases decided
  | failsHalfway => exact absurd rfl listed
  | succeeds =>
    cases currentRevision with
    | none => exact ⟨Image.knows_none image, fun _ revision isSome => by cases isSome⟩
    | some revision =>
      simp only [migrating?, lists, if_true] at decided
      split at decided
      next isHead =>
        refine ⟨isHead ▸ Image.knows_head image, fun _ other isOther => ?_⟩
        rw [← Option.some.inj isOther]
        exact isHead
      next =>
        split at decided
        next known =>
          cases decided
          refine ⟨fun other isOther => ?_, fun isFalse => by cases isFalse⟩
          rwa [← Option.some.inj isOther]
        next => cases decided

theorem liveDatabase_of_schema {revision? : Option Revision} (isLive : s.schema.revision .live = some revision?) :
    s.liveDatabase.map Database.revision = revision? := by
  obtain ⟨live, found, rfl⟩ := Option.map_eq_some_iff.mp isLive
  rw [liveDatabase, found]
  rfl

theorem SchemaInv.plan (prepared : s.schema.Prepared deployment) (lists : deployment.image.lists = true) (listed : outcome ≠ .failsHalfway) :
    (s.plan deployment outcome).SchemaInv := by
  obtain ⟨revision?, isLive, present⟩ := prepared.live
  have early {migrates : Bool} (decided : migrating? deployment.image revision? outcome = some migrates) :
      s.schema.Early { deployment with currentRevision := revision?, migrating := migrates } := by
    obtain ⟨known, plain⟩ := migrating?_spec lists listed decided
    refine ⟨⟨fun previous isPrevious => ?_, present, known, plain⟩, prepared.recorded, prepared.settled, prepared.sound.mounts, isLive⟩
    exact prepared.sound.compatible previous revision? (prepared.recorded.trans isPrevious) isLive
  simp only [HostState.plan, liveDatabase_of_schema isLive]
  split
  next => exact prepared.sound
  next decided => exact ⟨early decided, fun migrates => by cases migrates⟩
  next decided =>
    split
    next => exact early decided
    next => exact prepared.sound

theorem schema_snapshot {live : Directory} (found : s.dir? .live = some live) (target : Name) (outcome : Outcome) :
    (s.snapshot target outcome).2 = true ∧ (s.snapshot target outcome).1.schema = s.schema.setRevision target (s.schema.revision .live) ∨
      (s.snapshot target outcome).2 = false ∧ ((s.snapshot target outcome).1.schema = s.schema ∨
        (s.snapshot target outcome).1.schema = s.schema.setRevision target (some none)) := by
  obtain copied | failed | failed := snapshot_cases found target outcome
  · refine .inl ⟨by rw [copied], ?_⟩
    rw [copied, schema_setDir]
    simp only [schema, found]
    rfl
  · refine .inr ⟨by rw [failed], .inr ?_⟩
    rw [failed, schema_setDir]
    rfl
  · exact .inr ⟨by rw [failed], .inl (by rw [failed])⟩

theorem SchemaInv.deployStep {point : DeployPoint} (invariant : s.schema.DeployInv deployment point)
    (known : point = .prepared → deployment.image.lists = true ∧ outcome ≠ .failsHalfway) : (s.deployStep deployment point outcome).SchemaInv := by
  cases point with
  | prepared =>
    obtain ⟨lists, listed⟩ := known rfl
    exact .plan invariant lists listed
  | closing =>
    simp only [HostState.deployStep]
    split
    next =>
      apply SchemaInv.atDeploy
      rw [schema_setMarker]
      exact invariant
    next => exact .exit (Early.sound invariant)
  | stopping =>
    simp only [HostState.deployStep]
    split
    next => exact .atDeploy (Early.stop invariant outcome)
    next => exact .atDeploy (Early.stop invariant outcome)
  | snapshotting =>
    obtain ⟨live, found, -⟩ := Option.map_eq_some_iff.mp (Early.live invariant)
    simp only [HostState.deployStep]
    obtain ⟨copied, same⟩ | ⟨failed, same | same⟩ := schema_snapshot found (.predeploy deployment.stamp) outcome
    · rw [if_pos copied]
      apply SchemaInv.atDeploy
      rw [same]
      exact ⟨Early.beside invariant (by simp), fun _ => (Function.update_self _ _ _).trans (Early.live invariant)⟩
    · rw [if_neg (by simp [failed])]
      apply SchemaInv.atDeploy
      rw [same]
      exact invariant
    · rw [if_neg (by simp [failed])]
      apply SchemaInv.atDeploy
      rw [same]
      exact Early.beside invariant (by simp)
  | reopening restart =>
    simp only [HostState.deployStep]
    split
    next =>
      split
      next =>
        apply SchemaInv.atDeploy
        rw [schema_setMarker]
        exact invariant
      next =>
        apply SchemaInv.exit
        rw [schema_setMarker]
        exact Early.sound invariant
    next => exact .exit (Early.sound invariant)
  | restarting => exact .exit (Early.sound invariant).up
  | starting =>
    obtain ⟨early, snapped⟩ := invariant
    simp only [HostState.deployStep]
    cases outcome with
    | succeeds =>
      refine .atDeploy ⟨early.launched snapped fun image isImage => .inl ?_, fun image isImage => ?_⟩
      all_goals exact (Option.some.inj isImage).symm
    | failsHalfway =>
      refine .atDeploy ⟨early.launched snapped fun image isImage => ?_, fun image isImage => ?_⟩
      all_goals cases isImage
    | failsBefore | failsAfter =>
      exact .undo (early.launched snapped fun image isImage => .inr (early.recorded ▸ isImage))
  | launching =>
    simp only [HostState.deployStep]
    split
    next => exact .atDeploy (invariant.1.up invariant.2)
    next => exact .undo (invariant.1.up invariant.2)
  | checking =>
    simp only [HostState.deployStep]
    split
    next => exact .atDeploy invariant
    next => exact .undo invariant
  | opening =>
    simp only [HostState.deployStep]
    split
    next =>
      apply SchemaInv.exit
      rw [schema_setMarker]
      exact Launched.sound invariant
    next => exact .exit (Launched.sound invariant)
  | stoppingCandidate => exact .atDeploy ⟨invariant.1.stop outcome, invariant.2⟩
  | settingAside =>
    simp only [HostState.deployStep]
    split
    next moved =>
      apply SchemaInv.atDeploy
      rw [(mv_eq_true moved).2.2, schema_move]
      exact invariant.1.aside invariant.2
    next stuck =>
      rw [mv_eq_false (by simpa using stuck)]
      exact .exit invariant.1.sound
  | puttingBack =>
    simp only [HostState.deployStep]
    split
    next moved =>
      apply SchemaInv.atDeploy
      rw [(mv_eq_true moved).2.2, schema_move]
      exact Aside.undone invariant
    next stuck =>
      rw [mv_eq_false (by simpa using stuck)]
      exact .exit (Aside.sound invariant)
  | pulling =>
    simp only [HostState.deployStep]
    split
    next => exact .atDeploy invariant
    next => exact .exit (Undone.sound invariant)
  | rewriting =>
    simp only [HostState.deployStep]
    split
    next previous isPrevious =>
      have present : deployment.previous ≠ none := by
        rw [isPrevious]
        exact Option.some_ne_none _
      cases outcome with
      | succeeds =>
        refine .atDeploy (Undone.rewritten invariant present fun image isImage => ?_)
        rw [isPrevious]
        exact isImage
      | failsHalfway =>
        refine .atDeploy (Undone.rewritten invariant present fun image isImage => ?_)
        cases isImage
      | failsBefore | failsAfter => exact .exit (Undone.sound invariant)
    next => exact .exit (Undone.sound invariant)
  | relaunching =>
    simp only [HostState.deployStep]
    split
    next => exact .atDeploy (Sound.up invariant)
    next => exact .exit (Sound.up invariant)
  | rechecking => exact .exit invariant

/-! ## oveo-restore -/

theorem restorable_spec (lists : ∀ image, s.env = some image → image.lists = true) (listed : outcome ≠ .failsHalfway)
    (passes : s.restorable stamp outcome = true) : s.schema.Restorable stamp := by
  cases recorded : s.env with
  | none => simp [restorable, recorded] at passes
  | some image =>
    cases found : (s.dir? (.restore stamp)).bind Directory.database with
    | none => simp [restorable, recorded, found] at passes
    | some backup =>
      obtain ⟨directory, isDirectory, isBackup⟩ := Option.bind_eq_some_iff.mp found
      refine ⟨image, some backup.revision, recorded, ?_, fun revision isRevision => ?_⟩
      · simp only [schema, isDirectory, Option.map_some, Directory.revision?, isBackup]
      · rw [← Option.some.inj isRevision]
        cases outcome with
        | succeeds => simpa [restorable, recorded, found, lists image recorded] using passes
        | failsHalfway => exact absurd rfl listed
        | failsBefore | failsAfter => simp [restorable, recorded, found] at passes

theorem Restorable.beside_live (restorable : s.schema.Restorable stamp) (vacant : target ≠ .restore stamp) :
    (s.schema.move .live target).Restorable stamp := by
  obtain ⟨image, revision?, recorded, isThere, known⟩ := restorable
  refine ⟨image, revision?, recorded, ?_, known⟩
  rw [revision_move, if_neg (by simp), if_neg vacant.symm]
  exact isThere

theorem vacant_move (s : HostState) (target : Name) : (s.schema.move .live target).Vacant := by
  intro revision? isLive
  rw [revision_move, if_pos rfl] at isLive
  cases isLive

theorem SchemaInv.restoreStep {point : RestorePoint} (invariant : s.schema.RestoreInv stamp point)
    (known : point = .unpacked → (∀ image, s.env = some image → image.lists = true) ∧ outcome ≠ .failsHalfway) :
    (s.restoreStep stamp point outcome).SchemaInv := by
  cases point with
  | unpacked =>
    obtain ⟨lists, listed⟩ := known rfl
    simp only [HostState.restoreStep]
    split
    next passes => exact .atRestore ⟨invariant, restorable_spec lists listed passes⟩
    next =>
      apply SchemaInv.exit
      rw [schema_setDir]
      exact Sound.beside invariant (by simp)
  | marking =>
    simp only [HostState.restoreStep]
    split
    next =>
      apply SchemaInv.atRestore
      rw [schema_setMarker]
      exact invariant
    next => exact .exit invariant.1
  | stopping =>
    simp only [HostState.restoreStep]
    split
    next stopped =>
      rw [stop_eq_true stopped]
      exact .atRestore ⟨invariant.1.stopped, invariant.2, rfl⟩
    next => exact .exit (invariant.1.stop outcome)
  | settingAside =>
    obtain ⟨sound, restorable, stopped⟩ := invariant
    simp only [HostState.restoreStep]
    split
    next moved =>
      apply SchemaInv.atRestore
      rw [(mv_eq_true moved).2.2, schema_move]
      refine ⟨?_, vacant_move s _, Restorable.beside_live restorable (by simp), fun image revision? recorded isThere => ?_⟩
      · show s.schema.release.map _ = none
        rw [stopped]
        rfl
      · rw [revision_move, if_neg (by simp), if_pos rfl] at isThere
        exact sound.compatible image revision? recorded isThere
    next stuck =>
      rw [mv_eq_false (by simpa using stuck)]
      exact .exit sound
  | swapping =>
    obtain ⟨stopped, vacant, restorable, former⟩ := invariant
    simp only [HostState.restoreStep]
    split
    next moved =>
      apply SchemaInv.atRestore
      rw [(mv_eq_true moved).2.2, schema_move]
      exact restorable.reborn former stopped
    next stuck =>
      rw [mv_eq_false (by simpa using stuck)]
      exact .exit (@RestoreInv.sound _ stamp .swapping ⟨stopped, vacant, restorable, former⟩)
  | launching =>
    simp only [HostState.restoreStep]
    split
    next => exact .atRestore (Reborn.up invariant)
    next => exact .atRestore (Reborn.up invariant)
  | checking =>
    simp only [HostState.restoreStep]
    split
    next => exact .atRestore invariant
    next => exact .atRestore invariant
  | opening =>
    simp only [HostState.restoreStep]
    split
    next =>
      have sound : (s.setMarker .live false).schema.Sound := by
        rw [schema_setMarker]
        exact Reborn.sound invariant
      exact .exit sound
    next => exact .exit (Reborn.sound invariant)
  | stoppingAgain => exact .atRestore (Reborn.stop invariant outcome)
  | revertingAside =>
    simp only [HostState.restoreStep]
    split
    next moved =>
      apply SchemaInv.atRestore
      rw [(mv_eq_true moved).2.2, schema_move]
      obtain ⟨image, revision?, recorded, isLive, known, running⟩ := Reborn.live invariant
      refine ⟨vacant_move s _, fun other other? isOther isThere => ?_, fun release isRelease => ?_⟩
      · rw [revision_move, if_neg (by simp), if_neg (by simp)] at isThere
        exact Reborn.former invariant other other? isOther isThere
      · obtain ⟨before, isBefore, -, -, mount⟩ := release_move isRelease
        rw [mount, if_pos (running before isBefore).1]
    next stuck =>
      rw [mv_eq_false (by simpa using stuck)]
      exact .exit (Reborn.sound invariant)
  | revertingBack =>
    obtain ⟨vacant, former, running⟩ := invariant
    simp only [HostState.restoreStep]
    split
    next moved =>
      apply SchemaInv.atRestore
      rw [(mv_eq_true moved).2.2, schema_move]
      have elsewhere {release : Release} (isRelease : (s.schema.move (.preRestore stamp) .live).release = some release) :
          release.mount = .failedRestore stamp := by
        obtain ⟨before, isBefore, -, -, mount⟩ := release_move isRelease
        rw [mount, running before isBefore, if_neg (by simp)]
      refine ⟨fun image revision? recorded isLive => ?_, fun release isRelease _ mounted => ?_, fun release isRelease => ?_⟩
      · rw [revision_move, if_neg (by simp), if_pos rfl] at isLive
        exact former image revision? recorded isLive
      · rw [elsewhere isRelease] at mounted
        cases mounted
      · rw [elsewhere isRelease]
        rfl
    next stuck =>
      rw [mv_eq_false (by simpa using stuck)]
      exact .exit (@RestoreInv.sound _ stamp .revertingBack ⟨vacant, former, running⟩)
  | relaunching => exact .exit (Sound.up invariant)

theorem SchemaInv.boot (invariant : s.SchemaInv) (isContainer : s.container = some container) (starting : container.serving = false)
    (booted : s.bootContainer container = some s') : s'.SchemaInv := by
  have script : s'.script = s.script := script_boot booted
  have isRelease : s.schema.release = some container.release := by
    simp only [schema, isContainer]
    rfl
  rw [SchemaInv, script, (schema_boot booted).1]
  rw [SchemaInv] at invariant
  cases running : s.script with
  | idle =>
    rw [running] at invariant
    exact Sound.boot isRelease starting invariant
  | deploy deployment point =>
    rw [running] at invariant
    exact DeployInv.boot isRelease starting invariant
  | restore stamp point =>
    rw [running] at invariant
    exact RestoreInv.boot isRelease starting invariant

theorem Vacant.install {c : Schema} (vacant : c.Vacant) : c.install.Vacant := by
  intro revision? isLive
  obtain ⟨other, installed, same | ⟨-, rfl⟩⟩ := revision_install c
  · obtain rfl := Option.some.inj (installed.symm.trans isLive)
    exact vacant _ same
  · exact (Option.some.inj (installed.symm.trans isLive)).symm

theorem revision_install_ne {c : Schema} (notLive : name ≠ .live) : c.install.revision name = c.revision name := by
  rw [Schema.install]
  split
  · exact Function.update_of_ne notLive _ _
  · rfl

theorem SchemaInv.installDir (invariant : s.SchemaInv) : s.installDir.SchemaInv := by
  rw [SchemaInv] at invariant ⊢
  rw [script_installDir, schema_installDir]
  cases isLive : s.schema.revision .live with
  | some revision? => rwa [install_of_some isLive]
  | none =>
    cases running : s.script with
    | idle =>
      rw [running] at invariant
      exact Sound.install invariant
    | deploy deployment point =>
      rw [running] at invariant
      have notEarly (early : s.schema.Early deployment) : False := by
        rw [early.live] at isLive
        cases isLive
      have notLaunched (launched : s.schema.Launched deployment) : False := by
        obtain ⟨revision?, found, -⟩ := launched.live
        rw [found] at isLive
        cases isLive
      cases point with
      | prepared =>
        obtain ⟨revision?, found, -⟩ := Prepared.live invariant
        rw [found] at isLive
        cases isLive
      | closing | stopping | snapshotting | reopening | restarting => exact (notEarly invariant).elim
      | starting => exact (notEarly invariant.1).elim
      | launching | stoppingCandidate | settingAside => exact (notLaunched invariant.1).elim
      | checking | opening => exact (notLaunched invariant).elim
      | puttingBack =>
        obtain ⟨planned, mounts, elsewhere, snapped, vacant, recorded⟩ : s.schema.Aside deployment := invariant
        refine ⟨planned, ?_, ?_, ?_, Vacant.install vacant, ?_⟩
        · rwa [Mounts, release_install]
        · rwa [release_install]
        · rwa [Snapped, revision_install_ne (by simp)]
        · rwa [env_install]
      | pulling | rewriting =>
        obtain ⟨planned, sound, live, starts⟩ : s.schema.Undone deployment := invariant
        refine ⟨planned, sound.install, fun present => ?_, ?_⟩
        · rw [live present] at isLive
          cases isLive
        · rwa [release_install]
      | relaunching | rechecking => exact Sound.install invariant
    | restore stamp point =>
      rw [running] at invariant
      have former (former : s.schema.Former stamp) : s.schema.install.Former stamp := by
        intro image revision? recorded isThere
        rw [revision_install_ne (by simp)] at isThere
        exact former image revision? (env_install.symm.trans recorded) isThere
      have restorable (restorable : s.schema.Restorable stamp) : s.schema.install.Restorable stamp := by
        obtain ⟨image, revision?, recorded, isThere, known⟩ := restorable
        exact ⟨image, revision?, env_install.trans recorded, by rwa [revision_install_ne (by simp)], known⟩
      cases point with
      | unpacked | relaunching => exact Sound.install invariant
      | marking | stopping => exact ⟨invariant.1.install, restorable invariant.2⟩
      | settingAside => exact ⟨invariant.1.install, restorable invariant.2.1, release_install.trans invariant.2.2⟩
      | swapping =>
        exact ⟨release_install.trans invariant.1, Vacant.install invariant.2.1, restorable invariant.2.2.1, former invariant.2.2.2⟩
      | launching | checking | opening | stoppingAgain | revertingAside =>
        obtain ⟨image, revision?, -, found, -⟩ := Reborn.live invariant
        rw [found] at isLive
        cases isLive
      | revertingBack =>
        refine ⟨Vacant.install invariant.1, former invariant.2.1, ?_⟩
        rw [release_install]
        exact invariant.2.2

theorem SchemaInv.interrupt (invariant : s.SchemaInv) : s.schema.Sound := by
  rw [SchemaInv] at invariant
  cases running : s.script with
  | idle =>
    rw [running] at invariant
    exact invariant
  | deploy deployment point =>
    rw [running] at invariant
    exact DeployInv.sound invariant
  | restore stamp point =>
    rw [running] at invariant
    exact RestoreInv.sound invariant

theorem SchemaInv.beginDeploy (idle : s.script = .idle) (sound : s.schema.Sound) (serves : s.container.all Container.serving = true)
    (recorded : s.env = none ∨ s.liveDatabase.isSome = true) (image : Image) (stamp : Nat) : (s.beginDeploy image stamp).SchemaInv := by
  have installed : s.installDir.schema.Sound := by
    rw [schema_installDir]
    exact sound.install
  rw [HostState.beginDeploy]
  split
  next => rwa [SchemaInv, idle]
  next =>
    split
    next => rwa [SchemaInv, script_installDir, idle]
    next =>
      refine .atDeploy ⟨installed, ?_, fun release isRelease => ?_, ?_⟩
      · exact env_installDir
      · have running : s.container.map Container.release = some release := by
          have same : s.installDir.schema.release = s.schema.release := by rw [schema_installDir, release_install]
          exact same.symm.trans isRelease
        obtain ⟨container, isContainer, rfl⟩ := Option.map_eq_some_iff.mp running
        rw [isContainer] at serves
        exact serves
      · obtain ⟨revision?, isLive, found⟩ := revision_install s.schema
        rw [schema_installDir]
        refine ⟨revision?, isLive, fun present => ?_⟩
        obtain missing | isThere := recorded
        · exact absurd missing present
        · obtain ⟨database, isDatabase⟩ := Option.isSome_iff_exists.mp isThere
          obtain isLive | ⟨absent, -⟩ := found
          · rw [← liveDatabase_of_schema isLive, isDatabase]
            exact Option.some_ne_none _
          · rw [liveDatabase, Option.map_eq_none_iff.mp absent] at isDatabase
            cases isDatabase

end HostState

open HostState

variable {s s' : HostState}

theorem hostStep_schema {action : HostAction} (invariant : s.SchemaInv) (known : schemaKnown s action = true)
    (taken : hostStep s action = some s') : s'.SchemaInv := by
  have stored {container : Container} {write : Write} (isContainer : s.container = some container)
      (stored : s.store container write = some s') : s'.SchemaInv := by
    rw [SchemaInv, script_store stored, schema_store isContainer stored]
    exact invariant
  cases action with
  | request write =>
    simp only [hostStep] at taken
    split at taken
    next container isContainer =>
      split at taken
      next => exact stored isContainer taken
      next => cases taken
    next => cases taken
  | background write =>
    simp only [hostStep] at taken
    split at taken
    next container isContainer =>
      split at taken
      next => exact stored isContainer taken
      next => cases taken
    next => cases taken
  | boot =>
    simp only [hostStep] at taken
    split at taken
    next container isContainer =>
      split at taken
      next => cases taken
      next starting => exact invariant.boot isContainer (by simpa using starting) taken
    next => cases taken
  | deploy image stamp =>
    simp only [hostStep] at taken
    split at taken
    next idle =>
      cases taken
      simp only [schemaKnown, Bool.and_eq_true, Bool.or_eq_true, Option.isNone_iff_eq_none] at known
      exact .beginDeploy idle invariant.interrupt known.1 known.2 image stamp
    next => cases taken
  | restore backup stamp =>
    simp only [hostStep] at taken
    split at taken
    next idle =>
      cases taken
      have sound := invariant.interrupt
      rw [HostState.beginRestore]
      split
      next =>
        apply SchemaInv.atRestore
        rw [schema_setDir]
        exact sound.beside (by simp)
      next => exact invariant
    next => cases taken
  | proceed outcome =>
    simp only [hostStep] at taken
    rw [SchemaInv] at invariant
    cases running : s.script with
    | idle => simp [running] at taken
    | deploy deployment point =>
      simp only [running, Option.some.injEq] at taken invariant
      subst taken
      refine .deployStep invariant fun isPrepared => ?_
      simpa [schemaKnown, running, isPrepared] using known
    | restore stamp point =>
      simp only [running, Option.some.injEq] at taken invariant
      subst taken
      refine .restoreStep invariant fun isUnpacked => ?_
      simp only [schemaKnown, running, isUnpacked, Bool.and_eq_true, bne_iff_ne] at known
      refine ⟨fun image recorded => ?_, known.2⟩
      simpa [recorded] using known.1
  | interrupt =>
    simp only [hostStep] at taken
    split at taken
    next => cases taken
    next =>
      cases taken
      exact .exit invariant.interrupt
  | installHost =>
    cases taken
    exact invariant.installDir

/-- The script is killed when the snapshot is back and the candidate is still recorded. -/
def killed : Option HostState :=
  hostMachine.runVia (fun s action => schemaKnown s action = true) emptyHost (undoneRun.take 20 ++ [.interrupt])

end Oveo.Deploy
