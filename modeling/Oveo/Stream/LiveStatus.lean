import Oveo.Stream.Writers

/-! # The live status goes forward

Each writer changes the stored status by compare and set, and the draft after its transaction.  A Stop
that is faster than the task leaves the draft of a running generation at `stopping` before the task
writes `running`; where no Stop comes in between, the status of the draft only goes forward. -/

namespace Oveo.Stream

open Oveo.Lib Oveo.Protocol Oveo.Store

/-- Queued, running, stopping, terminal. -/
def statusRank : Status → Nat
  | .queued => 0
  | .running => 1
  | .stopping => 2
  | .completed | .failed | .stopped => 3

/-- No status is behind an earlier one. -/
def Forward (statuses : List Status) : Prop :=
  statuses.Pairwise fun earlier later => statusRank earlier ≤ statusRank later

instance (statuses : List Status) : Decidable (Forward statuses) :=
  inferInstanceAs (Decidable (List.Pairwise _ _))

def WriterAction.publishesStop : WriterAction → Bool
  | .publishStopping _ => true
  | _ => false

/-- No Stop updates the draft while `_set_running` has committed and not updated it yet. -/
def InOrder (s : WriterState) (action : WriterAction) : Prop :=
  s.run = .publishRunning → action.publishesStop = false

instance (s : WriterState) (action : WriterAction) : Decidable (InOrder s action) :=
  inferInstanceAs (Decidable (_ → _))

section

variable {s next : WriterState} {action : WriterAction}

/-! ## Changes of the draft -/

theorem statusRank_of_isTerminal {status : Status} (terminal : status.isTerminal = true) : statusRank status = 3 := by
  cases status <;> first | rfl | exact absurd terminal (by decide)

theorem statusRank_le (status : Status) : statusRank status ≤ 3 := by
  cases status <;> decide

/-- A status that is not behind the draft moves it forward; a finished draft stays as it is. -/
theorem setLiveStatus_rank {status : Status} {live : LiveGeneration}
    (ahead : live.status.isTerminal = true ∨ statusRank live.status ≤ statusRank status) :
    statusRank live.status ≤ statusRank (setLiveStatus status live).1.status := by
  unfold setLiveStatus
  split
  next => exact Nat.le_refl _
  next active =>
    have ahead := ahead.resolve_left active
    split <;> exact ahead

theorem applyLiveEvents_status (live : LiveGeneration) (events : List ProtocolEvent) :
    (applyLiveEvents live events).1.status = live.status := by
  unfold applyLiveEvents
  split
  next => rfl
  next =>
    split
    next => rfl
    next => split <;> rfl

theorem resetDraftForRetry_status (live : LiveGeneration) : (resetDraftForRetry live).1.status = live.status := by
  unfold resetDraftForRetry
  split <;> rfl

/-- A batch of events changes no status. -/
theorem collectOps_noStatus {blocks after : List (BlockType × List Str)} {events : List ProtocolEvent} {ops : List DeltaOp}
    (collected : collectOps blocks events = some (after, ops)) (seq : Nat) : statusesOf (some (.delta ⟨seq, ops⟩)) = [] := by
  induction events generalizing blocks ops with
  | nil =>
    cases collected
    rfl
  | cons event events inductionHypothesis =>
    cases event with
    | blockStart id type =>
      obtain ⟨⟨_, rest⟩, later, same⟩ := Option.bind_eq_some_iff.mp collected
      cases same
      exact @inductionHypothesis _ rest later
    | blockDelta id type text =>
      obtain ⟨_, -, rest⟩ := Option.bind_eq_some_iff.mp collected
      obtain ⟨⟨_, others⟩, later, same⟩ := Option.bind_eq_some_iff.mp rest
      cases same
      exact @inductionHypothesis _ others later
    | responseStart | blockEnd _ | state _ | responseEnd => exact inductionHypothesis collected

/-- What is published of a status is what the draft holds then. -/
def Announces (change : LiveGeneration → Change) : Prop :=
  ∀ live, (statusesOf (change live).2).Sublist [(change live).1.status]

theorem announces_setLiveStatus (status : Status) : Announces (setLiveStatus status) := by
  intro live
  unfold setLiveStatus
  split
  next => exact List.nil_sublist _
  next =>
    split
    next => exact List.nil_sublist _
    next => exact List.Sublist.refl _

theorem announces_applyLiveEvents (events : List ProtocolEvent) : Announces fun live => applyLiveEvents live events := by
  intro live
  simp only [applyLiveEvents]
  split
  next => exact List.nil_sublist _
  next =>
    split
    next => exact List.nil_sublist _
    next blocks ops collected =>
      split
      next => exact List.nil_sublist _
      next =>
        rw [collectOps_noStatus collected]
        exact List.nil_sublist _

theorem announces_resetDraftForRetry : Announces resetDraftForRetry := by
  intro live
  unfold resetDraftForRetry
  split <;> exact List.nil_sublist _

@[simp] theorem change_row (s : WriterState) (change : LiveGeneration → Change) : (s.change change).row = s.row := by
  unfold WriterState.change
  split <;> rfl

@[simp] theorem change_run (s : WriterState) (change : LiveGeneration → Change) : (s.change change).run = s.run := by
  unfold WriterState.change
  split <;> rfl

@[simp] theorem change_stops (s : WriterState) (change : LiveGeneration → Change) : (s.change change).stops = s.stops := by
  unfold WriterState.change
  split <;> rfl

/-! ## Every run -/

/-- The task may be there while the row is queued. -/
def RunPhase.isEarly : RunPhase → Bool
  | .setRunning | .fail | .finishStopped | .done | .removed => true
  | _ => false

/-- A Stop may be there while the row is queued. -/
def StopPhase.isEarly : StopPhase → Bool
  | .request | .read | .returned => true
  | _ => false

/-- The Stop found no task. -/
def StopPhase.isFinishing : StopPhase → Bool
  | .finishStopped | .mark => true
  | _ => false

/-- What holds in every run. -/
structure WriterInv (s : WriterState) : Prop where
  current : ∀ live, s.live = some live → s.held.getLast? = some live.status
  announced : s.published.Sublist s.held
  marks : ∀ status, s.run = .mark status → status.isTerminal = true
  /-- Nobody has touched the draft of a queued row. -/
  queued : s.row = some .queued →
    s.run.isEarly = true ∧ (∀ stop ∈ s.stops, stop.isEarly = true) ∧ ∀ live, s.live = some live → live.status = .queued
  finishing : s.run.isLive = true → ∀ stop ∈ s.stops, stop.isFinishing = false

theorem writerInv_initial : WriterInv .initial where
  current := by
    rintro live ⟨⟩
    rfl
  announced := List.nil_sublist _
  marks := fun _ isMark => nomatch isMark
  queued := by
    refine fun _ => ⟨rfl, fun _ listed => (nomatch listed), ?_⟩
    rintro live ⟨⟩
    rfl
  finishing := fun _ _ listed => nomatch listed

theorem WriterInv.setRow (invariant : WriterInv s) {row : Option Status} (notQueued : row ≠ some .queued) :
    WriterInv { s with row } where
  current := invariant.current
  announced := invariant.announced
  marks := invariant.marks
  queued := fun isQueued => absurd isQueued notQueued
  finishing := invariant.finishing

theorem WriterInv.setRun (invariant : WriterInv s) {run : RunPhase} (early : s.row = some .queued → run.isEarly = true)
    (marks : ∀ status, run = .mark status → status.isTerminal = true) (wasLive : run.isLive = true → s.run.isLive = true) :
    WriterInv { s with run } where
  current := invariant.current
  announced := invariant.announced
  marks := marks
  queued := fun isQueued => ⟨early isQueued, (invariant.queued isQueued).2⟩
  finishing := fun isLive => invariant.finishing (wasLive isLive)

theorem WriterInv.setStop (invariant : WriterInv s) {phase : StopPhase} (index : Nat)
    (early : s.row = some .queued → phase.isEarly = true) (finishing : phase.isFinishing = true → s.run.isLive = false) :
    WriterInv { s with stops := s.stops.set index phase } where
  current := invariant.current
  announced := invariant.announced
  marks := invariant.marks
  queued := by
    intro isQueued
    obtain ⟨run, stops, live⟩ := invariant.queued isQueued
    refine ⟨run, fun stop listed => ?_, live⟩
    rcases List.mem_or_eq_of_mem_set listed with kept | rfl
    · exact stops stop kept
    · exact early isQueued
  finishing := by
    intro isLive stop listed
    rcases List.mem_or_eq_of_mem_set listed with kept | rfl
    · exact invariant.finishing isLive stop kept
    · by_contra isFinishing
      rw [finishing (by simpa using isFinishing)] at isLive
      cases isLive

theorem WriterInv.change (invariant : WriterInv s) {change : LiveGeneration → Change} (announces : Announces change)
    (notQueued : s.row ≠ some .queued) : WriterInv (s.change change) where
  current := by
    unfold WriterState.change
    split
    next => exact invariant.current
    next before _ =>
      rintro live ⟨⟩
      exact List.getLast?_concat
  announced := by
    unfold WriterState.change
    split
    next => exact invariant.announced
    next before _ => exact invariant.announced.append (announces before)
  marks := by simpa using invariant.marks
  queued := fun isQueued => absurd (by simpa using isQueued) notQueued
  finishing := by simpa using invariant.finishing

theorem onStop_eq_some {index : Nat} {phase : StopPhase} {move : WriterState → WriterState × StopPhase} :
    s.onStop index phase move = some next ↔
      s.stops[index]? = some phase ∧ next = { (move s).1 with stops := s.stops.set index (move s).2 } := by
  unfold WriterState.onStop
  split
  next isThere => simp only [isThere, Option.some.injEq, true_and, eq_comm]
  next notThere => simp only [notThere, reduceCtorEq, false_and]

theorem transition_eq_some {allowed : List Status} {status : Status} {row row' : Option Status} :
    transition allowed status row = some row' ↔ (∃ current ∈ allowed, row = some current) ∧ row' = some status := by
  cases row with
  | none => simp [transition]
  | some current =>
    simp only [transition, List.contains_iff_mem, Option.ite_none_right_eq_some, Option.some.injEq]
    constructor
    · rintro ⟨listed, rfl⟩
      exact ⟨⟨current, listed, rfl⟩, rfl⟩
    · rintro ⟨⟨found, listed, rfl⟩, rfl⟩
      exact ⟨listed, rfl⟩

/-- `_finish_stopped` leaves no active row. -/
theorem stopped_ne_queued (row : Option Status) :
    (transition activeGenerationStatuses .stopped row).getD row ≠ some .queued := by
  rcases row with _ | (_ | _ | _ | _ | _ | _) <;> decide

theorem failRow_spec (row : Option Status) :
    (failRow row).1 ≠ some .queued ∧ ∀ status, (failRow row).2 = some status → status.isTerminal = true := by
  rcases row with _ | (_ | _ | _ | _ | _ | _) <;> decide +revert

theorem WriterInv.stopThere (invariant : WriterInv s) {index : Nat} {phase : StopPhase} (isThere : s.stops[index]? = some phase)
    (notEarly : phase.isEarly = false) : s.row ≠ some .queued := by
  intro isQueued
  have early := (invariant.queued isQueued).2.1 phase (List.mem_of_getElem? isThere)
  rw [notEarly] at early
  cases early

theorem WriterInv.runThere (invariant : WriterInv s) (notEarly : s.run.isEarly = false) : s.row ≠ some .queued := by
  intro isQueued
  have early := (invariant.queued isQueued).1
  rw [notEarly] at early
  cases early

theorem writerInv_step (invariant : WriterInv s) (taken : writerStep s action = some next) : WriterInv next := by
  cases action with
  | setRunning =>
    obtain ⟨isRun, taken⟩ := Option.ite_none_right_eq_some.mp taken
    have isLive : s.run.isLive = true := by rw [isRun]; rfl
    split at taken
    next row moved =>
      cases taken
      obtain ⟨-, rfl⟩ := transition_eq_some.mp moved
      refine @WriterInv.setRun _ (invariant.setRow ?_) _ ?_ ?_ fun _ => isLive
      · exact fun isQueued => nomatch isQueued
      · exact fun isQueued => nomatch isQueued
      · exact fun _ isMark => nomatch isMark
    next =>
      cases taken
      exact invariant.setRun (fun _ => rfl) (fun _ isMark => nomatch isMark) fun _ => isLive
  | publishRunning =>
    obtain ⟨isRun, taken⟩ := Option.ite_none_right_eq_some.mp taken
    cases taken
    have notQueued : s.row ≠ some .queued := invariant.runThere (by rw [isRun]; rfl)
    refine (invariant.change (announces_setLiveStatus .running) notQueued).setRun ?_ ?_ ?_
    · exact fun isQueued => absurd (by simpa using isQueued) notQueued
    · exact fun _ isMark => nomatch isMark
    · exact fun _ => by simp [isRun, RunPhase.isLive]
  | applyLiveEvents events =>
    obtain ⟨isRun, taken⟩ := Option.ite_none_right_eq_some.mp taken
    cases taken
    exact invariant.change (announces_applyLiveEvents events) (invariant.runThere (by rw [isRun]; rfl))
  | resetDraftForRetry =>
    obtain ⟨isRun, taken⟩ := Option.ite_none_right_eq_some.mp taken
    cases taken
    exact invariant.change announces_resetDraftForRetry (invariant.runThere (by rw [isRun]; rfl))
  | commitSuccess =>
    obtain ⟨isRun, taken⟩ := Option.ite_none_right_eq_some.mp taken
    have isLive : s.run.isLive = true := by rw [isRun]; rfl
    split at taken
    next row moved =>
      cases taken
      obtain ⟨-, rfl⟩ := transition_eq_some.mp moved
      refine @WriterInv.setRun _ (invariant.setRow ?_) _ ?_ ?_ fun _ => isLive
      · exact fun isQueued => nomatch isQueued
      · exact fun isQueued => nomatch isQueued
      · rintro _ ⟨⟩
        rfl
    next =>
      cases taken
      exact invariant.setRun (fun _ => rfl) (fun _ isMark => nomatch isMark) fun _ => isLive
  | fail =>
    obtain ⟨isRun, taken⟩ := Option.ite_none_right_eq_some.mp taken
    cases taken
    obtain ⟨notQueued, marks⟩ := failRow_spec s.row
    refine (invariant.setRow notQueued).setRun (fun isQueued => absurd isQueued notQueued) ?_ fun _ => by rw [isRun]; rfl
    intro status isMark
    split at isMark
    next found =>
      cases isMark
      exact marks _ found
    next => cases isMark
  | finishStopped =>
    obtain ⟨isRun, taken⟩ := Option.ite_none_right_eq_some.mp taken
    cases taken
    have notQueued := stopped_ne_queued s.row
    refine (invariant.setRow notQueued).setRun (fun isQueued => absurd isQueued notQueued) ?_ fun _ => by rw [isRun]; rfl
    rintro _ ⟨⟩
    rfl
  | mark =>
    simp only [writerStep] at taken
    split at taken
    next status isRun =>
      cases taken
      have notQueued : s.row ≠ some .queued := invariant.runThere (by rw [isRun]; rfl)
      refine (invariant.change (announces_setLiveStatus status) notQueued).setRun ?_ ?_ ?_
      · exact fun isQueued => absurd (by simpa using isQueued) notQueued
      · exact fun _ isMark => nomatch isMark
      · exact fun _ => by simp [isRun, RunPhase.isLive]
    next => cases taken
  | notify =>
    obtain ⟨isRun, taken⟩ := Option.ite_none_right_eq_some.mp taken
    cases taken
    have notQueued : s.row ≠ some .queued := invariant.runThere (by rw [isRun]; rfl)
    exact invariant.setRun (fun isQueued => absurd isQueued notQueued) (fun _ isMark => nomatch isMark) fun _ => by rw [isRun]; rfl
  | raised | cancelled =>
    obtain ⟨isGuarded, taken⟩ := Option.ite_none_right_eq_some.mp taken
    cases taken
    refine invariant.setRun (fun _ => rfl) (fun _ isMark => nomatch isMark) fun _ => ?_
    cases isRun : s.run <;> rw [isRun] at isGuarded <;> first | rfl | cases isGuarded
  | finish =>
    obtain ⟨-, taken⟩ := Option.ite_none_right_eq_some.mp taken
    cases taken
    exact invariant.setRun (fun _ => rfl) (fun _ isMark => nomatch isMark) fun isLive => nomatch isLive
  | taskFinished =>
    obtain ⟨-, taken⟩ := Option.ite_none_right_eq_some.mp taken
    cases taken
    constructor
    · exact fun _ isLive => nomatch isLive
    · exact invariant.announced
    · exact fun _ isMark => nomatch isMark
    · exact fun isQueued => ⟨rfl, (invariant.queued isQueued).2.1, fun _ isLive => nomatch isLive⟩
    · exact fun isLive => nomatch isLive
  | stop =>
    cases taken
    constructor
    · exact invariant.current
    · exact invariant.announced
    · exact invariant.marks
    · intro isQueued
      obtain ⟨run, stops, live⟩ := invariant.queued isQueued
      exact ⟨run, List.forall_mem_append.mpr ⟨stops, by simp [StopPhase.isEarly]⟩, live⟩
    · intro isLive
      exact List.forall_mem_append.mpr ⟨invariant.finishing isLive, by simp [StopPhase.isFinishing]⟩
  | requestStop index =>
    simp only [writerStep, onStop_eq_some] at taken
    obtain ⟨-, rfl⟩ := taken
    split
    next row moved =>
      obtain ⟨-, rfl⟩ := transition_eq_some.mp moved
      refine (invariant.setRow ?_).setStop index ?_ fun isFinishing => nomatch isFinishing
      · exact fun isQueued => nomatch isQueued
      · exact fun isQueued => nomatch isQueued
    next => exact invariant.setStop index (fun _ => rfl) fun isFinishing => nomatch isFinishing
  | readStatus index =>
    simp only [writerStep, onStop_eq_some] at taken
    obtain ⟨-, rfl⟩ := taken
    refine invariant.setStop index ?_ ?_
    · intro isQueued
      rw [isQueued]
      rfl
    · split <;> exact fun isFinishing => nomatch isFinishing
  | publishStopping index =>
    simp only [writerStep, onStop_eq_some] at taken
    obtain ⟨isThere, rfl⟩ := taken
    have notQueued := invariant.stopThere isThere rfl
    rw [← change_stops s (setLiveStatus .stopping)]
    refine (invariant.change (announces_setLiveStatus .stopping) notQueued).setStop index ?_ ?_
    · exact fun isQueued => absurd (by simpa using isQueued) notQueued
    · intro isFinishing
      rw [change_run]
      split at isFinishing
      next => cases isFinishing
      next notLive => simpa using notLive
  | finishStop index =>
    simp only [writerStep, onStop_eq_some] at taken
    obtain ⟨isThere, rfl⟩ := taken
    have notQueued := stopped_ne_queued s.row
    refine (invariant.setRow notQueued).setStop index (fun isQueued => absurd isQueued notQueued) fun _ => ?_
    by_contra isLive
    have finishing := invariant.finishing (by simpa using isLive) _ (List.mem_of_getElem? isThere)
    cases finishing
  | markStop index =>
    simp only [writerStep, onStop_eq_some] at taken
    obtain ⟨isThere, rfl⟩ := taken
    have notQueued := invariant.stopThere isThere rfl
    rw [← change_stops s (setLiveStatus .stopped)]
    exact (invariant.change (announces_setLiveStatus .stopped) notQueued).setStop index (fun _ => rfl) fun isFinishing =>
      nomatch isFinishing
  | abandonStop index =>
    simp only [writerStep] at taken
    split at taken
    next =>
      cases taken
      exact invariant.setStop index (fun _ => rfl) fun isFinishing => nomatch isFinishing
    next => cases taken
  | deleteRow =>
    cases taken
    exact invariant.setRow fun isQueued => nomatch isQueued

/-! ## What a step does to the draft -/

/-- The steps that change the draft, and how. -/
inductive DraftChange (s : WriterState) : WriterAction → (LiveGeneration → Change) → Prop where
  | running (isRun : s.run = .publishRunning) : DraftChange s .publishRunning (setLiveStatus .running)
  | events (events : List ProtocolEvent) : DraftChange s (.applyLiveEvents events) fun live => applyLiveEvents live events
  | reset : DraftChange s .resetDraftForRetry resetDraftForRetry
  | mark (status : Status) (isRun : s.run = .mark status) : DraftChange s .mark (setLiveStatus status)
  | stopping (index : Nat) : DraftChange s (.publishStopping index) (setLiveStatus .stopping)
  | stopped (index : Nat) (isThere : s.stops[index]? = some .mark) : DraftChange s (.markStop index) (setLiveStatus .stopped)

/-- A step changes the draft in one of these ways, or leaves it as it is, or removes it. -/
theorem draft_step (taken : writerStep s action = some next) :
    (next.held = s.held ∧ (next.live = s.live ∨ next.live = none)) ∨
      ∃ change, DraftChange s action change ∧ next.held = (s.change change).held ∧ next.live = (s.change change).live := by
  cases action with
  | setRunning | commitSuccess =>
    obtain ⟨-, taken⟩ := Option.ite_none_right_eq_some.mp taken
    split at taken <;> cases taken <;> exact .inl ⟨rfl, .inl rfl⟩
  | publishRunning =>
    obtain ⟨isRun, taken⟩ := Option.ite_none_right_eq_some.mp taken
    cases taken
    exact .inr ⟨_, .running isRun, rfl, rfl⟩
  | applyLiveEvents events =>
    obtain ⟨-, taken⟩ := Option.ite_none_right_eq_some.mp taken
    cases taken
    exact .inr ⟨_, .events events, rfl, rfl⟩
  | resetDraftForRetry =>
    obtain ⟨-, taken⟩ := Option.ite_none_right_eq_some.mp taken
    cases taken
    exact .inr ⟨_, .reset, rfl, rfl⟩
  | mark =>
    simp only [writerStep] at taken
    split at taken
    next status isRun =>
      cases taken
      exact .inr ⟨_, .mark status isRun, rfl, rfl⟩
    next => cases taken
  | fail | finishStopped | notify | raised | cancelled | finish =>
    obtain ⟨-, taken⟩ := Option.ite_none_right_eq_some.mp taken
    cases taken
    exact .inl ⟨rfl, .inl rfl⟩
  | taskFinished =>
    obtain ⟨-, taken⟩ := Option.ite_none_right_eq_some.mp taken
    cases taken
    exact .inl ⟨rfl, .inr rfl⟩
  | stop | deleteRow =>
    cases taken
    exact .inl ⟨rfl, .inl rfl⟩
  | requestStop index =>
    simp only [writerStep, onStop_eq_some] at taken
    obtain ⟨-, rfl⟩ := taken
    split <;> exact .inl ⟨rfl, .inl rfl⟩
  | readStatus index | finishStop index =>
    simp only [writerStep, onStop_eq_some] at taken
    obtain ⟨-, rfl⟩ := taken
    exact .inl ⟨rfl, .inl rfl⟩
  | publishStopping index =>
    simp only [writerStep, onStop_eq_some] at taken
    obtain ⟨-, rfl⟩ := taken
    exact .inr ⟨_, .stopping index, rfl, rfl⟩
  | markStop index =>
    simp only [writerStep, onStop_eq_some] at taken
    obtain ⟨isThere, rfl⟩ := taken
    exact .inr ⟨_, .stopped index isThere, rfl, rfl⟩
  | abandonStop index =>
    simp only [writerStep] at taken
    split at taken
    next =>
      cases taken
      exact .inl ⟨rfl, .inl rfl⟩
    next => cases taken

/-- The task is about to write `running` only where it was, or where the row was queued. -/
theorem publishRunning_step (taken : writerStep s action = some next) (isNext : next.run = .publishRunning) :
    s.run = .publishRunning ∨ (s.row = some .queued ∧ next.live = s.live) := by
  cases action with
  | setRunning =>
    obtain ⟨-, taken⟩ := Option.ite_none_right_eq_some.mp taken
    split at taken
    next row moved =>
      cases taken
      obtain ⟨⟨current, listed, isRow⟩, -⟩ := transition_eq_some.mp moved
      rw [List.mem_singleton.mp listed] at isRow
      exact .inr ⟨isRow, rfl⟩
    next =>
      cases taken
      cases isNext
  | fail =>
    simp only [writerStep, Option.ite_none_right_eq_some, Option.some.injEq] at taken
    obtain ⟨-, rfl⟩ := taken
    exfalso
    revert isNext
    split <;> exact fun isNext => nomatch isNext
  | publishRunning | finishStopped | notify | raised | cancelled | finish | taskFinished =>
    obtain ⟨-, taken⟩ := Option.ite_none_right_eq_some.mp taken
    cases taken
    cases isNext
  | applyLiveEvents | resetDraftForRetry =>
    obtain ⟨isRun, taken⟩ := Option.ite_none_right_eq_some.mp taken
    cases taken
    rw [change_run] at isNext
    exact .inl isNext
  | commitSuccess =>
    obtain ⟨-, taken⟩ := Option.ite_none_right_eq_some.mp taken
    split at taken <;> cases taken <;> cases isNext
  | mark =>
    simp only [writerStep] at taken
    split at taken <;> cases taken
    cases isNext
  | stop | deleteRow =>
    cases taken
    exact .inl isNext
  | requestStop index =>
    simp only [writerStep, onStop_eq_some] at taken
    obtain ⟨-, rfl⟩ := taken
    split at isNext <;> exact .inl isNext
  | readStatus index | finishStop index =>
    simp only [writerStep, onStop_eq_some] at taken
    obtain ⟨-, rfl⟩ := taken
    exact .inl isNext
  | publishStopping index | markStop index =>
    simp only [writerStep, onStop_eq_some] at taken
    obtain ⟨-, rfl⟩ := taken
    exact .inl (by simpa using isNext)
  | abandonStop index =>
    simp only [writerStep] at taken
    split at taken <;> cases taken
    exact .inl isNext

/-! ## Runs in order -/

/-- What holds in the runs in which no Stop comes in between. -/
structure OrderedInv (s : WriterState) : Prop where
  facts : WriterInv s
  forward : Forward s.held
  publishing : s.run = .publishRunning → ∀ live, s.live = some live → live.status = .queued

theorem orderedInv_initial : OrderedInv .initial where
  facts := writerInv_initial
  forward := List.pairwise_singleton _ _
  publishing := fun isRun => nomatch isRun

theorem Forward.concat {statuses : List Status} {last status : Status} (forward : Forward statuses)
    (isLast : statuses.getLast? = some last) (ahead : statusRank last ≤ statusRank status) : Forward (statuses ++ [status]) := by
  obtain ⟨earlier, rfl⟩ := List.getLast?_eq_some_iff.mp isLast
  refine List.pairwise_append.mpr ⟨forward, List.pairwise_singleton _ _, fun before listed after isAfter => ?_⟩
  rw [List.mem_singleton.mp isAfter]
  rcases List.mem_append.mp listed with inEarlier | isBefore
  · exact ((List.pairwise_append.mp forward).2.2 before inEarlier last (List.mem_singleton_self last)).trans ahead
  · rw [List.mem_singleton.mp isBefore]
    exact ahead

/-- In order, every change of the draft moves its status forward. -/
theorem OrderedInv.ahead (invariant : OrderedInv s) (allowed : InOrder s action) {change : LiveGeneration → Change}
    (changes : DraftChange s action change) {live : LiveGeneration} (isLive : s.live = some live) :
    statusRank live.status ≤ statusRank (change live).1.status := by
  cases changes with
  | running isRun =>
    refine setLiveStatus_rank (.inr ?_)
    rw [invariant.publishing isRun live isLive]
    decide
  | events events => exact Nat.le_of_eq (by rw [applyLiveEvents_status])
  | reset => exact Nat.le_of_eq (by rw [resetDraftForRetry_status])
  | mark status isRun =>
    refine setLiveStatus_rank (.inr ?_)
    rw [statusRank_of_isTerminal (invariant.facts.marks status isRun)]
    exact statusRank_le live.status
  | stopping index =>
    refine setLiveStatus_rank ?_
    cases live.status <;> decide
  | stopped index isThere => exact setLiveStatus_rank (.inr (statusRank_le live.status))

theorem OrderedInv.publishingAfter (invariant : OrderedInv s) (allowed : InOrder s action)
    (taken : writerStep s action = some next) (isRun : next.run = .publishRunning) :
    ∀ live, next.live = some live → live.status = .queued := by
  intro live isLive
  rcases publishRunning_step taken isRun with wasRun | ⟨isQueued, sameLive⟩
  · rcases draft_step taken with ⟨-, sameLive | isNone⟩ | ⟨change, changes, -, sameLive⟩
    · exact invariant.publishing wasRun live (sameLive ▸ isLive)
    · rw [isNone] at isLive
      cases isLive
    · -- While the task is about to write, no step in order changes the draft.
      cases changes with
      | running | events | reset =>
        obtain ⟨isThere, taken⟩ := Option.ite_none_right_eq_some.mp taken
        first
          | exact absurd (wasRun.symm.trans isThere) (by decide)
          | (cases taken; cases isRun)
      | mark status isMark => exact absurd (wasRun.symm.trans isMark) (fun same => nomatch same)
      | stopping index => exact nomatch allowed wasRun
      | stopped index isThere =>
        have finishing := invariant.facts.finishing (by rw [wasRun]; rfl) _ (List.mem_of_getElem? isThere)
        cases finishing
  · exact (invariant.facts.queued isQueued).2.2 live (sameLive ▸ isLive)

theorem orderedInv_step (invariant : OrderedInv s) (allowed : InOrder s action) (taken : writerStep s action = some next) :
    OrderedInv next where
  facts := writerInv_step invariant.facts taken
  forward := by
    rcases draft_step taken with ⟨sameHeld, -⟩ | ⟨change, changes, isHeld, -⟩
    · exact sameHeld ▸ invariant.forward
    · rw [isHeld]
      unfold WriterState.change
      split
      next => exact invariant.forward
      next live isLive => exact invariant.forward.concat (invariant.facts.current live isLive) (invariant.ahead allowed changes isLive)
  publishing := invariant.publishingAfter allowed taken

theorem orderedInv (reachable : writers.ReachableVia InOrder s) : OrderedInv s :=
  Machine.invariant OrderedInv (by rintro _ rfl; exact orderedInv_initial)
    (fun _ _ _ invariant allowed taken => orderedInv_step invariant allowed taken) reachable

/-- Events and a reset leave a draft alone that is not running. -/
theorem DraftChange.blocks {change : LiveGeneration → Change} (changes : DraftChange s action change) {live : LiveGeneration}
    (notRunning : live.status ≠ .running) : (change live).1.blocks = live.blocks := by
  cases changes with
  | running | mark | stopping | stopped => exact setLiveStatus_blocks _ live
  | events events => simp only [applyLiveEvents, if_pos notRunning]
  | reset => simp only [resetDraftForRetry, if_pos notRunning]

/-- A draft that a Stop moved to `stopping` keeps its text, and never gets behind `stopping`. -/
def StopKeepsDraft (s : WriterState) : Prop :=
  ∀ action next live after, InOrder s action → writers.step s action = some next → s.live = some live → next.live = some after →
    statusRank .stopping ≤ statusRank live.status → statusRank .stopping ≤ statusRank after.status ∧ after.blocks = live.blocks

theorem OrderedInv.keeps (invariant : OrderedInv s) : StopKeepsDraft s := by
  intro action next live after allowed taken isLive isAfter stopped
  rcases draft_step taken with ⟨-, sameLive | isNone⟩ | ⟨change, changes, -, sameLive⟩
  · rw [sameLive, isLive] at isAfter
    cases isAfter
    exact ⟨stopped, rfl⟩
  · rw [isNone] at isAfter
    cases isAfter
  · simp only [WriterState.change, isLive] at sameLive
    rw [sameLive] at isAfter
    cases isAfter
    refine ⟨stopped.trans (invariant.ahead allowed changes isLive), changes.blocks fun isRunning => ?_⟩
    rw [isRunning] at stopped
    exact absurd stopped (by decide)

/-- While no Stop updates the draft between the commit of `_set_running` and its own update, the status
the draft holds and the one that is published only go forward, and a Stop keeps its draft. -/
theorem live_status_forward (reachable : writers.ReachableVia InOrder s) :
    Forward s.held ∧ Forward s.published ∧ (∀ live, s.live = some live → s.held.getLast? = some live.status) ∧ StopKeepsDraft s := by
  have invariant := orderedInv reachable
  exact ⟨invariant.forward, invariant.forward.sublist invariant.facts.announced, invariant.facts.current, invariant.keeps⟩

end

/-- In any run, a task that writes `running` after a Stop was faster takes the status back. -/
theorem overtaken_goes_back {s next : WriterState} {live : LiveGeneration} (reachable : writers.Reachable s)
    (isLive : s.live = some live) (isStopping : live.status = .stopping) (taken : writers.step s .publishRunning = some next) :
    ¬ Forward next.held := by
  have invariant : WriterInv s := Machine.invariant WriterInv (by rintro _ rfl; exact writerInv_initial)
    (fun _ _ _ invariant _ taken => writerInv_step invariant taken) reachable
  obtain ⟨-, taken⟩ := Option.ite_none_right_eq_some.mp taken
  cases taken
  obtain ⟨earlier, isHeld⟩ := List.getLast?_eq_some_iff.mp (invariant.current live isLive)
  have isRunning : (setLiveStatus .running live).1.status = .running := by
    unfold setLiveStatus
    rw [isStopping]
    rfl
  intro forward
  simp only [WriterState.change, isLive, isHeld, isRunning] at forward
  have behind := (List.pairwise_append.mp forward).2.2 live.status (by simp) .running (List.mem_singleton_self _)
  rw [isStopping] at behind
  exact absurd behind (by decide)

/-- A Stop of a generation that runs. -/
theorem live_status_forward_stopped :
    ∃ s, writers.runVia InOrder .initial [.setRunning, .publishRunning, .stop, .requestStop 0, .publishStopping 0] = some s ∧
      Forward s.held ∧ s.published = [.running, .stopping] := by
  have ran : writers.runVia InOrder .initial [.setRunning, .publishRunning, .stop, .requestStop 0, .publishStopping 0] = some _ := rfl
  exact ⟨_, ran, (live_status_forward (Machine.reachableVia_of_runVia (.init rfl) ran)).1, rfl⟩

/-- A Stop whose transaction and update of the draft fall between those of the task: the row is stopping
and the draft running, and a retry would reset it. -/
theorem overtaken_stop :
    ∃ s live, writers.run .initial [.setRunning, .stop, .requestStop 0, .publishStopping 0, .publishRunning] = some s ∧
      s.row = some .stopping ∧ s.live = some live ∧ live.status = .running ∧ s.published = [.stopping, .running] ∧
      ¬ Forward s.held ∧ ¬ Forward s.published ∧ (resetDraftForRetry live).2 = some .resync :=
  ⟨_, _, rfl, rfl, rfl, rfl, rfl, by decide, by decide, rfl⟩

end Oveo.Stream
