import Oveo.Lib.Machine
import Oveo.Lib.Totals

/-! # The bounded worker

`workers.py`: one thread, a queue and a count of the jobs that are admitted and not finished.  The
thread, the event loop and the callers that are cancelled take their steps in any order.  A job that
ends schedules `_release` on the loop, which counts it off when it runs. -/

namespace Oveo.Server

open Oveo.Lib

inductive JobPhase where
  | queued
  | running
  /-- It finished or was cancelled, and `_release` is scheduled. -/
  | releasing
  | released
  /-- It ended after the event loop was closed. -/
  | lost
deriving DecidableEq, Repr

structure Job where
  wait : Bool
  phase : JobPhase
deriving DecidableEq, Repr

structure WorkerState where
  /-- `_pending`. -/
  pending : Int
  /-- The jobs that were admitted, in order. -/
  jobs : List Job
  loopOpen : Bool
  /-- The executor takes work. -/
  accepting : Bool
  /-- History only: the jobs whose calls have begun, in order. -/
  started : List Nat
deriving DecidableEq, Repr

inductive WorkerAction where
  | run (wait : Bool)
  /-- The thread takes the first job of the queue that is not cancelled. -/
  | start
  | finish
  /-- The caller of a job is cancelled, which cancels the job unless it runs. -/
  | cancel (job : Nat)
  /-- The loop runs `_release`. -/
  | release (job : Nat)
  | close
  | closeLoop
deriving DecidableEq, Repr

def Job.isQueued (job : Job) : Bool := job.phase == .queued

def Job.isRunning (job : Job) : Bool := job.phase == .running

/-- What a job is when it ends: its callback finds the loop open or closed. -/
def WorkerState.ended (s : WorkerState) : JobPhase := if s.loopOpen then .releasing else .lost

def WorkerState.setPhase (s : WorkerState) (job : Nat) (phase : JobPhase) : WorkerState :=
  { s with jobs := s.jobs.modify job fun entry => { entry with phase } }

section

variable (maxPending : Nat)

/-- `run` up to the await, if the loop runs it.  Refused, it raises and changes nothing. -/
def WorkerState.submit (s : WorkerState) (wait : Bool) : WorkerState :=
  if !wait && maxPending ≤ s.pending then s
  else if s.accepting then { s with pending := s.pending + 1, jobs := s.jobs ++ [⟨wait, .queued⟩] }
  else s

def workerStep (s : WorkerState) : WorkerAction → Option WorkerState
  | .run wait => if s.loopOpen then some (s.submit maxPending wait) else none
  | .start =>
    if s.jobs.any Job.isRunning then none
    else
      match s.jobs.findIdx? Job.isQueued with
      | some job => some { s.setPhase job .running with started := s.started ++ [job] }
      | none => none
  | .finish =>
    match s.jobs.findIdx? Job.isRunning with
    | some job => some (s.setPhase job s.ended)
    | none => none
  | .cancel job =>
    match s.jobs[job]? with
    | some entry => if s.loopOpen then if entry.isQueued then some (s.setPhase job s.ended) else some s else none
    | none => none
  | .release job =>
    match s.jobs[job]? with
    | some ⟨_, .releasing⟩ => if s.loopOpen then some { s.setPhase job .released with pending := s.pending - 1 } else none
    | _ => none
  | .close =>
    -- `cancel_futures` cancels what is queued.
    some { s with
      accepting := false
      jobs := s.jobs.map fun entry => if entry.isQueued then { entry with phase := s.ended } else entry }
  | .closeLoop => some { s with loopOpen := false }

def worker : Machine WorkerState WorkerAction where
  init s := s = { pending := 0, jobs := [], loopOpen := true, accepting := true, started := [] }
  step := workerStep maxPending

end

/-! ## Counting jobs -/

/-- 1 for a job that is not released. -/
def Job.unreleased (job : Job) : Nat := if job.phase = .released then 0 else 1

def Job.runs (job : Job) : Nat := if job.phase = .running then 1 else 0

/-- 1 for an unreleased job whose caller would not wait. -/
def Job.unreleasedImpatient (job : Job) : Nat := if job.wait then 0 else job.unreleased

/-- How many steps of the thread and the loop a job still needs. -/
def Job.work (job : Job) : Nat :=
  match job.phase with
  | .queued => 3
  | .running => 2
  | .releasing => 1
  | .released | .lost => 0

structure WorkerInv (maxPending : Nat) (s : WorkerState) : Prop where
  pending : s.pending = total Job.unreleased s.jobs
  running : total Job.runs s.jobs ≤ 1
  impatient : total Job.unreleasedImpatient s.jobs ≤ maxPending
  /-- Calls begin in the order of admission, each at most once. -/
  order : s.started.Pairwise (· < ·)
  begun : ∀ job ∈ s.started, ∀ other entry, s.jobs[other]? = some entry → entry.isQueued = true → job < other
  known : ∀ job ∈ s.started, job < s.jobs.length
  open? : s.loopOpen = true → ∀ entry ∈ s.jobs, entry.phase ≠ .lost

section

variable {maxPending : Nat} {s s' : WorkerState} {job : Nat} {entry : Job} {phase : JobPhase}

theorem total_setPhase (weight : Job → Nat) (found : s.jobs[job]? = some entry) :
    total weight (s.setPhase job phase).jobs + weight entry = total weight s.jobs + weight { entry with phase } := by
  have isSet : (s.setPhase job phase).jobs = s.jobs.set job { entry with phase } := by
    rw [WorkerState.setPhase, List.modify_eq_set_getElem?, found]
    rfl
  rw [isSet]
  exact total_set weight { entry with phase } found

theorem getElem?_setPhase {other : Nat} {changed : Job} (found : (s.setPhase job phase).jobs[other]? = some changed) :
    ∃ entry, s.jobs[other]? = some entry ∧ changed = if job = other then { entry with phase } else entry := by
  rw [WorkerState.setPhase, List.getElem?_modify, Option.map_eq_map, Option.map_eq_some_iff] at found
  obtain ⟨entry, found, rfl⟩ := found
  refine ⟨entry, found, ?_⟩
  split <;> rfl

theorem mem_setPhase {changed : Job} (listed : changed ∈ (s.setPhase job phase).jobs) :
    changed.phase = phase ∨ ∃ entry ∈ s.jobs, changed = entry := by
  obtain ⟨other, found⟩ := List.getElem?_of_mem listed
  obtain ⟨entry, isEntry, rfl⟩ := getElem?_setPhase found
  by_cases same : job = other
  · exact .inl (by rw [if_pos same])
  · exact .inr ⟨entry, List.mem_of_getElem? isEntry, by rw [if_neg same]⟩

theorem ended_ne : s.ended ≠ .queued ∧ s.ended ≠ .running ∧ s.ended ≠ .released := by
  rw [WorkerState.ended]
  split <;> decide

/-- A job moves on without being queued again; what it counts for does not grow. -/
theorem WorkerInv.setPhase (invariant : WorkerInv maxPending s) (found : s.jobs[job]? = some entry)
    (notQueued : phase ≠ .queued) (notReleased : phase ≠ .released) (unreleased : entry.phase ≠ .released)
    (running : phase = .running → total Job.runs s.jobs = 0) (isOpen : s.loopOpen = true → phase ≠ .lost) :
    WorkerInv maxPending (s.setPhase job phase) := by
  constructor
  case pending =>
    have changed := @total_setPhase s job entry phase Job.unreleased found
    simp only [Job.unreleased, unreleased, notReleased, if_false] at changed
    have same := invariant.pending
    show s.pending = _
    omega
  case running =>
    have changed := @total_setPhase s job entry phase Job.runs found
    have bound := invariant.running
    by_cases runs : phase = .running
    · have idle := running runs
      simp only [Job.runs, runs, if_true] at changed idle ⊢
      omega
    · simp only [Job.runs, runs, if_false] at changed bound ⊢
      omega
  case impatient =>
    have changed := @total_setPhase s job entry phase Job.unreleasedImpatient found
    have bound := invariant.impatient
    simp only [Job.unreleasedImpatient, Job.unreleased, unreleased, notReleased, if_false] at changed bound ⊢
    omega
  case order => exact invariant.order
  case begun =>
    intro earlier isStarted other changed isThere isQueued
    obtain ⟨original, isOriginal, rfl⟩ := getElem?_setPhase isThere
    split at isQueued
    next =>
      simp only [Job.isQueued, beq_iff_eq] at isQueued
      exact absurd isQueued notQueued
    next => exact invariant.begun earlier isStarted other original isOriginal isQueued
  case known =>
    intro earlier isStarted
    rw [WorkerState.setPhase, List.length_modify]
    exact invariant.known earlier isStarted
  case open? =>
    intro loopOpen changed listed
    obtain isPhase | ⟨original, isOriginal, rfl⟩ := mem_setPhase listed
    · rw [isPhase]
      exact isOpen loopOpen
    · exact invariant.open? loopOpen changed isOriginal

theorem ended_open (loopOpen : s.loopOpen = true) : s.ended ≠ .lost := by
  rw [WorkerState.ended, if_pos loopOpen]
  decide

theorem total_runs_eq_zero (idle : s.jobs.any Job.isRunning = false) : total Job.runs s.jobs = 0 := by
  apply total_eq_zero
  intro entry listed
  have notRunning := List.any_eq_false.mp idle entry listed
  rw [Job.runs, if_neg]
  simpa [Job.isRunning] using notRunning

theorem WorkerInv.submit (invariant : WorkerInv maxPending s) (wait : Bool) (loopOpen : s.loopOpen = true) :
    WorkerInv maxPending (s.submit maxPending wait) := by
  rw [WorkerState.submit]
  split
  next => exact invariant
  next admitted =>
    split
    next =>
      constructor
      case pending =>
        have same := invariant.pending
        simp only [total_append, total_cons, total_nil, Job.unreleased] at same ⊢
        simp only [reduceCtorEq, if_false]
        omega
      case running =>
        have bound := invariant.running
        simpa [Job.runs] using bound
      case impatient =>
        have bound := invariant.impatient
        cases wait with
        | true => simpa [Job.unreleasedImpatient] using bound
        | false =>
          -- Fewer jobs than the limit are unreleased, whoever called for them.
          have fewer : total Job.unreleasedImpatient s.jobs ≤ total Job.unreleased s.jobs := by
            apply total_le_total
            intro entry listed
            rw [Job.unreleasedImpatient]
            split <;> omega
          have same := invariant.pending
          simp only [Bool.not_false, Bool.true_and, decide_eq_true_eq] at admitted
          simp only [total_append, total_cons, total_nil, Job.unreleasedImpatient, Job.unreleased, reduceCtorEq, if_false,
            Bool.false_eq_true] at fewer same ⊢
          omega
      case order => exact invariant.order
      case begun =>
        intro earlier isStarted other entry found isQueued
        rw [List.getElem?_append] at found
        split at found
        next => exact invariant.begun earlier isStarted other entry found isQueued
        next beyond =>
          have known := invariant.known earlier isStarted
          omega
      case known =>
        intro earlier isStarted
        have known := invariant.known earlier isStarted
        simp only [List.length_append, List.length_singleton]
        omega
      case open? =>
        intro _
        exact List.forall_mem_append.mpr ⟨invariant.open? loopOpen, List.forall_mem_singleton.mpr fun isLost => by cases isLost⟩
    next => exact invariant

theorem WorkerInv.close (invariant : WorkerInv maxPending s) : WorkerInv maxPending { s with
    accepting := false
    jobs := s.jobs.map fun entry => if entry.isQueued then { entry with phase := s.ended } else entry } := by
  obtain ⟨notQueued, notRunning, notReleased⟩ := @ended_ne s
  have same (weight : Job → Nat) (keeps : ∀ entry, entry.phase = .queued → weight { entry with phase := s.ended } = weight entry) :
      total weight (s.jobs.map fun entry => if entry.isQueued then { entry with phase := s.ended } else entry) = total weight s.jobs := by
    rw [total, List.map_map, total]
    congr 1
    apply List.map_congr_left
    intro entry listed
    rw [Function.comp_apply]
    split
    next isQueued => exact keeps entry (by simpa [Job.isQueued] using isQueued)
    next => rfl
  constructor
  case pending =>
    rw [same Job.unreleased fun entry isQueued => by simp [Job.unreleased, isQueued, notReleased]]
    exact invariant.pending
  case running =>
    rw [same Job.runs fun entry isQueued => by simp [Job.runs, isQueued, notRunning]]
    exact invariant.running
  case impatient =>
    rw [same Job.unreleasedImpatient fun entry isQueued => by simp [Job.unreleasedImpatient, Job.unreleased, isQueued, notReleased]]
    exact invariant.impatient
  case order => exact invariant.order
  case begun =>
    intro earlier isStarted other changed found isQueued
    rw [List.getElem?_map, Option.map_eq_some_iff] at found
    obtain ⟨entry, isEntry, rfl⟩ := found
    split at isQueued
    next =>
      simp only [Job.isQueued, beq_iff_eq] at isQueued
      exact absurd isQueued notQueued
    next waits => exact absurd isQueued waits
  case known =>
    intro earlier isStarted
    rw [List.length_map]
    exact invariant.known earlier isStarted
  case open? =>
    intro loopOpen changed listed
    obtain ⟨entry, isEntry, rfl⟩ := List.mem_map.mp listed
    split
    next => exact ended_open loopOpen
    next => exact invariant.open? loopOpen entry isEntry

theorem findIdx?_phase {select : Job → Bool} (found : s.jobs.findIdx? select = some job) :
    ∃ entry, s.jobs[job]? = some entry ∧ select entry = true ∧
      ∀ other earlier, s.jobs[other]? = some earlier → select earlier = true → job ≤ other := by
  obtain ⟨inside, selected, before⟩ := List.findIdx?_eq_some_iff_getElem.mp found
  refine ⟨s.jobs[job], List.getElem?_eq_getElem inside, selected, fun other earlier isThere alsoSelected => ?_⟩
  by_contra later
  obtain ⟨_, rfl⟩ := List.getElem?_eq_some_iff.mp isThere
  exact before other (by omega) alsoSelected

theorem workerStep_keeps {action : WorkerAction} (invariant : WorkerInv maxPending s) (taken : workerStep maxPending s action = some s') :
    WorkerInv maxPending s' := by
  cases action with
  | run wait =>
    simp only [workerStep] at taken
    split at taken
    next loopOpen =>
      cases taken
      exact invariant.submit wait loopOpen
    next => cases taken
  | start =>
    simp only [workerStep] at taken
    split at taken
    next => cases taken
    next idle =>
      split at taken
      next job found =>
        cases taken
        obtain ⟨entry, isEntry, isQueued, first⟩ := findIdx?_phase found
        have queued : entry.phase = .queued := by simpa [Job.isQueued] using isQueued
        have moved : WorkerInv maxPending (s.setPhase job .running) :=
          invariant.setPhase isEntry (by decide) (by decide) (by rw [queued]; decide)
            (fun _ => total_runs_eq_zero (by simpa using idle)) (fun _ => by decide)
        constructor
        case pending => exact moved.pending
        case running => exact moved.running
        case impatient => exact moved.impatient
        case open? => exact moved.open?
        case order =>
          refine List.pairwise_append.mpr ⟨moved.order, List.pairwise_singleton _ _, fun earlier isStarted next isNext => ?_⟩
          rw [List.mem_singleton.mp isNext]
          exact invariant.begun earlier isStarted job entry isEntry isQueued
        case begun =>
          refine List.forall_mem_append.mpr ⟨moved.begun, List.forall_mem_singleton.mpr fun other changed isThere waits => ?_⟩
          obtain ⟨original, isOriginal, rfl⟩ := getElem?_setPhase isThere
          split at waits
          next => cases waits
          next different =>
            have later := first other original isOriginal waits
            omega
        case known =>
          refine List.forall_mem_append.mpr ⟨moved.known, List.forall_mem_singleton.mpr ?_⟩
          simpa [WorkerState.setPhase] using (List.getElem?_eq_some_iff.mp isEntry).1
      next => cases taken
  | finish =>
    simp only [workerStep] at taken
    split at taken
    next job found =>
      cases taken
      obtain ⟨entry, isEntry, isRunning, -⟩ := findIdx?_phase found
      have running : entry.phase = .running := by simpa [Job.isRunning] using isRunning
      obtain ⟨notQueued, notRunning, notReleased⟩ := @ended_ne s
      exact invariant.setPhase isEntry notQueued notReleased (by rw [running]; decide) (fun runs => absurd runs notRunning) ended_open
    next => cases taken
  | cancel job =>
    simp only [workerStep] at taken
    split at taken
    next entry isEntry =>
      split at taken
      next =>
        split at taken
        next isQueued =>
          cases taken
          have queued : entry.phase = .queued := by simpa [Job.isQueued] using isQueued
          obtain ⟨notQueued, notRunning, notReleased⟩ := @ended_ne s
          exact invariant.setPhase isEntry notQueued notReleased (by rw [queued]; decide) (fun runs => absurd runs notRunning) ended_open
        next =>
          cases taken
          exact invariant
      next => cases taken
    next => cases taken
  | release job =>
    simp only [workerStep] at taken
    split at taken
    next wait isEntry =>
      split at taken
      next loopOpen =>
        cases taken
        constructor
        case pending =>
          have changed := @total_setPhase s job _ .released Job.unreleased isEntry
          have same := invariant.pending
          simp only [Job.unreleased, reduceCtorEq, if_false, if_true] at changed same ⊢
          omega
        case running =>
          have changed := @total_setPhase s job _ .released Job.runs isEntry
          have bound := invariant.running
          simp only [Job.runs, reduceCtorEq, if_false] at changed bound ⊢
          omega
        case impatient =>
          have changed := @total_setPhase s job _ .released Job.unreleasedImpatient isEntry
          have bound := invariant.impatient
          simp only [Job.unreleasedImpatient, Job.unreleased, reduceCtorEq, if_false, if_true] at changed bound ⊢
          split at changed <;> omega
        case order => exact invariant.order
        case begun =>
          intro earlier isStarted other changed isThere isQueued
          obtain ⟨original, isOriginal, rfl⟩ := getElem?_setPhase isThere
          split at isQueued
          next => cases isQueued
          next => exact invariant.begun earlier isStarted other original isOriginal isQueued
        case known =>
          intro earlier isStarted
          simpa [WorkerState.setPhase] using invariant.known earlier isStarted
        case open? =>
          intro _ changed listed
          obtain isPhase | ⟨original, isOriginal, rfl⟩ := mem_setPhase listed
          · rw [isPhase]
            decide
          · exact invariant.open? loopOpen changed isOriginal
      next => cases taken
    next => cases taken
  | close =>
    cases taken
    exact invariant.close
  | closeLoop =>
    cases taken
    constructor
    case pending => exact invariant.pending
    case running => exact invariant.running
    case impatient => exact invariant.impatient
    case order => exact invariant.order
    case begun => exact invariant.begun
    case known => exact invariant.known
    case open? => exact fun closed => by cases closed

theorem workerInv_of_reachable (reachable : (worker maxPending).Reachable s) : WorkerInv maxPending s := by
  apply Machine.invariant (WorkerInv maxPending) _ _ reachable
  · intro state start
    cases start
    constructor <;> simp [total]
  · intro state action next invariant _ taken
    exact workerStep_keeps invariant taken

/-! ## Admission -/

/-- Whatever is submitted, cancelled and closed while jobs run: `_pending` is the number of jobs that are not counted
off, at most one of them runs, calls begin in the order of admission and each at most once, and callers that do not
wait have no more than `max_pending` jobs among them. -/
theorem worker_bounded (reachable : (worker maxPending).Reachable s) :
    s.pending = total Job.unreleased s.jobs ∧ total Job.runs s.jobs ≤ 1 ∧ s.started.Pairwise (· < ·) ∧
      total Job.unreleasedImpatient s.jobs ≤ maxPending ∧ ((∀ entry ∈ s.jobs, entry.wait = false) → s.pending ≤ maxPending) := by
  have invariant := workerInv_of_reachable reachable
  refine ⟨invariant.pending, invariant.running, invariant.order, invariant.impatient, fun impatient => ?_⟩
  have same : total Job.unreleased s.jobs ≤ total Job.unreleasedImpatient s.jobs := by
    apply total_le_total
    intro entry listed
    rw [Job.unreleasedImpatient, impatient entry listed]
    simp
  have bound := invariant.impatient
  have pending := invariant.pending
  omega

/-! ## The queue drains -/

/-- A step of the thread, or a callback of the loop. -/
def WorkerAction.isInternal : WorkerAction → Bool
  | .start | .finish | .release _ => true
  | .run _ | .cancel _ | .close | .closeLoop => false

/-- A job that waits in the queue goes on waiting or begins. -/
structure Proceeds (s s' : WorkerState) : Prop where
  loopOpen : s'.loopOpen = true
  started : s.started ⊆ s'.started
  queued : ∀ job entry, s.jobs[job]? = some entry → entry.isQueued = true →
    (∃ later, s'.jobs[job]? = some later ∧ later.isQueued = true) ∨ job ∈ s'.started

theorem Proceeds.refl (loopOpen : s.loopOpen = true) : Proceeds s s where
  loopOpen := loopOpen
  started := List.Subset.refl _
  queued _ entry found isQueued := .inl ⟨entry, found, isQueued⟩

theorem Proceeds.trans {between : WorkerState} (first : Proceeds s between) (second : Proceeds between s') : Proceeds s s' where
  loopOpen := second.loopOpen
  started := List.Subset.trans first.started second.started
  queued job entry found isQueued := by
    obtain ⟨later, isLater, waits⟩ | begun := first.queued job entry found isQueued
    · exact second.queued job later isLater waits
    · exact .inr (second.started begun)

theorem work_setPhase (found : s.jobs[job]? = some entry) (less : Job.work { entry with phase } < entry.work) :
    total Job.work (s.setPhase job phase).jobs < total Job.work s.jobs := by
  have changed := @total_setPhase s job entry phase Job.work found
  omega

/-- Another job than the changed one stays as it is. -/
theorem queued_setPhase {other : Nat} {waiting : Job} (different : job ≠ other) (found : s.jobs[other]? = some waiting) :
    (s.setPhase job phase).jobs[other]? = some waiting := by
  rw [WorkerState.setPhase, List.getElem?_modify, found]
  simp [different]

/-- As long as something is to be done, the thread or the loop can do it. -/
theorem exists_internal (loopOpen : s.loopOpen = true) (busy : 0 < total Job.work s.jobs) :
    ∃ action next, action.isInternal = true ∧ workerStep maxPending s action = some next ∧
      total Job.work next.jobs < total Job.work s.jobs ∧ Proceeds s next := by
  have ended : s.ended = .releasing := by rw [WorkerState.ended, if_pos loopOpen]
  cases running : s.jobs.findIdx? Job.isRunning with
  | some job =>
    obtain ⟨entry, isEntry, isRunning, -⟩ := findIdx?_phase running
    have runs : entry.phase = .running := by simpa [Job.isRunning] using isRunning
    refine ⟨.finish, s.setPhase job s.ended, rfl, by simp only [workerStep, running], work_setPhase isEntry ?_, ?_⟩
    · simp [Job.work, runs, ended]
    · refine ⟨loopOpen, List.Subset.refl _, fun other waiting found isQueued => ?_⟩
      have different : job ≠ other := by
        rintro rfl
        obtain rfl := Option.some.inj (isEntry.symm.trans found)
        simp [Job.isQueued, runs] at isQueued
      exact .inl ⟨waiting, queued_setPhase different found, isQueued⟩
  | none =>
    have idle : s.jobs.any Job.isRunning = false := by simpa using running
    cases first : s.jobs.findIdx? Job.isQueued with
    | some job =>
      obtain ⟨entry, isEntry, isQueued, -⟩ := findIdx?_phase first
      have queued : entry.phase = .queued := by simpa [Job.isQueued] using isQueued
      refine ⟨.start, { s.setPhase job .running with started := s.started ++ [job] }, rfl, by simp [workerStep, idle, first],
        work_setPhase isEntry (by simp [Job.work, queued]), loopOpen, List.subset_append_left _ _, fun other waiting found waits => ?_⟩
      by_cases same : job = other
      · exact .inr (by simp [same])
      · exact .inl ⟨waiting, queued_setPhase same found, waits⟩
    | none =>
      -- What is left to do is done by callbacks of the loop.
      obtain ⟨job, entry, isEntry, works⟩ := exists_of_total_pos Job.work busy
      have listed := List.mem_of_getElem? isEntry
      have notRunning := List.any_eq_false.mp idle entry listed
      have notQueued := List.findIdx?_eq_none_iff.mp first entry listed
      have releasing : entry = ⟨entry.wait, .releasing⟩ := by
        obtain ⟨wait, phase⟩ := entry
        cases phase <;> simp_all [Job.work, Job.isRunning, Job.isQueued]
      rw [releasing] at isEntry
      refine ⟨.release job, { s.setPhase job .released with pending := s.pending - 1 }, rfl, by simp [workerStep, isEntry, loopOpen],
        work_setPhase isEntry (by simp [Job.work]), loopOpen, List.Subset.refl _, fun other waiting found waits => ?_⟩
      have queuedToo := List.findIdx?_eq_none_iff.mp first waiting (List.mem_of_getElem? found)
      rw [waits] at queuedToo
      cases queuedToo

/-- From every state with an open loop the thread and the loop alone get everything done: each job in the queue begins,
and the worker is free again. -/
theorem worker_drains (reachable : (worker maxPending).Reachable s) (loopOpen : s.loopOpen = true) :
    ∃ actions finish, (∀ action ∈ actions, WorkerAction.isInternal action = true) ∧ (worker maxPending).run s actions = some finish ∧
      finish.pending = 0 ∧ ∀ job entry, s.jobs[job]? = some entry → entry.isQueued = true → job ∈ finish.started := by
  have general : ∀ work state, total Job.work state.jobs = work → WorkerInv maxPending state → state.loopOpen = true →
      ∃ actions finish, (∀ action ∈ actions, WorkerAction.isInternal action = true) ∧ (worker maxPending).run state actions = some finish ∧
        WorkerInv maxPending finish ∧ total Job.work finish.jobs = 0 ∧ Proceeds state finish := by
    intro work
    induction work using Nat.strong_induction_on with
    | _ work inductionHypothesis =>
      intro state isWork invariant isOpen
      by_cases busy : 0 < total Job.work state.jobs
      · obtain ⟨action, next, isInternal, taken, less, proceeds⟩ := @exists_internal maxPending state isOpen busy
        obtain ⟨actions, finish, areInternal, ran, isFinal, done, onward⟩ :=
          inductionHypothesis _ (isWork ▸ less) next rfl (workerStep_keeps invariant taken) proceeds.loopOpen
        refine ⟨action :: actions, finish, List.forall_mem_cons.mpr ⟨isInternal, areInternal⟩, ?_, isFinal, done, proceeds.trans onward⟩
        have step : (worker maxPending).step state action = some next := taken
        simp only [Machine.run, step, ran]
      · exact ⟨[], state, List.forall_mem_nil _, rfl, invariant, by omega, .refl isOpen⟩
  obtain ⟨actions, finish, areInternal, ran, invariant, done, proceeds⟩ := general _ s rfl (workerInv_of_reachable reachable) loopOpen
  have idle {entry : Job} (listed : entry ∈ finish.jobs) : entry.phase = .released := by
    obtain ⟨job, isEntry⟩ := List.getElem?_of_mem listed
    have none := weight_le_total Job.work isEntry
    have notLost := invariant.open? proceeds.loopOpen entry listed
    obtain ⟨wait, phase⟩ := entry
    cases phase <;> simp_all [Job.work]
  refine ⟨actions, finish, areInternal, ran, ?_, fun job entry found isQueued => ?_⟩
  · have nothing : total Job.unreleased finish.jobs = 0 := by
      apply total_eq_zero
      intro entry listed
      rw [Job.unreleased, if_pos (idle listed)]
    rw [invariant.pending, nothing]
    rfl
  · obtain ⟨later, isLater, waits⟩ | begun := proceeds.queued job entry found isQueued
    · rw [Job.isQueued, idle (List.mem_of_getElem? isLater)] at waits
      cases waits
    · exact begun

/-- The first job runs, the second is cancelled in the queue, and the third waits beyond the limit. -/
def busyRun : List WorkerAction := [.run false, .run false, .run false, .run true, .start, .cancel 1, .release 1]

theorem busyRun_reachable : (worker 2).Reachable ⟨2, [⟨false, .running⟩, ⟨false, .released⟩, ⟨true, .queued⟩], true, true, [0]⟩ :=
  Machine.reachable_of_run (.init rfl) (by decide : (worker 2).run ⟨0, [], true, true, []⟩ busyRun = _)

theorem worker_bounded_busy : total Job.unreleasedImpatient [⟨false, .running⟩, ⟨false, .released⟩, ⟨true, .queued⟩] ≤ 2 :=
  (worker_bounded busyRun_reachable).2.2.2.1

theorem worker_drains_busy : ∃ actions finish,
    (worker 2).run ⟨2, [⟨false, .running⟩, ⟨false, .released⟩, ⟨true, .queued⟩], true, true, [0]⟩ actions = some finish ∧
      finish.pending = 0 ∧ 2 ∈ finish.started := by
  obtain ⟨actions, finish, -, ran, free, begun⟩ := worker_drains busyRun_reachable rfl
  exact ⟨actions, finish, ran, free, begun 2 ⟨true, .queued⟩ rfl rfl⟩

end

end Oveo.Server
