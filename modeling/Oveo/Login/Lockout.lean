import Oveo.Login.Guard

/-! # The lockout cannot be raced

All attempts under way refer to one lock object, the one `_accounts` has, because the dictionary
keeps an entry as long as an attempt refers to it.  So one attempt at a time is between reading and
writing the account, and the account is what one check after the other makes of it. -/

namespace Oveo.Login

open Oveo.Lib Oveo.Store

section

variable {settings : LoginSettings} {initial : Option LoginCounters} {s s' : GuardState} {phase phase' : AttemptPhase} {index : Nat}

/-! ## The lock -/

/-- 1 if the lock `_accounts` has is locked. -/
def GuardState.lockedCount (s : GuardState) : Nat :=
  match s.entry with
  | some lock => if s.locks[lock]? = some true then 1 else 0
  | none => 0

/-- 1 if the attempt refers to a lock. -/
def AttemptPhase.live (phase : AttemptPhase) : Nat := if phase.lock?.isSome then 1 else 0

/-- All attempts refer to the lock of `_accounts`, and it is locked for exactly one of them. -/
structure LockInv (s : GuardState) : Prop where
  entry : ∀ phase ∈ s.attempts, ∀ lock ∈ phase.lock?, s.entry = some lock
  known : ∀ lock ∈ s.entry, lock < s.locks.length
  locked : total AttemptPhase.holds s.attempts = s.lockedCount
  waiting : total AttemptPhase.live s.attempts = s.waiting

theorem lockedCount_le (s : GuardState) : s.lockedCount ≤ 1 := by
  unfold GuardState.lockedCount
  split
  · split <;> omega
  · omega

theorem holds_le_live (phase : AttemptPhase) : phase.holds ≤ phase.live := by
  cases phase <;> simp [AttemptPhase.holds, AttemptPhase.live, AttemptPhase.lock?]

/-- Who has the lock is the only one to have it. -/
theorem LockInv.sole (invariant : LockInv s) (found : s.attempts[index]? = some phase) (holds : phase.holds = 1)
    {other : AttemptPhase} (member : other ∈ s.attempts.set index phase') : other = phase' ∨ other.holds = 0 := by
  have bound := lockedCount_le s
  have sum := invariant.locked
  exact eq_or_weight_zero found (by omega) member

/-- An attempt that refers to the lock goes on referring to it, or gives it up. -/
theorem LockInv.entry_set (invariant : LockInv s) (phase' : AttemptPhase) (found : s.attempts[index]? = some phase)
    (lock : ∀ lock ∈ phase'.lock?, phase.lock? = some lock) {other : AttemptPhase} (member : other ∈ s.attempts.set index phase') :
    ∀ lock ∈ other.lock?, s.entry = some lock := by
  rcases List.mem_or_eq_of_mem_set member with old | rfl
  · exact invariant.entry other old
  · intro its isIts
    exact invariant.entry phase (List.mem_of_getElem? found) its (lock its isIts)

/-- An attempt moves on and keeps what it has. -/
theorem LockInv.move (invariant : LockInv s) (phase' : AttemptPhase) (found : s.attempts[index]? = some phase) (lock : phase'.lock? = phase.lock?)
    (holds : phase'.holds = phase.holds) : LockInv (s.setPhase index phase') := by
  constructor
  case entry => exact fun other member => invariant.entry_set phase' found (fun its isIts => lock ▸ isIts) member
  case known => exact invariant.known
  case locked =>
    have changed := total_set AttemptPhase.holds phase' found
    have sum := invariant.locked
    show total AttemptPhase.holds (s.attempts.set index phase') = s.lockedCount
    omega
  case waiting =>
    have changed := total_set AttemptPhase.live phase' found
    have sum := invariant.waiting
    have same : phase'.live = phase.live := by simp only [AttemptPhase.live, lock]
    show total AttemptPhase.live (s.attempts.set index phase') = s.waiting
    omega

/-- The account, the checks and the time do not matter to the lock. -/
theorem LockInv.of_account (invariant : LockInv s) (attempts : s'.attempts = s.attempts) (locks : s'.locks = s.locks)
    (entry : s'.entry = s.entry) (waiting : s'.waiting = s.waiting) : LockInv s' := by
  constructor
  case entry => rw [attempts, entry]; exact invariant.entry
  case known => rw [locks, entry]; exact invariant.known
  case locked =>
    have same : s'.lockedCount = s.lockedCount := by simp only [GuardState.lockedCount, entry, locks]
    rw [attempts, same]
    exact invariant.locked
  case waiting => rw [attempts, waiting]; exact invariant.waiting

theorem LockInv.enqueue (invariant : LockInv s) (found : s.attempts[index]? = some .arrived) : LockInv (s.enqueue index) := by
  have changedHolds (lock : Nat) := total_set AttemptPhase.holds (.queued lock) found
  have changedLive (lock : Nat) := total_set AttemptPhase.live (.queued lock) found
  simp only [AttemptPhase.holds, AttemptPhase.live, AttemptPhase.lock?, Option.isSome_some, if_true, Option.isSome_none,
    Bool.false_eq_true, if_false, Nat.add_zero] at changedHolds changedLive
  have locked := invariant.locked
  have waiting := invariant.waiting
  simp only [GuardState.enqueue]
  split
  next => exact invariant.move .finished found rfl rfl
  next =>
    split
    next lock entry =>
      constructor
      case entry =>
        intro other member its isIts
        rcases List.mem_or_eq_of_mem_set member with old | rfl
        · exact invariant.entry other old its isIts
        · cases isIts
          exact entry
      case known => exact invariant.known
      case locked => exact (changedHolds lock).trans locked
      case waiting => exact (changedLive lock).trans (by rw [← waiting])
    next entry =>
      -- Nobody refers to a lock that `_accounts` has forgotten.
      have idle : ∀ other ∈ s.attempts, other.lock? = none := by
        intro other member
        cases its : other.lock? with
        | none => rfl
        | some lock => exact absurd (invariant.entry other member lock its) (by simp [entry])
      have free : s.lockedCount = 0 := by simp [GuardState.lockedCount, entry]
      constructor
      case entry =>
        intro other member its isIts
        rcases List.mem_or_eq_of_mem_set member with old | rfl
        · rw [idle other old] at isIts
          cases isIts
        · exact isIts
      case known =>
        intro lock isEntry
        cases isEntry
        simp
      case locked =>
        refine (changedHolds s.locks.length).trans (locked.trans (free.trans ?_))
        simp [GuardState.lockedCount]
      case waiting => exact (changedLive s.locks.length).trans (by rw [← waiting])

theorem LockInv.acquire (invariant : LockInv s) {lock : Nat} (found : s.attempts[index]? = some (.queued lock))
    (free : s.locks[lock]? = some false) :
    LockInv { s.setPhase index (.entered lock) with locks := s.locks.set lock true } := by
  have entry := invariant.entry _ (List.mem_of_getElem? found) lock rfl
  have inside := invariant.known lock entry
  have changedHolds := total_set AttemptPhase.holds (.entered lock) found
  have changedLive := total_set AttemptPhase.live (.entered lock) found
  have locked := invariant.locked
  have before : s.lockedCount = 0 := by simp [GuardState.lockedCount, entry, free]
  constructor
  case entry => exact fun other member => invariant.entry_set (.entered lock) found (fun _ isIts => isIts) member
  case known =>
    intro its isEntry
    simpa using invariant.known its isEntry
  case locked =>
    have after : GuardState.lockedCount { s.setPhase index (.entered lock) with locks := s.locks.set lock true } = 1 := by
      simp [GuardState.lockedCount, GuardState.setPhase, entry, inside]
    rw [after]
    simp only [AttemptPhase.holds] at changedHolds
    simp only [GuardState.setPhase]
    omega
  case waiting => exact (Nat.add_right_cancel changedLive).trans invariant.waiting

theorem LockInv.leave (invariant : LockInv s) {lock : Nat} (found : s.attempts[index]? = some (.leaving lock)) :
    LockInv { s.setPhase index .finished with locks := s.locks.set lock false, waiting := s.waiting - 1 } := by
  have entry := invariant.entry _ (List.mem_of_getElem? found) lock rfl
  have inside := invariant.known lock entry
  have changedHolds := total_set AttemptPhase.holds .finished found
  have changedLive := total_set AttemptPhase.live .finished found
  have bound := lockedCount_le s
  have locked := invariant.locked
  have waiting := invariant.waiting
  simp only [AttemptPhase.holds, AttemptPhase.live, AttemptPhase.lock?, Option.isSome_some, if_true, Option.isSome_none,
    Bool.false_eq_true, if_false, Nat.add_zero] at changedHolds changedLive
  constructor
  case entry => exact fun other member => invariant.entry_set .finished found (fun _ isIts => nomatch isIts) member
  case known =>
    intro its isEntry
    simpa using invariant.known its isEntry
  case locked =>
    have after :
        GuardState.lockedCount { s.setPhase index .finished with locks := s.locks.set lock false, waiting := s.waiting - 1 } = 0 := by
      simp [GuardState.lockedCount, GuardState.setPhase, entry, inside]
    rw [after]
    simp only [GuardState.setPhase]
    omega
  case waiting =>
    simp only [GuardState.setPhase]
    omega

theorem LockInv.forget (invariant : LockInv s) {lock : Nat} (entry : s.entry = some lock)
    (unreferenced : ∀ phase ∈ s.attempts, phase.lock? ≠ some lock) : LockInv { s with entry := none } := by
  have idle : ∀ phase ∈ s.attempts, phase.lock? = none := by
    intro phase member
    cases its : phase.lock? with
    | none => rfl
    | some other =>
      have same := (invariant.entry phase member other its).symm.trans entry
      cases same
      exact absurd its (unreferenced phase member)
  have dead : total AttemptPhase.live s.attempts = 0 :=
    total_eq_zero fun phase member => by simp [AttemptPhase.live, idle phase member]
  constructor
  case entry =>
    intro phase member its isIts
    rw [idle phase member] at isIts
    cases isIts
  case known => exact fun _ isEntry => nomatch isEntry
  case locked =>
    have bound : total AttemptPhase.holds s.attempts ≤ total AttemptPhase.live s.attempts :=
      total_le_total fun phase _ => holds_le_live phase
    show total AttemptPhase.holds s.attempts = 0
    omega
  case waiting => exact invariant.waiting

theorem LockInv.arrive (invariant : LockInv s) : LockInv { s with attempts := s.attempts ++ [.arrived] } := by
  have locked := invariant.locked
  have waiting := invariant.waiting
  constructor
  case entry =>
    intro phase member
    rcases List.mem_append.mp member with old | new
    · exact invariant.entry phase old
    · rw [List.mem_singleton.mp new]
      exact fun _ isIts => nomatch isIts
  case known => exact invariant.known
  case locked =>
    rw [total_append]
    exact locked
  case waiting => simpa [AttemptPhase.live, AttemptPhase.lock?] using waiting

/-! ## The account -/

/-- What an attempt that has the lock knows. -/
def Knows (settings : LoginSettings) (initial : Option LoginCounters) (s : GuardState) : AttemptPhase → Prop
  | .timed _ currentTime => currentTime ≤ s.now
  | .checking _ currentTime counters => currentTime ≤ s.now ∧ s.stored = some counters ∧ isLocked counters currentTime = false
  | .checked _ currentTime counters matched =>
    s.stored = some counters ∧ ∃ before, s.checks = before ++ [⟨currentTime, matched⟩] ∧
      s.stored = initial.map fun counters => replay settings counters before
  | _ => True

/-- The account is what one check after the other makes of it, but for a check that is not written yet. -/
structure AccountInv (settings : LoginSettings) (initial : Option LoginCounters) (s : GuardState) : Prop where
  known : ∀ phase ∈ s.attempts, Knows settings initial s phase
  stored : (∀ phase ∈ s.attempts, phase.isUnwritten = false) →
    s.stored = initial.map fun counters => replay settings counters s.checks
  unlocked : ∀ counters ∈ initial, AllUnlocked settings counters s.checks

theorem knows_of_idle (idle : phase.holds = 0) : Knows settings initial s phase := by
  cases phase <;> first | exact trivial | cases idle

theorem written_of_idle (idle : phase.holds = 0) : phase.isUnwritten = false := by
  cases phase <;> first | rfl | cases idle

/-- Time may pass. -/
theorem Knows.mono (knows : Knows settings initial s phase) (now : s.now ≤ s'.now) (stored : s'.stored = s.stored)
    (checks : s'.checks = s.checks) : Knows settings initial s' phase := by
  cases phase with
  | timed _ _ => exact Nat.le_trans knows now
  | checking _ _ _ =>
    obtain ⟨past, isStored, unlocked⟩ := knows
    exact ⟨Nat.le_trans past now, stored.trans isStored, unlocked⟩
  | checked _ _ _ _ =>
    obtain ⟨isStored, before, isLast, replayed⟩ := knows
    exact ⟨stored.trans isStored, before, checks.trans isLast, stored.trans replayed⟩
  | _ => trivial

theorem isUnwritten_of_moved (found : s.attempts[index]? = some phase) (written : phase.isUnwritten = false)
    (others : ∀ other ∈ s.attempts.set index phase', other.isUnwritten = false) : ∀ other ∈ s.attempts, other.isUnwritten = false := by
  intro other member
  obtain ⟨place, isThere⟩ := List.getElem?_of_mem member
  by_cases same : place = index
  · subst same
    cases isThere.symm.trans found
    exact written
  · exact others other (List.mem_of_getElem? (by rw [List.getElem?_set_ne (Ne.symm same)]; exact isThere))

/-- A step that neither checks a password nor writes the account. -/
theorem AccountInv.move (invariant : AccountInv settings initial s) (found : s.attempts[index]? = some phase)
    (written : phase.isUnwritten = false) (attempts : s'.attempts = s.attempts.set index phase') (now : s'.now = s.now)
    (stored : s'.stored = s.stored) (checks : s'.checks = s.checks) (knows : Knows settings initial s phase') :
    AccountInv settings initial s' := by
  constructor
  case known =>
    intro other member
    rw [attempts] at member
    refine Knows.mono ?_ (Nat.le_of_eq now.symm) stored checks
    rcases List.mem_or_eq_of_mem_set member with old | rfl
    · exact invariant.known other old
    · exact knows
  case stored =>
    intro others
    rw [attempts] at others
    rw [stored, checks]
    exact invariant.stored (isUnwritten_of_moved found written others)
  case unlocked =>
    rw [checks]
    exact invariant.unlocked

/-- Before it is checked, the password of an attempt that has the lock meets an account that is not locked. -/
theorem AccountInv.verified (invariant : AccountInv settings initial s) (lock : LockInv s) {its currentTime : Nat}
    {counters : LoginCounters} {matched : Bool} (found : s.attempts[index]? = some (.checking its currentTime counters)) :
    AccountInv settings initial
      { s.setPhase index (.checked its currentTime counters matched) with checks := s.checks ++ [⟨currentTime, matched⟩] } := by
  obtain ⟨past, isStored, unlocked⟩ := invariant.known _ (List.mem_of_getElem? found)
  have replayed : s.stored = initial.map fun counters => replay settings counters s.checks := by
    refine invariant.stored (@isUnwritten_of_moved _ _ .finished _ found rfl fun other member => ?_)
    rcases lock.sole found rfl member with rfl | idle
    · rfl
    · exact written_of_idle idle
  constructor
  case known =>
    intro other member
    rcases lock.sole found rfl member with rfl | idle
    · exact ⟨isStored, s.checks, rfl, replayed⟩
    · exact knows_of_idle idle
  case stored =>
    intro others
    exact absurd (others _ (List.mem_set (List.getElem?_eq_some_iff.mp found).1 _)) (by simp [AttemptPhase.isUnwritten])
  case unlocked =>
    intro first isInitial
    have isReplayed : counters = replay settings first s.checks := by
      cases isInitial
      exact Option.some.inj (isStored.symm.trans replayed)
    exact (invariant.unlocked first isInitial).append_check (isReplayed ▸ unlocked)

theorem AccountInv.write (invariant : AccountInv settings initial s) (lock : LockInv s) {its currentTime : Nat}
    {counters : LoginCounters} {matched : Bool} (found : s.attempts[index]? = some (.checked its currentTime counters matched)) :
    AccountInv settings initial
      { s.setPhase index (.leaving its) with stored := some (applyCheck settings counters ⟨currentTime, matched⟩) } := by
  obtain ⟨isStored, before, isLast, replayed⟩ := invariant.known _ (List.mem_of_getElem? found)
  constructor
  case known =>
    intro other member
    rcases lock.sole found rfl member with rfl | idle
    · trivial
    · exact knows_of_idle idle
  case stored =>
    intro _
    show some (applyCheck settings counters ⟨currentTime, matched⟩) = initial.map fun counters => replay settings counters s.checks
    rw [isStored] at replayed
    obtain ⟨first, isInitial, rfl⟩ := Option.map_eq_some_iff.mp replayed.symm
    rw [isLast, isInitial, Option.map_some, replay_append]
    rfl
  case unlocked => exact invariant.unlocked

/-! ## All steps -/

structure GuardInv (settings : LoginSettings) (initial : Option LoginCounters) (s : GuardState) : Prop where
  lock : LockInv s
  account : AccountInv settings initial s

theorem guardInv_init (start : (guardMachine settings initial).init s) : GuardInv settings initial s := by
  obtain ⟨isInitial, noLocks, noEntry, noneWait, noAttempts, noChecks⟩ := start
  refine ⟨?_, ?_⟩
  · constructor <;> simp [noEntry, noneWait, noAttempts, GuardState.lockedCount]
  · constructor
    case known => simp [noAttempts]
    case stored =>
      intro _
      rw [isInitial, noChecks]
      cases initial <;> rfl
    case unlocked =>
      intro counters _ earlier check later split
      rw [noChecks] at split
      exact absurd split (by simp)

/-- One attempt moves on, with what it refers to and has. -/
theorem GuardInv.move (invariant : GuardInv settings initial s) (found : s.attempts[index]? = some phase)
    (lock : phase'.lock? = phase.lock?) (holds : phase'.holds = phase.holds) (written : phase.isUnwritten = false)
    (knows : Knows settings initial s phase') : GuardInv settings initial (s.setPhase index phase') :=
  ⟨invariant.lock.move phase' found lock holds, invariant.account.move found written rfl rfl rfl rfl knows⟩

theorem GuardInv.enqueue (invariant : GuardInv settings initial s) (found : s.attempts[index]? = some .arrived) :
    GuardInv settings initial (s.enqueue index) := by
  refine ⟨invariant.lock.enqueue found, ?_⟩
  simp only [GuardState.enqueue]
  split
  next => exact invariant.account.move found rfl rfl rfl rfl rfl trivial
  next => split <;> exact invariant.account.move found rfl rfl rfl rfl rfl trivial

theorem GuardInv.advance (invariant : GuardInv settings initial s) {event : AttemptEvent}
    (found : s.attempts[index]? = some phase) (taken : s.advance settings index phase event = some s') :
    GuardInv settings initial s' := by
  have knows := invariant.account.known phase (List.mem_of_getElem? found)
  cases phase with
  | arrived =>
    cases event <;> cases taken
    case proceed.refl => exact invariant.enqueue found
    case throttled.refl => exact invariant.move found rfl rfl rfl trivial
  | queued lock =>
    cases event <;> simp only [GuardState.advance, Option.ite_none_right_eq_some, reduceCtorEq] at taken
    obtain ⟨free, taken⟩ := taken
    cases taken
    exact ⟨invariant.lock.acquire found free, invariant.account.move found rfl rfl rfl rfl rfl trivial⟩
  | entered lock =>
    cases event <;> cases taken
    exact invariant.move found rfl rfl rfl (Nat.le_refl _)
  | timed lock currentTime =>
    cases event <;> simp only [GuardState.advance, reduceCtorEq] at taken
    split at taken
    next =>
      cases taken
      exact invariant.move found rfl rfl rfl trivial
    next counters isStored =>
      split at taken
      next =>
        cases taken
        exact invariant.move found rfl rfl rfl trivial
      next unlocked =>
        cases taken
        exact invariant.move found rfl rfl rfl ⟨knows, isStored, Bool.eq_false_iff.mpr unlocked⟩
  | checkingDummy lock =>
    cases event <;> cases taken
    all_goals exact invariant.move found rfl rfl rfl trivial
  | checking lock currentTime counters =>
    cases event <;> cases taken
    case verified.refl matched =>
      exact ⟨(invariant.lock.move (.checked lock currentTime counters matched) found rfl rfl).of_account rfl rfl rfl rfl, invariant.account.verified invariant.lock found⟩
    case busy.refl => exact invariant.move found rfl rfl rfl trivial
  | checked lock currentTime counters matched =>
    cases event <;> cases taken
    exact ⟨(invariant.lock.move (.leaving lock) found rfl rfl).of_account rfl rfl rfl rfl, invariant.account.write invariant.lock found⟩
  | leaving lock =>
    cases event <;> cases taken
    exact ⟨invariant.lock.leave found, invariant.account.move found rfl rfl rfl rfl rfl trivial⟩
  | finished => cases event <;> cases taken

theorem GuardInv.step (invariant : GuardInv settings initial s) {action : GuardAction}
    (taken : guardStep settings s action = some s') : GuardInv settings initial s' := by
  cases action with
  | arrive =>
    cases taken
    refine ⟨invariant.lock.arrive, ?_⟩
    constructor
    case known =>
      intro phase member
      rcases List.mem_append.mp member with old | new
      · exact (invariant.account.known phase old).mono (Nat.le_refl _) rfl rfl
      · rw [List.mem_singleton.mp new]
        trivial
    case stored => exact fun others => invariant.account.stored fun phase member => others phase (List.mem_append_left _ member)
    case unlocked => exact invariant.account.unlocked
  | attempt index event =>
    simp only [guardStep, Option.bind_eq_bind, Option.bind_eq_some_iff] at taken
    obtain ⟨phase, found, taken⟩ := taken
    exact invariant.advance found taken
  | forget =>
    simp only [guardStep] at taken
    split at taken
    next lock entry =>
      simp only [Option.ite_none_right_eq_some, List.all_eq_true, bne_iff_ne] at taken
      obtain ⟨unreferenced, taken⟩ := taken
      cases taken
      refine ⟨invariant.lock.forget entry unreferenced, ⟨?_, invariant.account.stored, invariant.account.unlocked⟩⟩
      exact fun phase member => (invariant.account.known phase member).mono (Nat.le_refl _) rfl rfl
    next => cases taken
  | tick now =>
    simp only [guardStep, Option.ite_none_right_eq_some] at taken
    obtain ⟨later, taken⟩ := taken
    cases taken
    refine ⟨invariant.lock.of_account rfl rfl rfl rfl, ⟨?_, invariant.account.stored, invariant.account.unlocked⟩⟩
    exact fun phase member => (invariant.account.known phase member).mono later rfl rfl

theorem reachable_guardInv (reachable : (guardMachine settings initial).Reachable s) : GuardInv settings initial s :=
  Machine.invariant (GuardInv settings initial) (fun _ => guardInv_init) (fun _ _ _ invariant _ taken => invariant.step taken) reachable

/-! ## The lockout -/

/-- What the lockout promises of a state. -/
structure LockoutHolds (settings : LoginSettings) (initial : Option LoginCounters) (s : GuardState) : Prop where
  /-- At most one attempt is between reading and writing the account. -/
  exclusive : (s.attempts.filter AttemptPhase.isBetween).length ≤ 1
  /-- No password is checked while the stored account is locked. -/
  unlocked : ∀ phase ∈ s.attempts, phase.isChecking = true →
    ∃ counters, s.stored = some counters ∧ isLocked counters s.now = false
  /-- No check is lost, and none was performed on a locked account. -/
  replayed : ∀ counters ∈ initial, AllUnlocked settings counters s.checks ∧
    ((∀ phase ∈ s.attempts, phase.isUnwritten = false) → s.stored = some (replay settings counters s.checks))
  /-- A failed check of a window locks the account exactly from the `login_attempts`-th on. -/
  window : ∀ counters ∈ initial, ∀ earlier window later, s.checks = earlier ++ window ++ later →
    IsWindow settings (replay settings counters earlier) window → ∀ index check, window[index]? = some check →
      (isLocked (replay settings counters (earlier ++ window.take (index + 1))) check.currentTime = true ↔
        settings.loginAttempts ≤ index + 1)

theorem isBetween_holds (phase : AttemptPhase) : (if phase.isBetween = true then 1 else 0) ≤ phase.holds := by
  cases phase <;> simp [AttemptPhase.isBetween, AttemptPhase.holds]

theorem length_between_le (attempts : List AttemptPhase) :
    (attempts.filter AttemptPhase.isBetween).length ≤ total AttemptPhase.holds attempts := by
  have counted : (attempts.filter AttemptPhase.isBetween).length =
      total (fun phase => if phase.isBetween = true then 1 else 0) attempts := by
    rw [← List.countP_eq_length_filter]
    induction attempts with
    | nil => rfl
    | cons phase attempts inductionHypothesis =>
      rw [List.countP_cons, total_cons, inductionHypothesis, Nat.add_comm]
  rw [counted]
  exact total_le_total fun phase _ => isBetween_holds phase

theorem isLocked_mono {counters : LoginCounters} {time later : Nat} (unlocked : isLocked counters time = false) (past : time ≤ later) :
    isLocked counters later = false := by
  cases until_ : counters.loginLockedUntil with
  | none => simp [isLocked, until_]
  | some lockedUntil =>
    simp only [isLocked, until_, Option.any_some, decide_eq_false_iff_not, Nat.not_lt] at unlocked ⊢
    omega

end

/-- Two attempts meet on one lock and fail, which locks the account at the second; the lock is
forgotten, and a third attempt makes a new one and is turned away. -/
def twoFailures : List GuardAction :=
  [.arrive, .arrive, .attempt 0 .proceed, .attempt 1 .proceed, .attempt 0 .proceed, .attempt 0 .proceed, .attempt 0 .proceed,
    .attempt 0 (.verified false), .attempt 0 .proceed, .attempt 0 .proceed, .tick 1, .attempt 1 .proceed, .attempt 1 .proceed,
    .attempt 1 .proceed, .attempt 1 (.verified false), .attempt 1 .proceed, .attempt 1 .proceed, .forget, .arrive,
    .attempt 2 .proceed, .attempt 2 .proceed, .attempt 2 .proceed, .attempt 2 .proceed]

/-- The least the settings allow. -/
def strictSettings : LoginSettings where
  loginAttempts := 2
  loginWindowSeconds := 60
  loginLockSeconds := 60
  attempts_pos := by decide
  window_pos := by decide
  lock_pos := by decide

def emptyGuard (initial : Option LoginCounters) : GuardState :=
  { now := 0, stored := initial, locks := [], entry := none, waiting := 0, attempts := [], checks := [] }

end Oveo.Login
