import Oveo.Store.Accounts

/-! # The throttle of one account

What `authenticate_user` does to the counters of an account, attempt after attempt.  A failure window
opens with a failed check and goes on with the failed checks that neither come too late for it nor
follow a successful one. -/

namespace Oveo.Login

open Oveo.Store

/-- The login settings, with the bounds `config.py` puts on them. -/
structure LoginSettings where
  loginAttempts : Nat
  loginWindowSeconds : Nat
  loginLockSeconds : Nat
  attempts_pos : 2 ≤ loginAttempts
  window_pos : 60 ≤ loginWindowSeconds
  lock_pos : 60 ≤ loginLockSeconds

/-- A time is a number of microseconds. -/
def seconds (count : Nat) : Nat := 1000000 * count

/-- `current_time < locked_until`. -/
def isLocked (counters : LoginCounters) (currentTime : Nat) : Bool :=
  counters.loginLockedUntil.any fun lockedUntil => decide (currentTime < lockedUntil)

section

variable (settings : LoginSettings)

/-- `window_expired`. -/
def windowExpired (counters : LoginCounters) (currentTime : Nat) : Bool :=
  counters.loginWindowStartedAt.all fun started => decide (started + seconds settings.loginWindowSeconds ≤ currentTime)

/-- The counters after a failed password check. -/
def recordFailure (counters : LoginCounters) (currentTime : Nat) : LoginCounters :=
  let counters :=
    if windowExpired settings counters currentTime then
      { counters with loginWindowStartedAt := some currentTime, failedLoginCount := 1 }
    else { counters with failedLoginCount := counters.failedLoginCount + 1 }
  if settings.loginAttempts ≤ counters.failedLoginCount then
    { counters with loginLockedUntil := some (currentTime + seconds settings.loginLockSeconds) }
  else counters

/-- The counters after a successful one. -/
def resetCounters : LoginCounters :=
  { failedLoginCount := 0, loginWindowStartedAt := none, loginLockedUntil := none }

/-- A password check that was performed. -/
structure Check where
  currentTime : Nat
  matched : Bool
deriving DecidableEq, Repr

def applyCheck (counters : LoginCounters) (check : Check) : LoginCounters :=
  if check.matched then resetCounters else recordFailure settings counters check.currentTime

/-- The counters after one check after the other. -/
def replay (counters : LoginCounters) (checks : List Check) : LoginCounters := checks.foldl (applyCheck settings) counters

/-- None of these checks was performed while the account was locked. -/
def AllUnlocked (counters : LoginCounters) (checks : List Check) : Prop :=
  ∀ earlier check later, checks = earlier ++ check :: later → isLocked (replay settings counters earlier) check.currentTime = false

/-- A failure window: the failed check that opens it, and failed checks that go on with it. -/
def IsWindow (counters : LoginCounters) : List Check → Prop
  | [] => False
  | first :: rest =>
    first.matched = false ∧ windowExpired settings counters first.currentTime = true ∧
      ∀ earlier check later, rest = earlier ++ check :: later → check.matched = false ∧
        windowExpired settings (replay settings counters (first :: earlier)) check.currentTime = false

end

/-! ## Inside a window -/

section

variable {settings : LoginSettings} {counters : LoginCounters} {checks earlier later : List Check} {check : Check}

@[simp] theorem replay_nil : replay settings counters [] = counters := rfl

@[simp] theorem replay_append : replay settings counters (earlier ++ later) = replay settings (replay settings counters earlier) later :=
  List.foldl_append

theorem replay_cons : replay settings counters (check :: later) = replay settings (applyCheck settings counters check) later := rfl

theorem AllUnlocked.append_check (unlocked : AllUnlocked settings counters checks)
    (meets : isLocked (replay settings counters checks) check.currentTime = false) :
    AllUnlocked settings counters (checks ++ [check]) := by
  intro earlier other later split
  rcases List.eq_nil_or_concat later with rfl | ⟨later, last, rfl⟩
  · obtain ⟨rfl, rfl⟩ : checks = earlier ∧ check = other := by simpa using split
    exact meets
  · rw [List.concat_eq_append, ← List.cons_append, ← List.append_assoc] at split
    exact unlocked earlier other later (List.append_inj_left' split rfl)

theorem AllUnlocked.of_append {window : List Check} (unlocked : AllUnlocked settings counters (earlier ++ window ++ later)) :
    AllUnlocked settings (replay settings counters earlier) window := by
  intro before check after split
  rw [← replay_append]
  exact unlocked (earlier ++ before) check (after ++ later) (by simp [split])

/-- What a failed check counts, and whether it locks the account. -/
theorem recordFailure_count {currentTime : Nat} : (recordFailure settings counters currentTime).failedLoginCount =
    if windowExpired settings counters currentTime then 1 else counters.failedLoginCount + 1 := by
  simp only [recordFailure]
  split <;> split <;> rfl

theorem isLocked_recordFailure {currentTime : Nat} (unlocked : isLocked counters currentTime = false) :
    isLocked (recordFailure settings counters currentTime) currentTime = true ↔
      settings.loginAttempts ≤ (recordFailure settings counters currentTime).failedLoginCount := by
  have lock := settings.lock_pos
  have future : currentTime < currentTime + seconds settings.loginLockSeconds := by
    simp only [seconds]
    omega
  simp only [recordFailure]
  by_cases expired : windowExpired settings counters currentTime = true <;> simp only [expired, if_true, Bool.false_eq_true, if_false]
  all_goals
    split
    next reached => simpa [isLocked, future] using reached
    next few => simpa [isLocked, few] using unlocked

/-- A failed check of a window counts one more than the checks of the window before it. -/
theorem window_count {first : Check} {rest : List Check} (window : IsWindow settings counters (first :: rest)) :
    ∀ earlier later, rest = earlier ++ later →
      (replay settings counters (first :: earlier)).failedLoginCount = earlier.length + 1 := by
  obtain ⟨failed, opens, goesOn⟩ := window
  intro earlier
  induction earlier using List.reverseRecOn with
  | nil =>
    intro later _
    simp [replay_cons, applyCheck, failed, recordFailure_count, opens]
  | append_singleton earlier check inductionHypothesis =>
    intro later isRest
    have isRest : rest = earlier ++ check :: later := by simpa using isRest
    have before := inductionHypothesis (check :: later) isRest
    obtain ⟨alsoFailed, sameWindow⟩ := goesOn earlier check later isRest
    rw [← List.cons_append, replay_append, replay_cons, replay_nil, applyCheck, alsoFailed]
    simp only [Bool.false_eq_true, if_false, recordFailure_count, sameWindow, before, List.length_append,
      List.length_singleton]

theorem window_count_prefix {window : List Check} (isWindow : IsWindow settings counters window) {earlier later : List Check}
    (split : window = earlier ++ later) (nonempty : earlier ≠ []) :
    (replay settings counters earlier).failedLoginCount = earlier.length := by
  cases earlier with
  | nil => exact absurd rfl nonempty
  | cons first earlier =>
    subst split
    exact window_count isWindow earlier later rfl

theorem window_failed {window : List Check} (isWindow : IsWindow settings counters window) {earlier later : List Check}
    (split : window = earlier ++ check :: later) : check.matched = false := by
  cases earlier with
  | nil =>
    subst split
    exact isWindow.1
  | cons first earlier =>
    subst split
    exact (isWindow.2.2 earlier check later rfl).1

/-- A failed check of a window locks the account exactly from the `login_attempts`-th on. -/
theorem window_locks {window : List Check} (isWindow : IsWindow settings counters window)
    (unlocked : AllUnlocked settings counters window) {index : Nat} (found : window[index]? = some check) :
    isLocked (replay settings counters (window.take (index + 1))) check.currentTime = true ↔ settings.loginAttempts ≤ index + 1 := by
  obtain ⟨inside, isCheck⟩ := List.getElem?_eq_some_iff.mp found
  have upTo : window.take (index + 1) = window.take index ++ [check] := by
    rw [← List.take_append_getElem inside, isCheck]
  have split : window = window.take index ++ check :: window.drop (index + 1) := by
    rw [← isCheck, List.getElem_cons_drop, List.take_append_drop]
  have failed := window_failed isWindow split
  have wasUnlocked := unlocked _ _ _ split
  have after : replay settings counters (window.take (index + 1)) =
      recordFailure settings (replay settings counters (window.take index)) check.currentTime := by
    rw [upTo, replay_append, replay_cons, replay_nil, applyCheck, failed, if_neg Bool.false_ne_true]
  have count := window_count_prefix isWindow (List.take_append_drop (index + 1) window).symm (by rw [upTo]; simp)
  rw [List.length_take, Nat.min_eq_left (by omega), after] at count
  rw [after, isLocked_recordFailure wasUnlocked, count]

end

end Oveo.Login
