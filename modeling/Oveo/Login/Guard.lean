import Oveo.Lib.Machine
import Oveo.Lib.Totals
import Oveo.Login.Throttle

/-! # Sign-in attempts against one account

Any number of `login` requests with one user name go through `LoginGuard.account` and
`authenticate_user` at the same time.  `_accounts` is a weak dictionary: it may forget the lock of
the account as soon as no attempt has a reference to it, and an attempt that finds none makes a new
one.  Each attempt runs to its end. -/

namespace Oveo.Login

open Oveo.Lib Oveo.Store

/-- `_MAX_WAITING_PER_ACCOUNT`. -/
def maxWaitingPerAccount : Nat := 3

/-- Where an attempt is.  From `queued` on it has a reference to its lock. -/
inductive AttemptPhase where
  | arrived
  | queued (lock : Nat)
  /-- It has the lock. -/
  | entered (lock : Nat)
  /-- It has read the time. -/
  | timed (lock currentTime : Nat)
  /-- No account has this name; a password is checked all the same. -/
  | checkingDummy (lock : Nat)
  /-- It has read the account, and its password is being checked. -/
  | checking (lock currentTime : Nat) (counters : LoginCounters)
  /-- The check is done, and the account not written yet. -/
  | checked (lock currentTime : Nat) (counters : LoginCounters) (matched : Bool)
  /-- Its session is committed. -/
  | leaving (lock : Nat)
  | finished
deriving DecidableEq, Repr

inductive AttemptEvent where
  | proceed
  /-- `retry_after` refuses its client. -/
  | throttled
  /-- The password check is done. -/
  | verified (matched : Bool)
  /-- The worker refuses the check. -/
  | busy
deriving DecidableEq, Repr

structure GuardState where
  now : Nat
  /-- The counters of the account, if there is one. -/
  stored : Option LoginCounters
  /-- The lock objects made so far, and whether each is locked. -/
  locks : List Bool
  /-- What `_accounts` has for the account. -/
  entry : Option Nat
  /-- `_waiting` of the account. -/
  waiting : Nat
  attempts : List AttemptPhase
  /-- History only: the password checks of the account, in order. -/
  checks : List Check
deriving DecidableEq, Repr

inductive GuardAction where
  | arrive
  | attempt (index : Nat) (event : AttemptEvent)
  /-- `_accounts` forgets a lock nobody refers to. -/
  | forget
  /-- Time passes. -/
  | tick (now : Nat)
deriving DecidableEq, Repr

/-- The lock an attempt refers to. -/
def AttemptPhase.lock? : AttemptPhase → Option Nat
  | .queued lock | .entered lock | .timed lock _ | .checkingDummy lock | .checking lock _ _ | .checked lock _ _ _
  | .leaving lock => some lock
  | .arrived | .finished => none

def GuardState.setPhase (s : GuardState) (index : Nat) (phase : AttemptPhase) : GuardState :=
  { s with attempts := s.attempts.set index phase }

/-- The first lines of `account`: too many wait, or the attempt gets the lock of the account. -/
def GuardState.enqueue (s : GuardState) (index : Nat) : GuardState :=
  if maxWaitingPerAccount ≤ s.waiting then s.setPhase index .finished
  else
    match s.entry with
    | some lock => { s.setPhase index (.queued lock) with waiting := s.waiting + 1 }
    | none =>
      { s.setPhase index (.queued s.locks.length) with
        locks := s.locks ++ [false], entry := some s.locks.length, waiting := s.waiting + 1 }

section

variable (settings : LoginSettings)

/-- The next step of one attempt. -/
def GuardState.advance (s : GuardState) (index : Nat) (phase : AttemptPhase) (event : AttemptEvent) : Option GuardState :=
  match phase, event with
  | .arrived, .throttled => some (s.setPhase index .finished)
  | .arrived, .proceed => some (s.enqueue index)
  | .queued lock, .proceed =>
    if s.locks[lock]? = some false then some { s.setPhase index (.entered lock) with locks := s.locks.set lock true } else none
  | .entered lock, .proceed => some (s.setPhase index (.timed lock s.now))
  | .timed lock currentTime, .proceed =>
    match s.stored with
    | none => some (s.setPhase index (.checkingDummy lock))
    | some counters =>
      if isLocked counters currentTime then some (s.setPhase index (.leaving lock))
      else some (s.setPhase index (.checking lock currentTime counters))
  | .checkingDummy lock, .verified _ | .checkingDummy lock, .busy => some (s.setPhase index (.leaving lock))
  | .checking lock currentTime counters, .verified matched =>
    some { s.setPhase index (.checked lock currentTime counters matched) with checks := s.checks ++ [⟨currentTime, matched⟩] }
  | .checking lock _ _, .busy => some (s.setPhase index (.leaving lock))
  | .checked lock currentTime counters matched, .proceed =>
    some { s.setPhase index (.leaving lock) with stored := some (applyCheck settings counters ⟨currentTime, matched⟩) }
  | .leaving lock, .proceed =>
    some { s.setPhase index .finished with locks := s.locks.set lock false, waiting := s.waiting - 1 }
  | _, _ => none

def guardStep (s : GuardState) : GuardAction → Option GuardState
  | .arrive => some { s with attempts := s.attempts ++ [.arrived] }
  | .attempt index event => do
    let phase ← s.attempts[index]?
    s.advance settings index phase event
  | .forget =>
    match s.entry with
    | some lock => if s.attempts.all fun phase => phase.lock? != some lock then some { s with entry := none } else none
    | none => none
  | .tick now => if s.now ≤ now then some { s with now } else none

def guardMachine (initial : Option LoginCounters) : Machine GuardState GuardAction where
  init s :=
    s.stored = initial ∧ s.locks = [] ∧ s.entry = none ∧ s.waiting = 0 ∧ s.attempts = [] ∧ s.checks = []
  step := guardStep settings

end

/-! ## Between reading and writing -/

/-- Is an attempt at this point between reading the account and writing it? -/
def AttemptPhase.isBetween : AttemptPhase → Bool
  | .checking .. | .checked .. => true
  | _ => false

/-- Is its password being checked against the account's? -/
def AttemptPhase.isChecking : AttemptPhase → Bool
  | .checking .. => true
  | _ => false

/-- Does it have the lock? -/
def AttemptPhase.holds : AttemptPhase → Nat
  | .entered _ | .timed _ _ | .checkingDummy _ | .checking _ _ _ | .checked _ _ _ _ | .leaving _ => 1
  | .arrived | .queued _ | .finished => 0

/-- Has it a check that is not written yet? -/
def AttemptPhase.isUnwritten : AttemptPhase → Bool
  | .checked .. => true
  | _ => false

end Oveo.Login
