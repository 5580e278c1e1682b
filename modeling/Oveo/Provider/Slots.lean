import Oveo.Lib.Machine
import Oveo.Lib.Totals

/-! # Provider slots

`_provider_slots` is a semaphore that every provider call takes a slot of.  The semaphore itself
is asyncio's: it hands a free slot to a waiter, and it takes back a slot it had handed to a waiter
that was cancelled before it ran.  Any number of calls wait, race against Stop, run, fail and are
cancelled in any order. -/

namespace Oveo.Provider

open Oveo.Lib

/-! ## Calls -/

/-- The task `acquire` of a call. -/
inductive Acquire where
  | waiting
  /-- The semaphore gave it a slot; it has not run since. -/
  | granted
  | acquired
  /-- Cancelled while it waited; it has not run since. -/
  | withdrawn
  /-- Cancelled with a slot it had been given; it has not run since. -/
  | withdrawnGranted
  | cancelled
deriving DecidableEq, Repr

/-- `acquire.done()`. -/
def Acquire.isDone : Acquire → Bool
  | .acquired | .cancelled => true
  | .waiting | .granted | .withdrawn | .withdrawnGranted => false

/-- `acquire.cancel()`. -/
def Acquire.cancel : Acquire → Acquire
  | .waiting => .withdrawn
  | .granted => .withdrawnGranted
  | other => other

inductive SlotPhase where
  /-- Before `_acquire_provider_slot`. -/
  | requested
  /-- In `await self._provider_slots.acquire()`, which its own task runs. -/
  | awaiting
  /-- In `asyncio.wait({acquire, stopped})`. -/
  | racing
  /-- In `await call`. -/
  | running
  /-- In the `except ProviderError` clause. -/
  | recording
  /-- Out of the `finally` clauses. -/
  | left
deriving DecidableEq, Repr

structure SlotCall where
  /-- `stop_requested`, and whether it is set. -/
  stopRequested : Option Bool
  acquire : Acquire
  phase : SlotPhase
deriving DecidableEq, Repr

/-- How `await call` ends. -/
inductive SlotEnd where
  | completion
  | providerError
  /-- Another error or a cancellation. -/
  | otherError
deriving DecidableEq, Repr

structure SlotState where
  /-- The semaphore's count. -/
  value : Nat
  calls : List SlotCall
deriving DecidableEq, Repr

inductive SlotAction where
  | request (stopRequested : Option Bool)
  | stop (call : Nat)
  | enter (call : Nat)
  /-- The semaphore gives a waiter a slot. -/
  | grant (call : Nat)
  /-- The task `acquire` runs. -/
  | runAcquire (call : Nat)
  /-- Shutdown cancels the task `acquire`. -/
  | cancelAcquire (call : Nat)
  /-- A call that waits for a slot runs; `interrupted` when its own task was cancelled. -/
  | resume (call : Nat) (interrupted : Bool)
  | finish (call : Nat) (ended : SlotEnd)
  /-- The usage of a `ProviderError` is recorded, or that is cancelled or fails. -/
  | recorded (call : Nat)

/-! ## Steps -/

/-- The first lines of `_acquire_provider_slot`. -/
def SlotCall.enter (call : SlotCall) : SlotCall :=
  match call.stopRequested with
  | none => { call with acquire := .waiting, phase := .awaiting }
  | some true => { call with phase := .left }
  | some false => { call with acquire := .waiting, phase := .racing }

/-- The task `acquire` takes its next step: what becomes of it and of the count. -/
def Acquire.run (value : Nat) : Acquire → Option (Nat × Acquire)
  | .granted => some (value, .acquired)
  | .withdrawn => some (value, .cancelled)
  | .withdrawnGranted => some (value + 1, .cancelled)
  | .waiting | .acquired | .cancelled => none

/-- `await self._provider_slots.acquire()` ends. -/
def SlotCall.resumeAwaiting (call : SlotCall) (value : Nat) (interrupted : Bool) : Option (Nat × SlotCall) :=
  match call.acquire, interrupted with
  | .granted, false => some (value, { call with acquire := .acquired, phase := .running })
  | .granted, true => some (value + 1, { call with acquire := .cancelled, phase := .left })
  | .waiting, true => some (value, { call with acquire := .cancelled, phase := .left })
  | _, _ => none

/-- `asyncio.wait` ends, and the `finally` clause behind it runs. -/
def SlotCall.resumeRacing (call : SlotCall) (value : Nat) (interrupted : Bool) : Option (Nat × SlotCall) :=
  if interrupted ∨ call.acquire.isDone ∨ call.stopRequested = some true then
    if ¬interrupted ∧ call.acquire = .acquired ∧ call.stopRequested ≠ some true then
      some (value, { call with phase := .running })
    else
      -- hand back a slot already granted, and withdraw a pending request
      some (if call.acquire = .acquired then value + 1 else value,
        { call with acquire := call.acquire.cancel, phase := .left })
  else none

def SlotState.setCall (s : SlotState) (index : Nat) (value : Nat) (call : SlotCall) : SlotState :=
  { value, calls := s.calls.set index call }

/-- The step of one call: the new count and the call. -/
def SlotCall.step (value : Nat) (call : SlotCall) : SlotAction → Option (Nat × SlotCall)
  | .request _ => none
  | .stop _ => some (value, { call with stopRequested := call.stopRequested.map fun _ => true })
  | .enter _ => if call.phase = .requested then some (value, call.enter) else none
  | .grant _ =>
    if (call.phase = .awaiting ∨ call.phase = .racing) ∧ call.acquire = .waiting ∧ 0 < value then
      some (value - 1, { call with acquire := .granted })
    else none
  | .runAcquire _ =>
    if call.phase = .racing ∨ call.phase = .left then
      (call.acquire.run value).map fun (value, acquire) => (value, { call with acquire })
    else none
  | .cancelAcquire _ => if call.phase = .racing then some (value, { call with acquire := call.acquire.cancel }) else none
  | .resume _ interrupted =>
    match call.phase with
    | .awaiting => call.resumeAwaiting value interrupted
    | .racing => call.resumeRacing value interrupted
    | .requested | .running | .recording | .left => none
  | .finish _ ended =>
    if call.phase = .running then
      match ended with
      | .completion | .otherError => some (value + 1, { call with phase := .left })
      | .providerError => some (value, { call with phase := .recording })
    else none
  | .recorded _ => if call.phase = .recording then some (value + 1, { call with phase := .left }) else none

def SlotAction.call? : SlotAction → Option Nat
  | .request _ => none
  | .stop call | .enter call | .grant call | .runAcquire call | .cancelAcquire call | .resume call _ | .finish call _
  | .recorded call => some call

def slotStep (s : SlotState) (action : SlotAction) : Option SlotState :=
  match action with
  | .request stopRequested =>
    some { s with calls := s.calls ++ [{ stopRequested, acquire := .waiting, phase := .requested }] }
  | action => do
    let index ← action.call?
    let call ← s.calls[index]?
    let (value, call) ← call.step s.value action
    return s.setCall index value call

/-- The machine for `max_concurrent_provider_calls` slots. -/
def slotMachine (maximum : Nat) : Machine SlotState SlotAction where
  init s := s = { value := maximum, calls := [] }
  step := slotStep

/-! ## Where the slots are -/

/-- The slots a call has. -/
def SlotCall.held (call : SlotCall) : Nat :=
  match call.phase with
  | .running | .recording => 1
  | .awaiting | .racing => if call.acquire = .granted ∨ call.acquire = .acquired then 1 else 0
  | .requested | .left => 0

/-- The slots of its cancelled waiter that the semaphore is about to take back. -/
def SlotCall.returning (call : SlotCall) : Nat := if call.acquire = .withdrawnGranted then 1 else 0

/-- Is the provider working on it? -/
def SlotCall.isInFlight (call : SlotCall) : Bool := call.phase == .running

/-- Is it inside `_call_provider`, waiting for its slot or with it? -/
def SlotCall.isActive (call : SlotCall) : Bool :=
  match call.phase with
  | .awaiting | .racing | .running | .recording => true
  | .requested | .left => false

def SlotState.held (s : SlotState) : Nat := total SlotCall.held s.calls

/-- The slots no call has: those the semaphore counts, and those granted to waiters that were
cancelled since. -/
def SlotState.free (s : SlotState) : Nat := s.value + total SlotCall.returning s.calls

def SlotState.inFlight (s : SlotState) : Nat := (s.calls.filter SlotCall.isInFlight).length

end Oveo.Provider
