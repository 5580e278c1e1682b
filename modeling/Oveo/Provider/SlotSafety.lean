import Oveo.Provider.Slots

/-! # No provider slot is lost

One step of a call moves a slot between the semaphore, the call and a cancelled waiter, and never
makes or loses one (`step_balance`); the sum over all calls is then the same in every run. -/

namespace Oveo.Provider

open Oveo.Lib

section

variable {s s' : SlotState} {call call' : SlotCall} {value value' : Nat} {action : SlotAction}

/-! ## One call -/

/-- A call that has not asked for a slot has no waiter, and one that waits in its own task keeps
no cancelled one. -/
def SlotCall.Valid (call : SlotCall) : Prop :=
  (call.phase = .requested → call.acquire = .waiting) ∧
    (call.acquire = .withdrawnGranted → call.phase = .racing ∨ call.phase = .left)

/-- The slots of a call and of its waiter. -/
def SlotCall.slots (call : SlotCall) : Nat := call.held + call.returning

theorem resumeAwaiting_balance (awaiting : call.phase = .awaiting) {interrupted : Bool}
    (taken : call.resumeAwaiting value interrupted = some (value', call')) :
    value' + call'.slots = value + call.slots ∧ call'.Valid := by
  simp only [SlotCall.resumeAwaiting] at taken
  split at taken
  next granted =>
    cases taken
    simp [SlotCall.slots, SlotCall.held, SlotCall.returning, SlotCall.Valid, granted, awaiting]
  next granted =>
    cases taken
    simp [SlotCall.slots, SlotCall.held, SlotCall.returning, SlotCall.Valid, granted, awaiting]
  next waiting =>
    cases taken
    simp [SlotCall.slots, SlotCall.held, SlotCall.returning, SlotCall.Valid, waiting, awaiting]
  next => cases taken

theorem resumeRacing_balance (racing : call.phase = .racing) {interrupted : Bool}
    (taken : call.resumeRacing value interrupted = some (value', call')) :
    value' + call'.slots = value + call.slots ∧ call'.Valid := by
  simp only [SlotCall.resumeRacing] at taken
  split at taken
  next =>
    split at taken
    next won =>
      cases taken
      simp [SlotCall.slots, SlotCall.held, SlotCall.returning, SlotCall.Valid, won.2.1, racing]
    next =>
      cases taken
      -- The slot goes back at once, or with the waiter that was just cancelled.
      cases acquire : call.acquire <;>
        simp [SlotCall.slots, SlotCall.held, SlotCall.returning, SlotCall.Valid, Acquire.cancel, acquire, racing]
  next => cases taken

/-- A step of a call moves slots and makes none. -/
theorem step_balance (valid : call.Valid) (taken : call.step value action = some (value', call')) :
    value' + call'.slots = value + call.slots ∧ call'.Valid := by
  cases action with
  | request => cases taken
  | stop =>
    cases taken
    exact ⟨rfl, valid⟩
  | enter =>
    simp only [SlotCall.step, Option.ite_none_right_eq_some] at taken
    obtain ⟨requested, taken⟩ := taken
    cases taken
    have waiting := valid.1 requested
    simp only [SlotCall.enter]
    split <;> simp [SlotCall.slots, SlotCall.held, SlotCall.returning, SlotCall.Valid, waiting, requested]
  | grant =>
    simp only [SlotCall.step, Option.ite_none_right_eq_some] at taken
    obtain ⟨⟨inside, waiting, available⟩, taken⟩ := taken
    cases taken
    rcases inside with phase | phase <;>
      simp [SlotCall.slots, SlotCall.held, SlotCall.returning, SlotCall.Valid, waiting, phase] <;> omega
  | runAcquire =>
    simp only [SlotCall.step, Option.ite_none_right_eq_some, Option.map_eq_some_iff] at taken
    obtain ⟨inside, ⟨next, acquire⟩, ran, taken⟩ := taken
    cases taken
    cases before : call.acquire <;> simp only [Acquire.run, before, Option.some.injEq, Prod.mk.injEq, reduceCtorEq] at ran
    all_goals
      obtain ⟨rfl, rfl⟩ := ran
      rcases inside with phase | phase <;>
        simp [SlotCall.slots, SlotCall.held, SlotCall.returning, SlotCall.Valid, before, phase]
  | cancelAcquire =>
    simp only [SlotCall.step, Option.ite_none_right_eq_some] at taken
    obtain ⟨racing, taken⟩ := taken
    cases taken
    cases before : call.acquire <;>
      simp [SlotCall.slots, SlotCall.held, SlotCall.returning, SlotCall.Valid, Acquire.cancel, before, racing]
  | resume _ interrupted =>
    simp only [SlotCall.step] at taken
    split at taken
    next awaiting => exact resumeAwaiting_balance awaiting taken
    next racing => exact resumeRacing_balance racing taken
    all_goals cases taken
  | finish _ ended =>
    simp only [SlotCall.step, Option.ite_none_right_eq_some] at taken
    obtain ⟨running, taken⟩ := taken
    have notWithdrawn : call.acquire ≠ .withdrawnGranted := by
      intro withdrawn
      rcases valid.2 withdrawn with phase | phase <;> rw [running] at phase <;> cases phase
    cases ended <;> cases taken <;>
      simp [SlotCall.slots, SlotCall.held, SlotCall.returning, SlotCall.Valid, running, notWithdrawn]
  | recorded =>
    simp only [SlotCall.step, Option.ite_none_right_eq_some] at taken
    obtain ⟨recording, taken⟩ := taken
    cases taken
    have notWithdrawn : call.acquire ≠ .withdrawnGranted := by
      intro withdrawn
      rcases valid.2 withdrawn with phase | phase <;> rw [recording] at phase <;> cases phase
    simp [SlotCall.slots, SlotCall.held, SlotCall.returning, SlotCall.Valid, recording, notWithdrawn]

/-! ## All calls -/

structure SlotInv (maximum : Nat) (s : SlotState) : Prop where
  balance : s.value + total SlotCall.slots s.calls = maximum
  valid : ∀ call ∈ s.calls, call.Valid

theorem slotStep_call {index : Nat} (ofCall : action.call? = some index) (taken : slotStep s action = some s') :
    ∃ call value' call', s.calls[index]? = some call ∧ call.step s.value action = some (value', call') ∧
      s' = s.setCall index value' call' := by
  cases action with
  | request => cases ofCall
  | _ =>
    cases ofCall
    simp only [slotStep, SlotAction.call?, Option.bind_eq_bind, Option.bind_some, Option.bind_eq_some_iff,
      Option.pure_def, Option.some.injEq] at taken
    obtain ⟨call, found, ⟨value', call'⟩, stepped, rfl⟩ := taken
    exact ⟨call, value', call', found, stepped, rfl⟩

theorem SlotInv.step {maximum : Nat} (invariant : SlotInv maximum s) (taken : slotStep s action = some s') :
    SlotInv maximum s' := by
  cases ofCall : action.call? with
  | none =>
    cases action with
    | request stopRequested =>
      cases taken
      constructor
      case balance =>
        have balance := invariant.balance
        simpa [SlotCall.slots, SlotCall.held, SlotCall.returning] using balance
      case valid =>
        intro call member
        rcases List.mem_append.mp member with old | new
        · exact invariant.valid call old
        · rw [List.mem_singleton.mp new]
          exact ⟨fun _ => rfl, fun other => nomatch other⟩
    | _ => cases ofCall
  | some index =>
    obtain ⟨call, value', call', found, stepped, rfl⟩ := slotStep_call ofCall taken
    obtain ⟨moved, valid⟩ := step_balance (invariant.valid call (List.mem_of_getElem? found)) stepped
    constructor
    case balance =>
      have balance := invariant.balance
      have changed : total SlotCall.slots (s.calls.set index call') + call.slots =
        total SlotCall.slots s.calls + call'.slots := total_set _ _ found
      show value' + total SlotCall.slots (s.calls.set index call') = maximum
      omega
    case valid =>
      intro other member
      rcases List.mem_or_eq_of_mem_set member with old | rfl
      · exact invariant.valid other old
      · exact valid

theorem reachable_slotInv {maximum : Nat} (reachable : (slotMachine maximum).Reachable s) : SlotInv maximum s := by
  refine Machine.invariant (SlotInv maximum) ?_ ?_ reachable
  · rintro _ rfl
    exact ⟨by simp, by simp⟩
  · exact fun state action next invariant _ taken => invariant.step taken

/-! ## What the sum says -/

theorem total_slots (calls : List SlotCall) :
    total SlotCall.slots calls = total SlotCall.held calls + total SlotCall.returning calls := by
  induction calls with
  | nil => rfl
  | cons call calls inductionHypothesis =>
    simp only [total_cons, SlotCall.slots, inductionHypothesis]
    omega

theorem inFlight_le_held (s : SlotState) : s.inFlight ≤ s.held := by
  simp only [SlotState.inFlight, SlotState.held]
  induction s.calls with
  | nil => exact Nat.le_refl _
  | cons call calls inductionHypothesis =>
    by_cases running : call.isInFlight = true
    · have phase : call.phase = .running := by simpa [SlotCall.isInFlight] using running
      have held : call.held = 1 := by simp [SlotCall.held, phase]
      simp only [List.filter_cons_of_pos running, List.length_cons, total_cons, held]
      omega
    · simp only [List.filter_cons_of_neg running, total_cons]
      omega

theorem held_of_idle (idle : call.isActive = false) : call.held = 0 := by
  cases phase : call.phase <;> simp_all [SlotCall.isActive, SlotCall.held]

/-- A waiter that was cancelled with a slot can run, and gives it back. -/
theorem waiter_gives_back {maximum : Nat} (invariant : SlotInv maximum s) {index : Nat} (found : s.calls[index]? = some call)
    (returning : 0 < call.returning) :
    ∃ next, slotStep s (.runAcquire index) = some next ∧ next.held = s.held ∧ next.value = s.value + 1 ∧
      total SlotCall.returning next.calls + 1 = total SlotCall.returning s.calls := by
  have waiter : call.acquire = .withdrawnGranted := by
    by_contra other
    simp [SlotCall.returning, other] at returning
  have inside : call.phase = .racing ∨ call.phase = .left := (invariant.valid call (List.mem_of_getElem? found)).2 waiter
  have stepped : call.step s.value (.runAcquire index) = some (s.value + 1, { call with acquire := .cancelled }) := by
    simp [SlotCall.step, Acquire.run, waiter, inside]
  refine ⟨s.setCall index (s.value + 1) { call with acquire := .cancelled }, ?_, ?_, rfl, ?_⟩
  · simp [slotStep, SlotAction.call?, found, stepped]
  · have changed := total_set SlotCall.held { call with acquire := .cancelled } found
    have same : SlotCall.held { call with acquire := .cancelled } = call.held := by
      rcases inside with phase | phase <;> simp [SlotCall.held, phase, waiter]
    show total SlotCall.held (s.calls.set index { call with acquire := .cancelled }) = total SlotCall.held s.calls
    omega
  · have changed := total_set SlotCall.returning { call with acquire := .cancelled } found
    have gone : SlotCall.returning { call with acquire := .cancelled } = 0 := by simp [SlotCall.returning]
    have had : call.returning = 1 := by simp [SlotCall.returning, waiter]
    show total SlotCall.returning (s.calls.set index { call with acquire := .cancelled }) + 1 = _
    omega

/-- The waiters that were cancelled with a slot run, and give back every one of them. -/
theorem waiters_drain {maximum : Nat} (count : Nat) : ∀ s, SlotInv maximum s → total SlotCall.returning s.calls = count →
    ∃ later, (slotMachine maximum).Steps s later ∧ later.held = s.held ∧ later.value = s.free := by
  induction count with
  | zero =>
    intro s invariant none
    exact ⟨s, .refl, rfl, by simp [SlotState.free, none]⟩
  | succ count inductionHypothesis =>
    intro s invariant pending
    obtain ⟨index, call, found, returning⟩ := exists_of_total_pos SlotCall.returning (by omega : 0 < total _ s.calls)
    obtain ⟨next, taken, sameHeld, value, fewer⟩ := waiter_gives_back invariant found returning
    obtain ⟨later, steps, held, isFree⟩ := inductionHypothesis next (invariant.step taken) (by omega)
    have taken : (slotMachine maximum).step s (.runAcquire index) = some next := taken
    refine ⟨later, steps.head ⟨_, taken⟩, held.trans sameHeld, ?_⟩
    simp only [SlotState.free] at isFree ⊢
    omega

/-! ## Main result -/

/-- Every slot is free or with a call, at most `maximum` calls are in flight, and every slot is free
when no call is active.  What a cancelled waiter was granted gets back to the semaphore by that
waiter's own step, without a call giving up or taking a slot. -/
theorem provider_slots_conserved {maximum : Nat} (reachable : (slotMachine maximum).Reachable s) :
    s.free + s.held = maximum ∧ s.inFlight ≤ maximum ∧
      ((∀ call ∈ s.calls, call.isActive = false) → s.free = maximum) ∧
      ∃ later, (slotMachine maximum).Steps s later ∧ later.held = s.held ∧ later.value = s.free := by
  have invariant := reachable_slotInv reachable
  have conserved : s.free + s.held = maximum := by
    have balance := invariant.balance
    rw [total_slots] at balance
    simp only [SlotState.free, SlotState.held]
    omega
  refine ⟨conserved, ?_, fun idle => ?_, waiters_drain _ s invariant rfl⟩
  · have bound := inFlight_le_held s
    omega
  · have none : s.held = 0 := total_eq_zero fun call member => held_of_idle (idle call member)
    omega

end

/-- The waiter of the second call is granted the slot the first one gave back, and in the same
moment its task is cancelled. -/
def cancelledWaiter : List SlotAction :=
  [.request none, .enter 0, .grant 0, .resume 0 false, .request (some false), .enter 1, .finish 0 .completion,
   .grant 1, .resume 1 true]

theorem provider_slots_conserved_cancelled :
    ∃ s, (slotMachine 1).run { value := 1, calls := [] } cancelledWaiter = some s ∧ s.value = 0 ∧ s.free = 1 ∧ s.held = 0 ∧
      ∃ later, (slotMachine 1).Steps s later ∧ later.held = s.held ∧ later.value = s.free := by
  obtain ⟨s, ran⟩ := Option.isSome_iff_exists.mp
    (by decide : ((slotMachine 1).run { value := 1, calls := [] } cancelledWaiter).isSome = true)
  obtain ⟨-, -, -, drained⟩ := provider_slots_conserved (Machine.reachable_of_run (.init rfl) ran)
  have counts : ((slotMachine 1).run { value := 1, calls := [] } cancelledWaiter).map
      (fun s => (s.value, s.free, s.held)) = some (0, 1, 0) := by decide
  rw [ran, Option.map_some, Option.some.injEq, Prod.mk.injEq, Prod.mk.injEq] at counts
  exact ⟨s, ran, counts.1, counts.2.1, counts.2.2, drained⟩

end Oveo.Provider
