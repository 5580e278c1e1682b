import Mathlib.Data.Rat.Defs
import Mathlib.Algebra.Order.Ring.Rat
import Mathlib.Tactic.Linarith
import Oveo.Stream.System

/-! # One event stream and its sign-in session

A stream that has started, with its clock and the checks of its sign-in session.  What is published to it,
the draft and the row are whatever the rest of the process makes of them.  An item is put aside only while
the reader waits, and no round starts with the close signal (`reachable_placed`). -/

namespace Oveo.Stream

open Oveo.Lib Oveo.Store

/-- `_KEEPALIVE_SECONDS`. -/
def keepaliveSeconds : ℚ := 15

/-- `_SESSION_CHECK_SECONDS`. -/
def sessionCheckSeconds : ℚ := 5

/-- The check of the sign-in session, for the item the reader holds. -/
inductive SessionCheck where
  | undecided
  /-- `session_valid` is at the database. -/
  | asked
  | answered (valid : Bool)

/-- A stream that has started, and what the rest of its loop reads. -/
structure Subscription where
  reader : Reader
  /-- Not set before the browser took the first snapshot. -/
  nextCheck : Option ℚ
  /-- In `wait_for`, where it found the queue empty. -/
  listening : Bool
  check : SessionCheck
  idle : Bool
  keepAlives : Nat
  now : ℚ
  /-- The sign-out is committed. -/
  revoked : Bool

/-- The frames and the keep-alive comments. -/
def Subscription.yielded (s : Subscription) : Nat := s.reader.frames.length + s.keepAlives

inductive SubscriptionAction where
  | pass (now : ℚ)
  /-- `_offer`, for this stream. -/
  | offer (item : StreamItem)
  | revokeSession
  | closeSession
  | drop
  | resume
  /-- `wait_for` got an item, or gave up. -/
  | wake
  | expire
  /-- The clock is compared with `next_check`. -/
  | compare (live : Option LiveGeneration)
  | answer (valid : Bool)
  | checked (live : Option LiveGeneration)
  | readRow (row : Option StoredRow)
  | deliver

/-- The steps of the stream itself, and the replies it waits for. -/
def SubscriptionAction.isOwn : SubscriptionAction → Bool
  | .pass _ | .offer _ | .revokeSession | .closeSession | .drop => false
  | .resume | .wake | .expire | .compare _ | .answer _ | .checked _ | .readRow _ | .deliver => true

/-- `wait`. -/
def waitTime (now nextCheck : ℚ) : ℚ := max 0 (min keepaliveSeconds (nextCheck - now))

def Subscription.due (s : Subscription) : Bool :=
  match s.nextCheck with
  | some time => decide (time ≤ s.now)
  | none => false

def Subscription.onReader (s : Subscription) (move : Reader → Option Reader) : Option Subscription :=
  (move s.reader).map fun reader => { s with reader }

/-- The reader goes on with an item, or with none. -/
def Subscription.obtain (s : Subscription) (move : Reader → Option Reader) : Option Subscription :=
  (move s.reader).map fun reader => { s with reader, listening := false, check := .undecided }

/-- The top of the loop.  A wait of no time gives up before it looks at the queue. -/
def Subscription.round (s : Subscription) (nextCheck : ℚ) : Option Subscription :=
  if s.reader.pending.isSome then s.obtain Reader.take
  else if waitTime s.now nextCheck ≤ 0 then s.obtain Reader.timeout
  else if s.reader.queue.isEmpty then some { s with listening := true }
  else s.obtain Reader.take

/-- The reader is asked for more, or goes on by itself. -/
def Subscription.resume (s : Subscription) : Option Subscription :=
  match s.reader.phase with
  | .waiting =>
    if s.listening then none
    else
      let nextCheck := s.nextCheck.getD (s.now + sessionCheckSeconds)
      { s with nextCheck := some nextCheck }.round nextCheck
  | _ => none

def Reader.isIdle (reader : Reader) : Bool :=
  match reader.phase with
  | .holding none => true
  | _ => false

/-- The rest of the loop's body. -/
def Subscription.handle (live : Option LiveGeneration) (s : Subscription) : Option Subscription :=
  (s.reader.handle live).map fun reader =>
    { s with
      reader
      idle := s.reader.isIdle
      keepAlives := if s.reader.isIdle && live.isSome then s.keepAlives + 1 else s.keepAlives }

/-- An idle stream whose snapshot tells nothing new sends a keep-alive comment. -/
def Subscription.deliver (s : Subscription) : Option Subscription :=
  s.reader.deliver.map fun reader =>
    { s with
      reader
      keepAlives :=
        if s.idle && reader.isOpen && reader.frames.length == s.reader.frames.length then s.keepAlives + 1 else s.keepAlives }

def subscriptionStep (s : Subscription) : SubscriptionAction → Option Subscription
  | .pass now => if s.now ≤ now then some { s with now } else none
  | .offer item => some { s with reader := s.reader.offered item }
  | .revokeSession => some { s with revoked := true }
  -- `logout` commits before it calls `close_session_streams`.
  | .closeSession => if s.revoked then s.onReader Reader.closeSession else none
  | .drop => s.onReader Reader.drop
  | .resume => s.resume
  | .wake => if s.listening then s.obtain Reader.take else none
  | .expire => if s.listening then s.obtain Reader.timeout else none
  | .compare live =>
    match s.reader.phase, s.check with
    | .holding _, .undecided => if s.due then some { s with check := .asked } else s.handle live
    | _, _ => none
  | .answer valid =>
    match s.reader.phase, s.check with
    | .holding _, .asked => if valid && s.revoked then none else some { s with check := .answered valid }
    | _, _ => none
  | .checked live =>
    match s.reader.phase, s.check with
    | .holding _, .answered true => { s with nextCheck := some (s.now + sessionCheckSeconds) }.handle live
    | .holding _, .answered false => s.onReader Reader.revoke
    | _, _ => none
  | .readRow row => s.onReader (Reader.readRow row)
  | .deliver => s.deliver

/-- The body of `_events` starts, for whatever draft there is. -/
def Subscription.start (live : Option LiveGeneration) (now : ℚ) (revoked : Bool) : Subscription :=
  { reader := subscribe live, nextCheck := none, listening := false, check := .undecided, idle := false, keepAlives := 0, now, revoked }

def subscription : Machine Subscription SubscriptionAction where
  init := fun s => ∃ live now revoked, s = Subscription.start live now revoked
  step := subscriptionStep

/-! ## Where the reader is -/

/-- At a frame or at the queue, or ended. -/
def Reader.AtRest (reader : Reader) : Prop := reader.phase = .waiting ∨ reader.isOpen = false

/-- An item is put aside only at a frame, and the queue is waited for only without one. -/
structure Placed (s : Subscription) : Prop where
  inside : s.reader.isOpen = true →
    s.reader.pending = none ∧ s.listening = false ∨ s.reader.phase = .waiting ∧ (s.reader.pending = none ∨ s.listening = false)
  held : s.reader.phase ≠ .holding (some .close)

section

variable {s next : Subscription} {action : SubscriptionAction} {actions : List SubscriptionAction} {reader after : Reader} {item : StreamItem}
  {live : Option LiveGeneration} {shown : Snapshot} {row : Option StoredRow}

theorem send_atRest (shown : Snapshot) (reader : Reader) : (reader.send shown).AtRest := by
  by_cases terminal : shown.status.isTerminal = true
  · exact .inr (by simp [Reader.send, Reader.isOpen, terminal])
  · exact .inl (by simp [Reader.send, terminal])

theorem settle_atRest (shown : Snapshot) (reader : Reader) : (reader.settle shown).AtRest := by
  unfold Reader.settle
  split
  · exact send_atRest shown reader
  · exact .inl rfl

theorem refresh_phase (live : Option LiveGeneration) (reader : Reader) :
    (reader.refresh live).AtRest ∨ (reader.refresh live).phase = .reading false ∧ (reader.refresh live).pending = reader.pending := by
  unfold Reader.refresh
  split
  · exact .inl (settle_atRest _ reader)
  · exact .inr ⟨rfl, rfl⟩

theorem handle_phase (handled : reader.handle live = some after) :
    after.AtRest ∨ after.phase = .reading false ∧ after.pending = reader.pending := by
  unfold Reader.handle at handled
  split at handled
  next =>
    split at handled <;> cases handled
    · exact .inl (.inl rfl)
    · exact refresh_phase live reader
  next =>
    split at handled
    · cases handled
      exact .inl (.inl rfl)
    · split at handled <;> cases handled
      · exact refresh_phase live reader
      · exact .inl (.inl rfl)
  next =>
    cases handled
    exact refresh_phase live reader
  next => cases handled

theorem deliver_atRest (delivered : reader.deliver = some after) : after.AtRest := by
  unfold Reader.deliver at delivered
  split at delivered <;> cases delivered
  · exact .inr rfl
  · exact send_atRest _ reader
  · exact settle_atRest _ reader

/-- `get_snapshot` was at the database. -/
theorem fetched_of_deliver (delivered : reader.deliver = some after) : ∃ first row, reader.phase = .fetched first row := by
  unfold Reader.deliver at delivered
  split at delivered
  next fetched => exact ⟨_, _, fetched⟩
  next fetched => exact ⟨_, _, fetched⟩
  next fetched => exact ⟨_, _, fetched⟩
  next => cases delivered

theorem Placed.rests (notListening : next.listening = false) (atRest : next.reader.AtRest) : Placed next where
  inside := fun isOpen => by
    rcases atRest with waiting | ended
    · exact .inr ⟨waiting, .inr notListening⟩
    · rw [ended] at isOpen
      cases isOpen
  held := fun holding => by
    rcases atRest with waiting | ended
    · rw [waiting] at holding
      cases holding
    · simp [Reader.isOpen, holding] at ended

/-- Inside a round nothing is put aside. -/
theorem Placed.quiet (placed : Placed s) (isOpen : s.reader.isOpen = true) (notWaiting : s.reader.phase ≠ .waiting) :
    s.reader.pending = none ∧ s.listening = false :=
  (placed.inside isOpen).resolve_right fun atRest => notWaiting atRest.1

theorem Placed.handle (placed : Placed s) {held : Option StreamItem} (holding : s.reader.phase = .holding held)
    (handled : s.handle live = some next) : Placed next := by
  obtain ⟨pending, notListening⟩ := placed.quiet (by simp [Reader.isOpen, holding]) (by simp [holding])
  obtain ⟨after, isAfter, rfl⟩ := Option.map_eq_some_iff.mp handled
  rcases handle_phase isAfter with atRest | ⟨reading, samePending⟩
  · exact .rests notListening atRest
  · exact ⟨fun _ => .inl ⟨samePending.trans pending, notListening⟩, by simp [reading]⟩

theorem Placed.obtain_take (taken : s.obtain Reader.take = some next) : Placed next := by
  obtain ⟨after, isAfter, rfl⟩ := Option.map_eq_some_iff.mp taken
  have received (reader : Reader) (item : StreamItem) (isNone : reader.pending = none) :
      Placed { s with reader := reader.receive item, listening := false, check := .undecided } := by
    refine ⟨fun _ => .inl ⟨isNone, rfl⟩, ?_⟩
    cases item <;> simp [Reader.receive, StreamItem.isClose]
  unfold Reader.take at isAfter
  split at isAfter
  next =>
    cases isAfter
    exact received _ _ rfl
  next isPending _ =>
    cases isAfter
    exact received _ _ isPending
  next => cases isAfter

theorem Placed.obtain_timeout (waited : s.obtain Reader.timeout = some next) : Placed next := by
  obtain ⟨after, isAfter, rfl⟩ := Option.map_eq_some_iff.mp waited
  unfold Reader.timeout at isAfter
  split at isAfter
  next isPending =>
    cases isAfter
    exact ⟨fun _ => .inl ⟨isPending, rfl⟩, by simp⟩
  next => cases isAfter

theorem Placed.round {nextCheck : ℚ} (waiting : s.reader.phase = .waiting) (taken : s.round nextCheck = some next) : Placed next := by
  unfold Subscription.round at taken
  split at taken
  next => exact .obtain_take taken
  next isPending =>
    split at taken
    next => exact .obtain_timeout taken
    next =>
      split at taken
      next =>
        cases taken
        exact ⟨fun _ => .inr ⟨waiting, .inl (by simpa using isPending)⟩, by simp [waiting]⟩
      next => exact .obtain_take taken

theorem placed_step (placed : Placed s) (taken : subscriptionStep s action = some next) : Placed next := by
  cases action with
  | pass now =>
    obtain ⟨-, taken⟩ := Option.ite_none_right_eq_some.mp taken
    cases taken
    exact ⟨placed.inside, placed.held⟩
  | offer item =>
    cases taken
    unfold Reader.offered
    split
    · exact ⟨placed.inside, placed.held⟩
    · exact placed
  | revokeSession =>
    cases taken
    exact ⟨placed.inside, placed.held⟩
  | closeSession =>
    obtain ⟨-, taken⟩ := Option.ite_none_right_eq_some.mp taken
    obtain ⟨after, isAfter, rfl⟩ := Option.map_eq_some_iff.mp taken
    obtain ⟨-, isAfter⟩ := Option.ite_none_right_eq_some.mp isAfter
    cases isAfter
    exact ⟨placed.inside, placed.held⟩
  | drop =>
    obtain ⟨after, isAfter, rfl⟩ := Option.map_eq_some_iff.mp taken
    obtain ⟨-, isAfter⟩ := Option.ite_none_right_eq_some.mp isAfter
    cases isAfter
    exact ⟨fun isOpen => (nomatch isOpen), by simp⟩
  | resume =>
    simp only [subscriptionStep, Subscription.resume] at taken
    split at taken
    next waiting =>
      obtain ⟨-, taken⟩ := Option.ite_none_left_eq_some.mp taken
      exact Placed.round (by exact waiting) taken
    next => cases taken
  | wake =>
    obtain ⟨-, taken⟩ := Option.ite_none_right_eq_some.mp taken
    exact .obtain_take taken
  | expire =>
    obtain ⟨-, taken⟩ := Option.ite_none_right_eq_some.mp taken
    exact .obtain_timeout taken
  | compare live =>
    simp only [subscriptionStep] at taken
    split at taken
    next holding _ =>
      split at taken
      next =>
        cases taken
        exact ⟨placed.inside, placed.held⟩
      next => exact placed.handle holding taken
    next => cases taken
  | answer valid =>
    simp only [subscriptionStep] at taken
    split at taken
    next =>
      obtain ⟨-, taken⟩ := Option.ite_none_left_eq_some.mp taken
      cases taken
      exact ⟨placed.inside, placed.held⟩
    next => cases taken
  | checked live =>
    simp only [subscriptionStep] at taken
    split at taken
    next holding _ =>
      have timed : Placed { s with nextCheck := some (s.now + sessionCheckSeconds) } := ⟨placed.inside, placed.held⟩
      exact timed.handle holding taken
    next holding _ =>
      obtain ⟨after, isAfter, rfl⟩ := Option.map_eq_some_iff.mp taken
      simp only [Reader.revoke, holding, Option.some.injEq] at isAfter
      subst isAfter
      exact ⟨fun isOpen => (nomatch isOpen), by simp⟩
    next => cases taken
  | readRow row =>
    obtain ⟨after, isAfter, rfl⟩ := Option.map_eq_some_iff.mp taken
    unfold Reader.readRow at isAfter
    split at isAfter
    next reading =>
      cases isAfter
      exact ⟨fun _ => .inl (placed.quiet (by simp [Reader.isOpen, reading]) (by simp [reading])), by simp⟩
    next => cases isAfter
  | deliver =>
    obtain ⟨after, isAfter, rfl⟩ := Option.map_eq_some_iff.mp taken
    obtain ⟨first, row, fetched⟩ := fetched_of_deliver isAfter
    exact .rests (placed.quiet (by simp [Reader.isOpen, fetched]) (by simp [fetched])).2 (deliver_atRest isAfter)

theorem placed_start (live : Option LiveGeneration) (now : ℚ) (revoked : Bool) : Placed (Subscription.start live now revoked) := by
  unfold Subscription.start subscribe
  split
  · exact ⟨fun _ => .inl ⟨rfl, rfl⟩, by simp⟩
  · exact ⟨fun _ => .inl ⟨rfl, rfl⟩, by simp⟩

theorem reachable_placed (reachable : subscription.Reachable s) : Placed s := by
  refine Machine.invariant Placed ?_ (fun _ _ _ placed _ taken => placed_step placed taken) reachable
  rintro _ ⟨live, now, revoked, rfl⟩
  exact placed_start live now revoked

end

end Oveo.Stream
