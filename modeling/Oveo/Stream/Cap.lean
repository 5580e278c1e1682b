import Oveo.Lib.Totals
import Oveo.Stream.Subscription

/-! # Open streams of an account

`open_event_stream` looks at the counter of an account's streams, and the body of a stream counts itself
when it is read for the first time.  The counter is exact in every run.  The cap holds as long as each
opening finds room for the streams that were opened before and not read yet; where one does not, the first
reads alone exceed it. -/

namespace Oveo.Stream

open Oveo.Lib

universe u

/-- `_MAX_STREAMS_PER_USER`. -/
def maxStreamsPerUser : Nat := 8

/-- The generator of a stream. -/
inductive StreamBody where
  /-- Not read yet. -/
  | opened
  | started (body : Subscription)
  /-- Dropped before its first read. -/
  | discarded

structure EventStream (User : Type u) where
  userId : User
  body : StreamBody

structure StreamTable (User : Type u) where
  /-- `_user_streams`; a missing entry counts as zero. -/
  userStreams : User → ℤ
  streams : List (EventStream User)

inductive TableAction (User : Type u) where
  /-- `open_event_stream`, where it does not refuse. -/
  | openEventStream (userId : User)
  | firstRead (stream : Nat) (live : Option LiveGeneration) (now : ℚ) (revoked : Bool)
  /-- A step of a started stream; a cancellation, an error or a drop ends it like a browser that goes away. -/
  | advance (stream : Nat) (action : SubscriptionAction)
  | discard (stream : Nat)

section

variable {User : Type u} [DecidableEq User]

/-- The `finally` of `_events`. -/
def leave (userStreams : User → ℤ) (userId : User) : User → ℤ :=
  Function.update userStreams userId (if userStreams userId - 1 ≤ 0 then 0 else userStreams userId - 1)

def tableStep (s : StreamTable User) : TableAction User → Option (StreamTable User)
  | .openEventStream userId =>
    if (maxStreamsPerUser : ℤ) ≤ s.userStreams userId then none
    else some { s with streams := s.streams ++ [⟨userId, .opened⟩] }
  | .firstRead index live now revoked =>
    match s.streams[index]? with
    | some ⟨userId, .opened⟩ =>
      some {
        userStreams := Function.update s.userStreams userId (s.userStreams userId + 1)
        streams := s.streams.set index ⟨userId, .started (.start live now revoked)⟩ }
    | _ => none
  | .advance index action =>
    match s.streams[index]? with
    | some ⟨userId, .started body⟩ =>
      (subscriptionStep body action).map fun after =>
        { userStreams :=
            if body.reader.isOpen && !after.reader.isOpen then leave s.userStreams userId else s.userStreams
          streams := s.streams.set index ⟨userId, .started after⟩ }
    | _ => none
  | .discard index =>
    match s.streams[index]? with
    | some ⟨userId, .opened⟩ => some { s with streams := s.streams.set index ⟨userId, .discarded⟩ }
    | _ => none

def eventStreams : Machine (StreamTable User) (TableAction User) where
  init := fun s => s = ⟨fun _ => 0, []⟩
  step := tableStep

/-! ## The counter -/

/-- One for a stream of this account that has started and not ended. -/
def EventStream.runs (userId : User) (stream : EventStream User) : Nat :=
  match stream.body with
  | .started body => if stream.userId = userId ∧ body.reader.isOpen = true then 1 else 0
  | _ => 0

/-- One for a stream of this account that was not read yet. -/
def EventStream.waits (userId : User) (stream : EventStream User) : Nat :=
  match stream.body with
  | .opened => if stream.userId = userId then 1 else 0
  | _ => 0

def StreamTable.running (s : StreamTable User) (userId : User) : Nat := total (EventStream.runs userId) s.streams

def StreamTable.unread (s : StreamTable User) (userId : User) : Nat := total (EventStream.waits userId) s.streams

/-- An opening finds room for the streams that are not read yet. -/
def opensInTurn (s : StreamTable User) : TableAction User → Bool
  | .openEventStream userId => decide (s.running userId + s.unread userId < maxStreamsPerUser)
  | _ => true

def OpensInTurn (s : StreamTable User) (action : TableAction User) : Prop := opensInTurn s action = true

instance (s : StreamTable User) (action : TableAction User) : Decidable (OpensInTurn s action) :=
  inferInstanceAs (Decidable (_ = _))

variable {s next : StreamTable User} {action : TableAction User}

/-- What a step does to the counter and the streams of one account. -/
structure Counts (s next : StreamTable User) (action : TableAction User) (userId : User) : Prop where
  exact_ : s.userStreams userId = s.running userId → next.userStreams userId = next.running userId
  room : next.running userId + next.unread userId ≤ s.running userId + s.unread userId ∨
    action = .openEventStream userId ∧ next.running userId + next.unread userId = s.running userId + s.unread userId + 1

/-- A body that is read for the first time is not over. -/
theorem start_isOpen (live : Option LiveGeneration) (now : ℚ) (revoked : Bool) :
    (Subscription.start live now revoked).reader.isOpen = true := by
  unfold Subscription.start subscribe
  split <;> rfl

/-- A stream that ended stays so. -/
theorem ended_step {body after : Subscription} {action : SubscriptionAction} (ended : body.reader.isOpen = false)
    (taken : subscriptionStep body action = some after) : after.reader.isOpen = false := by
  obtain ⟨how, phase⟩ : ∃ how, body.reader.phase = .ended how := by
    unfold Reader.isOpen at ended
    split at ended
    next how phase => exact ⟨how, phase⟩
    next => cases ended
  cases action with
  | pass now =>
    obtain ⟨-, taken⟩ := Option.ite_none_right_eq_some.mp taken
    cases taken
    exact ended
  | offer item =>
    cases taken
    simp [Reader.offered, ended]
  | revokeSession =>
    cases taken
    exact ended
  | closeSession => simp [subscriptionStep, Subscription.onReader, Reader.closeSession, ended] at taken
  | drop => simp [subscriptionStep, Subscription.onReader, Reader.drop, ended] at taken
  | resume => simp [subscriptionStep, Subscription.resume, phase] at taken
  | wake => simp [subscriptionStep, Subscription.obtain, Reader.take, phase] at taken
  | expire => simp [subscriptionStep, Subscription.obtain, Reader.timeout, phase] at taken
  | compare live => simp [subscriptionStep, phase] at taken
  | answer valid => simp [subscriptionStep, phase] at taken
  | checked live => simp [subscriptionStep, phase] at taken
  | readRow row => simp [subscriptionStep, Subscription.onReader, Reader.readRow, phase] at taken
  | deliver => simp [subscriptionStep, Subscription.deliver, Reader.deliver, phase] at taken

/-- A stream of the table is replaced: what that does to the two numbers of an account. -/
theorem numbers_set {index : Nat} {old new : EventStream User} {userStreams : User → ℤ} (found : s.streams[index]? = some old) (userId : User) :
    (StreamTable.mk userStreams (s.streams.set index new)).running userId + old.runs userId = s.running userId + new.runs userId ∧
      (StreamTable.mk userStreams (s.streams.set index new)).unread userId + old.waits userId = s.unread userId + new.waits userId :=
  ⟨total_set _ new found, total_set _ new found⟩

theorem numbers_open (s : StreamTable User) (owner userId : User) :
    ({ s with streams := s.streams ++ [⟨owner, .opened⟩] } : StreamTable User).running userId = s.running userId ∧
      ({ s with streams := s.streams ++ [⟨owner, .opened⟩] } : StreamTable User).unread userId =
        s.unread userId + if owner = userId then 1 else 0 := by
  simp [StreamTable.running, StreamTable.unread, EventStream.runs, EventStream.waits]

theorem counts_open (owner userId : User) :
    Counts s { s with streams := s.streams ++ [⟨owner, .opened⟩] } (.openEventStream owner) userId := by
  obtain ⟨sameRunning, grows⟩ := numbers_open s owner userId
  constructor
  · rw [sameRunning]
    exact id
  · rw [sameRunning, grows]
    by_cases same : owner = userId
    · rw [if_pos same, same]
      exact .inr ⟨rfl, rfl⟩
    · rw [if_neg same]
      exact .inl (Nat.le_refl _)

theorem counts_firstRead {index : Nat} {owner : User} (found : s.streams[index]? = some ⟨owner, .opened⟩) {body : Subscription}
    (isOpen : body.reader.isOpen = true) (userId : User) :
    Counts s ⟨Function.update s.userStreams owner (s.userStreams owner + 1), s.streams.set index ⟨owner, .started body⟩⟩ action userId := by
  obtain ⟨running, unread⟩ := @numbers_set _ _ s index _ ⟨owner, .started body⟩
    (Function.update s.userStreams owner (s.userStreams owner + 1)) found userId
  simp only [EventStream.runs, EventStream.waits, isOpen, and_true, Nat.add_zero] at running unread
  by_cases same : owner = userId
  · subst same
    simp only [if_true] at running unread
    constructor
    · intro isExact
      have counter : Function.update s.userStreams owner (s.userStreams owner + 1) owner = (s.running owner : ℤ) + 1 := by
        rw [Function.update_self, isExact]
      simp only [counter]
      omega
    · exact .inl (by omega)
  · simp only [same, if_false, Nat.add_zero] at running unread
    constructor
    · simp only [running, Function.update_of_ne (Ne.symm same)]
      exact id
    · exact .inl (by omega)

theorem counts_advance {index : Nat} {owner : User} {body after : Subscription} {inner : SubscriptionAction}
    (found : s.streams[index]? = some ⟨owner, .started body⟩) (taken : subscriptionStep body inner = some after) (userId : User) :
    Counts s ⟨if body.reader.isOpen && !after.reader.isOpen then leave s.userStreams owner else s.userStreams,
      s.streams.set index ⟨owner, .started after⟩⟩ action userId := by
  obtain ⟨running, unread⟩ := @numbers_set _ _ s index _ ⟨owner, .started after⟩
    (if body.reader.isOpen && !after.reader.isOpen then leave s.userStreams owner else s.userStreams) found userId
  simp only [EventStream.waits, Nat.add_zero] at unread
  simp only [EventStream.runs] at running
  cases isOpen : body.reader.isOpen with
  | false =>
    have stillEnded := ended_step isOpen taken
    simp only [isOpen, stillEnded, Bool.false_and, Bool.false_eq_true, and_false, if_false, Nat.add_zero] at running unread ⊢
    exact ⟨fun isExact => by rw [running]; exact isExact, .inl (by omega)⟩
  | true =>
    cases stays : after.reader.isOpen with
    | true =>
      simp only [isOpen, stays, Bool.not_true, Bool.and_false, Bool.false_eq_true, and_true, if_false] at running unread ⊢
      have same := Nat.add_right_cancel running
      exact ⟨fun isExact => by rw [same]; exact isExact, .inl (by omega)⟩
    | false =>
      -- The `finally` of the body.
      simp only [isOpen, stays, Bool.not_false, Bool.and_true, and_true, Bool.false_eq_true, and_false, if_true, if_false, Nat.add_zero]
        at running unread ⊢
      by_cases same : owner = userId
      · subst same
        simp only [if_true] at running
        constructor
        · intro isExact
          have counter : leave s.userStreams owner owner = s.running owner - 1 := by
            simp only [leave, Function.update_self, isExact]
            split <;> omega
          simp only [counter]
          omega
        · exact .inl (by omega)
      · simp only [same, if_false, Nat.add_zero] at running
        constructor
        · intro isExact
          have counter : leave s.userStreams owner userId = s.userStreams userId := Function.update_of_ne (Ne.symm same) _ _
          simp only [counter, running]
          exact isExact
        · exact .inl (by omega)

theorem counts_discard {index : Nat} {owner : User} (found : s.streams[index]? = some ⟨owner, .opened⟩) (userId : User) :
    Counts s { s with streams := s.streams.set index ⟨owner, .discarded⟩ } action userId := by
  obtain ⟨running, unread⟩ := @numbers_set _ _ s index _ ⟨owner, .discarded⟩ s.userStreams found userId
  simp only [EventStream.runs, EventStream.waits, Nat.add_zero] at running unread
  exact ⟨fun isExact => by rw [running]; exact isExact, .inl (by omega)⟩

theorem counts_step (taken : tableStep s action = some next) (userId : User) : Counts s next action userId := by
  cases action with
  | openEventStream owner =>
    obtain ⟨-, taken⟩ := Option.ite_none_left_eq_some.mp taken
    cases taken
    exact counts_open owner userId
  | firstRead index live now revoked =>
    simp only [tableStep] at taken
    split at taken
    next owner found =>
      cases taken
      exact counts_firstRead found (start_isOpen live now revoked) userId
    next => cases taken
  | advance index inner =>
    simp only [tableStep] at taken
    split at taken
    next owner body found =>
      obtain ⟨after, isAfter, rfl⟩ := Option.map_eq_some_iff.mp taken
      exact counts_advance found isAfter userId
    next => cases taken
  | discard index =>
    simp only [tableStep] at taken
    split at taken
    next owner found =>
      cases taken
      exact counts_discard found userId
    next => cases taken

/-! ## The cap -/

theorem counter_exact (reachable : eventStreams.Reachable s) (userId : User) : s.userStreams userId = s.running userId := by
  refine Machine.invariant (fun s => s.userStreams userId = s.running userId) ?_ ?_ reachable
  · rintro _ rfl
    rfl
  · exact fun _ _ _ isExact _ taken => (counts_step taken userId).exact_ isExact

/-- While every opening finds room for the streams that are not read yet, there is room for all of them. -/
theorem room_kept (reachable : eventStreams.ReachableVia OpensInTurn s) (userId : User) :
    s.running userId + s.unread userId ≤ maxStreamsPerUser := by
  refine Machine.invariant (fun s => s.running userId + s.unread userId ≤ maxStreamsPerUser) ?_ ?_ reachable
  · rintro _ rfl
    exact Nat.zero_le _
  · intro s action next room inTurn taken
    rcases (counts_step taken userId).room with fewer | ⟨rfl, oneMore⟩
    · exact fewer.trans room
    · have isRoom : s.running userId + s.unread userId < maxStreamsPerUser := of_decide_eq_true inTurn
      omega

/-- A stream that is not read yet. -/
theorem exists_opened {userId : User} (some_ : s.unread userId ≠ 0) : ∃ index : Nat, s.streams[index]? = some ⟨userId, .opened⟩ := by
  obtain ⟨stream, listed, counts⟩ : ∃ stream ∈ s.streams, stream.waits userId ≠ 0 := by
    by_contra none
    push Not at none
    refine some_ (List.sum_eq_zero fun weight listed => ?_)
    obtain ⟨stream, inStreams, rfl⟩ := List.mem_map.mp listed
    exact none stream inStreams
  obtain ⟨index, found⟩ := List.mem_iff_getElem?.mp listed
  refine ⟨index, found.trans ?_⟩
  obtain ⟨owner, body⟩ := stream
  unfold EventStream.waits at counts
  split at counts
  next isOpened =>
    have same : owner = userId := by
      by_contra other
      exact counts (if_neg other)
    exact congrArg some (same ▸ isOpened ▸ rfl)
  next => exact absurd rfl counts

/-- The first reads of all the streams that are not read yet. -/
theorem all_read (s : StreamTable User) (userId : User) :
    ∃ later, eventStreams.Steps s later ∧ later.running userId = s.running userId + s.unread userId := by
  induction isCount : s.unread userId generalizing s with
  | zero => exact ⟨s, .refl, rfl⟩
  | succ count inductionHypothesis =>
    obtain ⟨index, found⟩ := exists_opened (by omega : s.unread userId ≠ 0)
    have taken : tableStep s (.firstRead index none 0 false) = some
        ⟨Function.update s.userStreams userId (s.userStreams userId + 1), s.streams.set index ⟨userId, .started (.start none 0 false)⟩⟩ := by
      simp only [tableStep, found]
    obtain ⟨running, unread⟩ := @numbers_set _ _ s index _ ⟨userId, .started (.start none 0 false)⟩
      (Function.update s.userStreams userId (s.userStreams userId + 1)) found userId
    simp only [EventStream.runs, EventStream.waits, start_isOpen, and_self, if_true, Nat.add_zero] at running unread
    obtain ⟨later, steps, all⟩ := inductionHypothesis
      ⟨Function.update s.userStreams userId (s.userStreams userId + 1), s.streams.set index ⟨userId, .started (.start none 0 false)⟩⟩ (by omega)
    exact ⟨later, .head ⟨.firstRead index none 0 false, taken⟩ steps, by omega⟩

/-- The counter of an account is the number of its started streams that have not ended, in every run.  That
number stays within the cap in the runs whose openings find room for the streams not read yet; after an
opening that does not, the first reads exceed it. -/
theorem open_stream_cap (reachable : eventStreams.Reachable s) (userId : User) :
    s.userStreams userId = s.running userId ∧
      (eventStreams.ReachableVia OpensInTurn s → s.running userId ≤ maxStreamsPerUser) ∧
      (∀ next, ¬ OpensInTurn s (.openEventStream userId) → eventStreams.step s (.openEventStream userId) = some next →
        ∃ later, eventStreams.Steps next later ∧ maxStreamsPerUser < later.running userId) := by
  refine ⟨counter_exact reachable userId, fun inTurn => (Nat.le_add_right _ _).trans (room_kept inTurn userId), ?_⟩
  intro next crowded taken
  obtain ⟨-, taken⟩ := Option.ite_none_left_eq_some.mp taken
  cases taken
  have full : maxStreamsPerUser ≤ s.running userId + s.unread userId := not_lt.mp fun room => crowded (decide_eq_true room)
  obtain ⟨later, steps, all⟩ := all_read { s with streams := s.streams ++ [⟨userId, .opened⟩] } userId
  obtain ⟨sameRunning, grows⟩ := numbers_open s userId userId
  rw [if_pos rfl] at grows
  exact ⟨later, steps, by omega⟩

end

/-- Two streams, one of which a browser leaves. -/
theorem open_stream_cap_two :
    ∃ s : StreamTable Nat, eventStreams.run ⟨fun _ => 0, []⟩
        [.openEventStream 7, .firstRead 0 none 0 false, .openEventStream 7, .firstRead 1 none 0 false, .advance 0 .drop] = some s ∧
      s.userStreams 7 = s.running 7 ∧ s.running 7 = 1 := by
  have ran : eventStreams.run (⟨fun _ => 0, []⟩ : StreamTable Nat)
      [.openEventStream 7, .firstRead 0 none 0 false, .openEventStream 7, .firstRead 1 none 0 false, .advance 0 .drop] = some _ := rfl
  exact ⟨_, ran, (open_stream_cap (Machine.reachable_of_run (.init rfl) ran) 7).1, rfl⟩

/-- Nine streams are opened before the first of them is read. -/
theorem nine_streams_run :
    ∃ s : StreamTable Nat, eventStreams.run ⟨fun _ => 0, []⟩ (List.replicate 9 (.openEventStream 7) ++
        (List.range 9).map fun stream => .firstRead stream none 0 false) = some s ∧
      s.userStreams 7 = 9 ∧ s.running 7 = 9 ∧ ¬ s.running 7 ≤ maxStreamsPerUser :=
  ⟨_, rfl, rfl, rfl, by decide⟩

end Oveo.Stream
