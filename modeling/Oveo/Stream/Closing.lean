import Mathlib.Algebra.Order.Ring.Rat
import Mathlib.Tactic.Linarith
import Oveo.Stream.Subscription

/-! # A sign-out ends the open streams

The close signal is sent after the commit of the sign-out, so a check of the session that starts later
says no.  `Subscription.left` bounds the steps that a stream takes on its own once the signal is in its
queue, and only before the last four of them it can still yield.  No event changes either. -/

namespace Oveo.Stream

open Oveo.Lib Oveo.Store

/-! ## Once the signal is in the queue -/

/-- The close signal is what the reader takes next. -/
def Reader.ClosesNext (reader : Reader) : Prop :=
  reader.pending = some .close ∨ reader.pending = none ∧ reader.queue.head? = some .close

def Reader.CloseWaits (reader : Reader) : Prop :=
  reader.pending = some .close ∨ reader.queue.head? = some .close

/-- The steps that a stream can still take on its own. -/
def Subscription.left (s : Subscription) : Nat :=
  match s.reader.phase with
  | .ended _ => 0
  | .waiting =>
    if s.listening then 8
    else
      match s.reader.pending with
      | some item => if item.isClose then 4 else 8
      | none => 4
  | .holding _ =>
    match s.check with
    | .undecided => if s.due then 3 else 7
    | .asked => 2
    | .answered valid => if valid then 7 else 1
  | .reading _ => 6
  | .fetched _ _ => 5

/-- What a stream can still yield. -/
def Subscription.allowance (s : Subscription) : Nat := if 5 ≤ s.left then 1 else 0

structure Closing (s : Subscription) : Prop where
  revoked : s.revoked = true
  signal : s.reader.isOpen = true → s.reader.CloseWaits

section

variable {s next : Subscription} {action : SubscriptionAction} {actions : List SubscriptionAction} {reader after : Reader} {item : StreamItem}
  {live : Option LiveGeneration} {shown : Snapshot} {row : Option StoredRow}

theorem waitTime_nonpos {now nextCheck : ℚ} (isOver : waitTime now nextCheck ≤ 0) : nextCheck ≤ now := by
  unfold waitTime keepaliveSeconds at isOver
  rcases min_le_iff.mp ((le_max_right _ _).trans isOver) with negative | passed
  · exact absurd negative (by norm_num)
  · exact sub_nonpos.mp passed

/-- Neither an offer nor an overflow removes a close signal that is next in the queue. -/
theorem offer_head {queue : List StreamItem} (isNext : queue.head? = some .close) (item : StreamItem) :
    (offer queue item).head? = some .close := by
  obtain ⟨rest, rfl⟩ := List.head?_eq_some_iff.mp isNext
  unfold offer
  split
  · rfl
  · simp [StreamItem.isClose]

theorem Reader.ClosesNext.waits (closesNext : reader.ClosesNext) : reader.CloseWaits :=
  closesNext.imp_right And.right

/-- A stream at rest that closes next yields nothing any more. -/
theorem left_le_of_closesNext (closesNext : s.reader.ClosesNext) (atRest : s.reader.AtRest)
    (notListening : s.listening = false) : s.left ≤ 4 := by
  unfold Subscription.left
  rcases atRest with waiting | ended
  · rw [waiting, notListening]
    rcases closesNext with pending | ⟨pending, -⟩ <;> simp [pending, StreamItem.isClose]
  · unfold Reader.isOpen at ended
    split at ended
    next isEnded => simp [isEnded]
    next => cases ended

/-! ## Rounds of a stream that closes -/

/-- What the reader makes of a snapshot: it rests, and has sent at most that. -/
theorem settle_rests (shown : Snapshot) (pending : reader.pending = none) (isNext : reader.queue.head? = some .close) :
    (reader.settle shown).ClosesNext ∧ (reader.settle shown).frames.length ≤ reader.frames.length + 1 := by
  unfold Reader.settle Reader.send
  split
  · exact ⟨.inr ⟨pending, isNext⟩, by simp⟩
  · exact ⟨.inr ⟨pending, isNext⟩, Nat.le_succ _⟩

/-- How a round ends that started with nothing put aside and the close signal next in the queue: it rests and
has yielded at most once, or is at the database and has yielded nothing. -/
structure RoundEnds (before : Reader) (comments : Nat) (after : Reader) : Prop where
  closesNext : after.ClosesNext
  rests : after.AtRest ∧ after.frames.length + comments ≤ before.frames.length + 1 ∨
    after.phase = .reading false ∧ after.pending = none ∧ after.frames = before.frames ∧ comments = 0

theorem refresh_ends (live : Option LiveGeneration) (pending : reader.pending = none) (isNext : reader.queue.head? = some .close) :
    RoundEnds reader 0 (reader.refresh live) := by
  unfold Reader.refresh
  split
  next live _ =>
    obtain ⟨closesNext, few⟩ := settle_rests live.snapshot pending isNext
    exact ⟨closesNext, .inl ⟨settle_atRest _ reader, few⟩⟩
  next => exact ⟨.inr ⟨pending, isNext⟩, .inr ⟨rfl, pending, rfl, rfl⟩⟩

theorem handle_ends (pending : reader.pending = none) (isNext : reader.queue.head? = some .close)
    (handled : reader.handle live = some after) : RoundEnds reader (if reader.isIdle && live.isSome then 1 else 0) after := by
  unfold Reader.handle at handled
  split at handled
  next holding =>
    have isIdle : reader.isIdle = true := by simp [Reader.isIdle, holding]
    split at handled
    next isLive =>
      cases handled
      exact ⟨.inr ⟨pending, isNext⟩, .inl ⟨.inl rfl, by simp [isIdle, isLive]⟩⟩
    next noLive =>
      cases handled
      simp only [noLive, Bool.and_false]
      exact refresh_ends live pending isNext
  next delta holding =>
    have notIdle : reader.isIdle = false := by simp [Reader.isIdle, holding]
    simp only [notIdle, Bool.false_and]
    split at handled
    next =>
      cases handled
      exact ⟨.inr ⟨pending, isNext⟩, .inl ⟨.inl rfl, Nat.le_succ _⟩⟩
    next =>
      split at handled
      next =>
        cases handled
        exact refresh_ends live pending isNext
      next =>
        -- Coalescing puts the close signal aside.
        obtain ⟨rest, isQueue⟩ := List.head?_eq_some_iff.mp isNext
        cases handled
        simp only [isQueue, coalesce]
        exact ⟨.inl rfl, .inl ⟨.inl rfl, by simp⟩⟩
  next holding =>
    have notIdle : reader.isIdle = false := by simp [Reader.isIdle, holding]
    cases handled
    simp only [notIdle, Bool.false_and]
    exact refresh_ends live pending isNext
  next => cases handled


theorem deliver_ends (pending : reader.pending = none) (isNext : reader.queue.head? = some .close) (delivered : reader.deliver = some after) :
    after.ClosesNext ∧ after.frames.length ≤ reader.frames.length + 1 := by
  unfold Reader.deliver at delivered
  split at delivered <;> cases delivered
  · exact ⟨.inr ⟨pending, isNext⟩, Nat.le_succ _⟩
  · exact ⟨.inr ⟨pending, isNext⟩, by simp [Reader.send]⟩
  · exact settle_rests _ pending isNext

/-! ## Steps -/

/-- What a step does to a stream that closes. -/
structure Advances (own : Bool) (s next : Subscription) : Prop where
  closing : Closing next
  left : if own then next.left < s.left else next.left ≤ s.left
  yielded : next.yielded + next.allowance ≤ s.yielded + s.allowance

theorem allowance_mono (fewer : next.left ≤ s.left) : next.allowance ≤ s.allowance := by
  unfold Subscription.allowance
  split <;> split <;> omega

theorem Advances.silent (closing : Closing next) (fewer : next.left < s.left) (same : next.yielded = s.yielded) : Advances true s next :=
  ⟨closing, fewer, same ▸ Nat.add_le_add_left (allowance_mono fewer.le) _⟩

theorem Advances.other (closing : Closing next) (fewer : next.left ≤ s.left) (same : next.yielded = s.yielded) : Advances false s next :=
  ⟨closing, fewer, same ▸ Nat.add_le_add_left (allowance_mono fewer) _⟩

/-- Inside a round nothing is put aside, and the close signal is next in the queue. -/
theorem Closing.inside (closing : Closing s) (placed : Placed s) (isOpen : s.reader.isOpen = true) (notWaiting : s.reader.phase ≠ .waiting) :
    s.reader.pending = none ∧ s.reader.queue.head? = some .close ∧ s.listening = false := by
  obtain ⟨pending, notListening⟩ := placed.quiet isOpen notWaiting
  rcases closing.signal isOpen with isPending | isNext
  · rw [pending] at isPending
    cases isPending
  · exact ⟨pending, isNext, notListening⟩

theorem Closing.ended (revoked : next.revoked = true) (ended : next.reader.isOpen = false) : Closing next where
  revoked := revoked
  signal := fun isOpen => by
    rw [ended] at isOpen
    cases isOpen

theorem left_of_ended (ended : s.reader.isOpen = false) : s.left = 0 := by
  unfold Reader.isOpen at ended
  unfold Subscription.left
  split at ended
  next isEnded => rw [isEnded]
  next => cases ended

/-- A stream that rests after it yielded at most once. -/
theorem Advances.rests (revoked : next.revoked = true) (notListening : next.listening = false) (closesNext : next.reader.ClosesNext)
    (atRest : next.reader.AtRest) (few : next.yielded ≤ s.yielded + 1) (more : 5 ≤ s.left) :
    Advances true s next := by
  have last := left_le_of_closesNext closesNext atRest notListening
  have none : next.allowance = 0 := if_neg (by omega)
  have one : s.allowance = 1 := if_pos more
  refine ⟨⟨revoked, fun _ => closesNext.waits⟩, ?_, by omega⟩
  simp only [if_true]
  omega

theorem Closing.handle (closing : Closing s) (placed : Placed s) {held : Option StreamItem} (holding : s.reader.phase = .holding held) (isLeft : s.left = 7)
    (handled : s.handle live = some next) : Advances true s next := by
  have isOpen : s.reader.isOpen = true := by simp [Reader.isOpen, holding]
  obtain ⟨pending, isNext, notListening⟩ := closing.inside placed isOpen (by simp [holding])
  obtain ⟨after, isAfter, rfl⟩ := Option.map_eq_some_iff.mp handled
  obtain ⟨closesNext, ⟨atRest, few⟩ | ⟨reading, nonePending, sameFrames, noComment⟩⟩ := handle_ends pending isNext isAfter
  · refine .rests closing.revoked notListening closesNext atRest ?_ (by omega)
    simp only [Subscription.yielded]
    split at few
    next comment =>
      rw [if_pos comment]
      omega
    next comment =>
      rw [if_neg comment]
      omega
  · have silent : (s.reader.isIdle && live.isSome) = false := by
      rcases Bool.eq_false_or_eq_true (s.reader.isIdle && live.isSome) with comment | silent
      · rw [if_pos comment] at noComment
        cases noComment
      · exact silent
    refine .silent ⟨closing.revoked, fun _ => closesNext.waits⟩ ?_ ?_
    · rw [isLeft]
      simp [Subscription.left, reading]
    · simp [Subscription.yielded, sameFrames, silent]

theorem Closing.deliver (closing : Closing s) (placed : Placed s) (delivered : s.deliver = some next) : Advances true s next := by
  obtain ⟨after, isAfter, rfl⟩ := Option.map_eq_some_iff.mp delivered
  obtain ⟨first, row, fetched⟩ := fetched_of_deliver isAfter
  obtain ⟨pending, isNext, notListening⟩ := closing.inside placed (by simp [Reader.isOpen, fetched]) (by simp [fetched])
  obtain ⟨closesNext, few⟩ := deliver_ends pending isNext isAfter
  refine .rests closing.revoked notListening closesNext (deliver_atRest isAfter) ?_ (by simp [Subscription.left, fetched])
  simp only [Subscription.yielded]
  split
  next comment =>
    simp only [Bool.and_eq_true, beq_iff_eq] at comment
    omega
  next => omega

/-- An item is taken: the close signal ends the stream, and any other was put aside before it came. -/
theorem Closing.take (closing : Closing s) (placed : Placed s) (waiting : s.reader.phase = .waiting) (taken : s.obtain Reader.take = some next) :
    Advances true s next := by
  have isOpen : s.reader.isOpen = true := by simp [Reader.isOpen, waiting]
  obtain ⟨after, isAfter, rfl⟩ := Option.map_eq_some_iff.mp taken
  unfold Reader.take at isAfter
  rw [waiting] at isAfter
  cases isPending : s.reader.pending with
  | some item =>
    simp only [isPending, Option.some.injEq] at isAfter
    subst isAfter
    have notListening : s.listening = false := by
      rcases placed.inside isOpen with ⟨-, notListening⟩ | ⟨-, isNone | notListening⟩
      · exact notListening
      · rw [isPending] at isNone
        cases isNone
      · exact notListening
    cases isClose : item.isClose with
    | true =>
      have ended : ({ s.reader with pending := none }.receive item).isOpen = false := by simp [Reader.receive, Reader.isOpen, isClose]
      refine .silent (.ended closing.revoked ended) ?_ rfl
      rw [left_of_ended ended]
      simp [Subscription.left, waiting, notListening, isPending, isClose]
    | false =>
      have isNext : s.reader.queue.head? = some .close := by
        rcases closing.signal isOpen with same | isNext
        · rw [isPending, Option.some.injEq] at same
          rw [same] at isClose
          cases isClose
        · exact isNext
      refine .silent ⟨closing.revoked, fun _ => .inr isNext⟩ ?_ rfl
      simp only [Subscription.left, Reader.receive, waiting, notListening, isPending, isClose, Bool.false_eq_true, if_false]
      split <;> decide
  | none =>
    have isNext : s.reader.queue.head? = some .close := by
      rcases closing.signal isOpen with same | isNext
      · rw [isPending] at same
        cases same
      · exact isNext
    obtain ⟨rest, isQueue⟩ := List.head?_eq_some_iff.mp isNext
    simp only [isPending, isQueue, Option.some.injEq] at isAfter
    subst isAfter
    refine .silent (.ended closing.revoked rfl) ?_ rfl
    rw [left_of_ended rfl]
    simp only [Subscription.left, waiting, isPending]
    split <;> decide

/-- `wait_for` gives up; where it did not listen, the check of the session is due. -/
theorem Closing.timeout (closing : Closing s) (wasListening : s.listening = true ∨ s.due = true)
    (waited : s.obtain Reader.timeout = some next) : Advances true s next := by
  obtain ⟨after, isAfter, rfl⟩ := Option.map_eq_some_iff.mp waited
  unfold Reader.timeout at isAfter
  split at isAfter
  next waiting isPending =>
    cases isAfter
    have isOpen : s.reader.isOpen = true := by simp [Reader.isOpen, waiting]
    refine .silent ⟨closing.revoked, fun _ => closing.signal isOpen⟩ ?_ rfl
    simp only [Subscription.left, waiting, isPending]
    rcases wasListening with listening | due
    · rw [if_pos listening]
      split <;> decide
    · rw [if_pos (by exact due)]
      split <;> decide
  next => cases isAfter

theorem Closing.round (closing : Closing s) (placed : Placed s) (waiting : s.reader.phase = .waiting) {nextCheck : ℚ} (isTime : s.nextCheck = some nextCheck)
    (taken : s.round nextCheck = some next) : Advances true s next := by
  unfold Subscription.round at taken
  split at taken
  next => exact closing.take placed waiting taken
  next isPending =>
    split at taken
    next isOver =>
      refine closing.timeout (.inr ?_) taken
      simp only [Subscription.due, isTime]
      exact decide_eq_true (waitTime_nonpos isOver)
    next =>
      split at taken
      next isEmpty =>
        -- The signal is in the queue.
        rcases closing.signal (by simp [Reader.isOpen, waiting]) with same | isNext
        · rw [same] at isPending
          exact absurd rfl isPending
        · rw [List.isEmpty_iff.mp isEmpty] at isNext
          cases isNext
      next => exact closing.take placed waiting taken

/-- The time of the next check changes nothing in a stream that waits. -/
theorem Closing.resume (closing : Closing s) (placed : Placed s) (resumed : s.resume = some next) : Advances true s next := by
  unfold Subscription.resume at resumed
  split at resumed
  next waiting =>
    obtain ⟨-, resumed⟩ := Option.ite_none_left_eq_some.mp resumed
    have timed (time : ℚ) : Closing { s with nextCheck := some time } := ⟨closing.revoked, closing.signal⟩
    have sameLeft (time : ℚ) : ({ s with nextCheck := some time } : Subscription).left = s.left := by
      simp only [Subscription.left, waiting]
    have advances := (timed _).round ⟨placed.inside, placed.held⟩ waiting rfl resumed
    refine ⟨advances.closing, ?_, ?_⟩
    · exact sameLeft _ ▸ advances.left
    · have more := advances.yielded
      simp only [Subscription.allowance, sameLeft] at more
      exact more
  next => cases resumed

theorem waiting_of_wake (taken : s.obtain Reader.take = some next) : s.reader.phase = .waiting := by
  obtain ⟨after, isAfter, -⟩ := Option.map_eq_some_iff.mp taken
  unfold Reader.take at isAfter
  split at isAfter
  next waiting _ => exact waiting
  next waiting _ _ => exact waiting
  next => cases isAfter

theorem Closing.offer (closing : Closing s) (item : StreamItem) : Advances false s { s with reader := s.reader.offered item } := by
  unfold Reader.offered
  split
  next =>
    have signal (isOpen : s.reader.isOpen = true) : ({ s.reader with queue := Stream.offer s.reader.queue item } : Reader).CloseWaits :=
      (closing.signal isOpen).imp_right fun isNext => offer_head isNext item
    exact .other ⟨closing.revoked, signal⟩ (Nat.le_refl _) rfl
  next => exact .other closing (Nat.le_refl _) rfl

/-- Time that passes can only make a check due. -/
theorem Closing.pass (closing : Closing s) {now : ℚ} (later : s.now ≤ now) : Advances false s { s with now } := by
  refine .other ⟨closing.revoked, closing.signal⟩ ?_ rfl
  simp only [Subscription.left]
  split
  · exact Nat.le_refl _
  · exact Nat.le_refl _
  · split
    · have stillDue : s.due = true → ({ s with now } : Subscription).due = true := by
        cases isTime : s.nextCheck with
        | some time =>
          simp only [Subscription.due, isTime, decide_eq_true_eq]
          exact fun isOver => isOver.trans later
        | none => simp [Subscription.due, isTime]
      split <;> split <;> simp_all
    · exact Nat.le_refl _
    · exact Nat.le_refl _
  · exact Nat.le_refl _
  · exact Nat.le_refl _

theorem closing_step (closing : Closing s) (placed : Placed s) (taken : subscriptionStep s action = some next) : Advances action.isOwn s next := by
  cases action with
  | pass now =>
    obtain ⟨later, taken⟩ := Option.ite_none_right_eq_some.mp taken
    cases taken
    exact closing.pass later
  | offer item =>
    cases taken
    exact closing.offer item
  | revokeSession =>
    cases taken
    exact .other ⟨rfl, closing.signal⟩ (Nat.le_refl _) rfl
  | closeSession =>
    obtain ⟨-, taken⟩ := Option.ite_none_right_eq_some.mp taken
    obtain ⟨after, isAfter, rfl⟩ := Option.map_eq_some_iff.mp taken
    obtain ⟨-, isAfter⟩ := Option.ite_none_right_eq_some.mp isAfter
    cases isAfter
    exact .other ⟨closing.revoked, fun _ => .inr rfl⟩ (Nat.le_refl _) rfl
  | drop =>
    obtain ⟨after, isAfter, rfl⟩ := Option.map_eq_some_iff.mp taken
    obtain ⟨-, isAfter⟩ := Option.ite_none_right_eq_some.mp isAfter
    cases isAfter
    exact .other (.ended closing.revoked rfl) (Nat.zero_le _) rfl
  | resume => exact closing.resume placed taken
  | wake =>
    obtain ⟨-, taken⟩ := Option.ite_none_right_eq_some.mp taken
    exact closing.take placed (waiting_of_wake taken) taken
  | expire =>
    obtain ⟨listening, taken⟩ := Option.ite_none_right_eq_some.mp taken
    exact closing.timeout (.inl listening) taken
  | compare live =>
    simp only [subscriptionStep] at taken
    split at taken
    next held holding undecided =>
      split at taken
      next due =>
        cases taken
        refine .silent ⟨closing.revoked, closing.signal⟩ ?_ rfl
        simp [Subscription.left, holding, undecided, due]
      next notDue => exact closing.handle placed holding (by simp [Subscription.left, holding, undecided, notDue]) taken
    next => cases taken
  | answer valid =>
    simp only [subscriptionStep] at taken
    split at taken
    next held holding asked =>
      -- The sign-out was committed before the signal was sent.
      obtain ⟨notValid, taken⟩ := Option.ite_none_left_eq_some.mp taken
      cases taken
      refine .silent ⟨closing.revoked, closing.signal⟩ ?_ rfl
      have isInvalid : valid = false := by simpa [closing.revoked] using notValid
      simp [Subscription.left, holding, asked, isInvalid]
    next => cases taken
  | checked live =>
    simp only [subscriptionStep] at taken
    split at taken
    next held holding answered =>
      have isLeft : s.left = 7 := by simp [Subscription.left, holding, answered]
      have timed : Closing { s with nextCheck := some (s.now + sessionCheckSeconds) } := ⟨closing.revoked, closing.signal⟩
      have sameLeft : ({ s with nextCheck := some (s.now + sessionCheckSeconds) } : Subscription).left = s.left := by
        simp only [Subscription.left, holding, answered]
      have advances := timed.handle ⟨placed.inside, placed.held⟩ holding (sameLeft.trans isLeft) taken
      refine ⟨advances.closing, sameLeft ▸ advances.left, ?_⟩
      have more := advances.yielded
      simp only [Subscription.allowance, sameLeft] at more
      exact more
    next held holding answered =>
      obtain ⟨after, isAfter, rfl⟩ := Option.map_eq_some_iff.mp taken
      simp only [Reader.revoke, holding, Option.some.injEq] at isAfter
      subst isAfter
      refine .silent (.ended closing.revoked rfl) ?_ rfl
      simp [Subscription.left, holding, answered]
    next => cases taken
  | readRow row =>
    obtain ⟨after, isAfter, rfl⟩ := Option.map_eq_some_iff.mp taken
    unfold Reader.readRow at isAfter
    split at isAfter
    next first reading =>
      cases isAfter
      obtain ⟨-, isNext, -⟩ := closing.inside placed (by simp [Reader.isOpen, reading]) (by simp [reading])
      refine .silent ⟨closing.revoked, fun _ => .inr isNext⟩ ?_ rfl
      simp [Subscription.left, reading]
    next => cases isAfter
  | deliver => exact closing.deliver placed taken

theorem obtain_isSome (move : Reader → Option Reader) : (s.obtain move).isSome = (move s.reader).isSome := by
  simp [Subscription.obtain]

theorem take_isSome (waiting : reader.phase = .waiting) (closeWaits : reader.CloseWaits) : reader.take.isSome = true := by
  unfold Reader.take
  rw [waiting]
  cases isPending : reader.pending with
  | some item => rfl
  | none =>
    rcases closeWaits with same | isNext
    · rw [isPending] at same
      cases same
    · obtain ⟨rest, isQueue⟩ := List.head?_eq_some_iff.mp isNext
      rw [isQueue]
      rfl

theorem handle_isSome {held : Option StreamItem} (holding : s.reader.phase = .holding held) (notClose : held ≠ some .close)
    (live : Option LiveGeneration) : (s.handle live).isSome = true := by
  unfold Subscription.handle Reader.handle
  rw [holding]
  cases held with
  | none =>
    simp only [Option.isSome_map]
    split <;> rfl
  | some item =>
    cases item with
    | close => exact absurd rfl notClose
    | resync => rfl
    | delta delta =>
      simp only [Option.isSome_map]
      split
      · rfl
      · split <;> rfl

theorem round_isSome (waiting : s.reader.phase = .waiting) (closeWaits : s.reader.CloseWaits) (nextCheck : ℚ) :
    (s.round nextCheck).isSome = true := by
  have taken : (s.obtain Reader.take).isSome = true := (obtain_isSome _).trans (take_isSome waiting closeWaits)
  unfold Subscription.round
  split
  next => exact taken
  next isPending =>
    have isNone : s.reader.pending = none := by simpa using isPending
    split
    next =>
      rw [obtain_isSome, Reader.timeout, waiting, isNone]
      rfl
    next =>
      split
      next => rfl
      next => exact taken

/-- A stream that closes never has to wait for an event. -/
theorem Closing.enabled (closing : Closing s) (placed : Placed s) (isOpen : s.reader.isOpen = true) :
    ∃ action, action.isOwn = true ∧ (subscriptionStep s action).isSome = true := by
  cases phase : s.reader.phase with
  | waiting =>
    cases listening : s.listening with
    | true =>
      refine ⟨.wake, rfl, ?_⟩
      rw [subscriptionStep, if_pos listening, obtain_isSome]
      exact take_isSome phase (closing.signal isOpen)
    | false =>
      refine ⟨.resume, rfl, ?_⟩
      simp only [subscriptionStep, Subscription.resume, phase, listening, Bool.false_eq_true, if_false]
      exact @round_isSome { s with nextCheck := some _, listening := false } phase (closing.signal isOpen) _
  | holding held =>
    have notClose : held ≠ some .close := fun isClose => placed.held (isClose ▸ phase)
    cases check : s.check with
    | undecided =>
      refine ⟨.compare none, rfl, ?_⟩
      simp only [subscriptionStep, phase, check]
      split
      · rfl
      · exact handle_isSome phase notClose none
    | asked => exact ⟨.answer false, rfl, by simp [subscriptionStep, phase, check]⟩
    | answered valid =>
      refine ⟨.checked none, rfl, ?_⟩
      cases valid with
      | true =>
        simp only [subscriptionStep, phase, check]
        exact handle_isSome (by exact phase) notClose none
      | false => simp [subscriptionStep, phase, check, Subscription.onReader, Reader.revoke]
  | reading first => exact ⟨.readRow none, rfl, by simp [subscriptionStep, Subscription.onReader, Reader.readRow, phase]⟩
  | fetched first row =>
    refine ⟨.deliver, rfl, ?_⟩
    simp only [subscriptionStep, Subscription.deliver, Option.isSome_map, Reader.deliver, phase]
    cases row <;> cases first <;> rfl
  | ended how => simp [Reader.isOpen, phase] at isOpen

/-! ## Runs -/

theorem closing_run (closing : Closing s) (placed : Placed s) (ran : subscription.run s actions = some next) :
    Closing next ∧ Placed next ∧ next.left + actions.countP SubscriptionAction.isOwn ≤ s.left ∧
      next.yielded + next.allowance ≤ s.yielded + s.allowance := by
  induction actions generalizing s with
  | nil =>
    cases ran
    exact ⟨closing, placed, Nat.le_refl _, Nat.le_refl _⟩
  | cons action actions inductionHypothesis =>
    simp only [Machine.run] at ran
    split at ran
    next middle taken =>
      obtain ⟨closes, fewer, less⟩ := closing_step closing placed taken
      obtain ⟨stillCloses, isPlaced, left, yielded⟩ := inductionHypothesis closes (placed_step placed taken) ran
      refine ⟨stillCloses, isPlaced, ?_, yielded.trans less⟩
      rw [List.countP_cons]
      split at fewer <;> simp_all <;> omega
    next => cases ran

theorem left_le (s : Subscription) : s.left ≤ 8 := by
  unfold Subscription.left
  split
  · decide
  · split
    · decide
    · split
      · split <;> decide
      · decide
  · split
    · split <;> decide
    · decide
    · split <;> decide
  · decide
  · decide

/-- Once the streams of its session are closed, a stream yields at most once more, whatever else happens;
the signal waits for it until it ends, it takes at most eight more steps, and one of them is always possible. -/
theorem session_close_reaches {closed later : Subscription} (reachable : subscription.Reachable s)
    (closes : subscription.step s .closeSession = some closed) (ran : subscription.run closed actions = some later) :
    later.yielded ≤ closed.yielded + 1 ∧ actions.countP SubscriptionAction.isOwn ≤ 8 ∧
      (later.reader.isOpen = true → later.reader.CloseWaits ∧
        ∃ action, action.isOwn = true ∧ (subscription.step later action).isSome = true) := by
  have isPlaced : Placed closed := reachable_placed (Machine.reachable_step reachable closes)
  have closing : Closing closed := by
    obtain ⟨revoked, closes⟩ := Option.ite_none_right_eq_some.mp closes
    obtain ⟨after, isAfter, rfl⟩ := Option.map_eq_some_iff.mp closes
    obtain ⟨-, isAfter⟩ := Option.ite_none_right_eq_some.mp isAfter
    cases isAfter
    exact ⟨revoked, fun _ => .inr rfl⟩
  obtain ⟨stillCloses, stillPlaced, left, yielded⟩ := closing_run closing isPlaced ran
  have few := left_le closed
  have once : closed.allowance ≤ 1 := by
    unfold Subscription.allowance
    split <;> omega
  exact ⟨by omega, by omega, fun isOpen => ⟨stillCloses.signal isOpen, stillCloses.enabled stillPlaced isOpen⟩⟩

end

/-- A sign-out while the stream reads its first snapshot, which it still sends. -/
theorem session_close_reaches_snapshot :
    ∃ s closed later, subscription.run (.start none 0 false) [.offer .resync, .revokeSession] = some s ∧
      subscription.step s .closeSession = some closed ∧
      subscription.run closed [.offer .resync, .readRow (some ⟨.running, [], 3⟩), .deliver, .offer .resync] = some later ∧
      later.yielded ≤ closed.yielded + 1 ∧ closed.yielded = 0 ∧ later.yielded = 1 := by
  have ran : subscription.run (.start none 0 false) [.offer .resync, .revokeSession] = some _ := rfl
  have reachable := Machine.reachable_of_run (.init (Exists.intro none ⟨0, false, rfl⟩)) ran
  refine ⟨_, _, _, ran, rfl, rfl, ?_, rfl, rfl⟩
  exact (@session_close_reaches _ [.offer .resync, .readRow (some ⟨.running, [], 3⟩), .deliver, .offer .resync] _ _ reachable rfl rfl).1

end Oveo.Stream
