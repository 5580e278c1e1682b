import Oveo.Login.FailureRate

/-! # The announced wait

`retry_after` announces when the oldest failure of a queue that reached its limit expires.  A queue that
grew past its limit is still full then; the failure whose expiry brings it below the limit is its
limit-th newest. -/

namespace Oveo.Login

open Oveo.Lib

variable {Client : Type} [DecidableEq Client]

/-- The queues a client is held back for, each with its limit: what is in the window of the failures of
all, and of its own. -/
def heldBackBy (settings : GuardSettings) (client : Client) (now : ℚ) (table : FailureTable Client) : List (Nat × List ℚ) :=
  [(settings.globalLimit, timesAfter (now - settings.window) table.global),
    (settings.clientLimit, timesAfter (now - settings.window) (table.failuresOf client))]

/-- The failure that brings a full queue below its limit expires by the first whole second, counted from
now, after the oldest failure of a full queue does. -/
def WaitCovers (settings : GuardSettings) (client : Client) (now : ℚ) (table : FailureTable Client) : Prop :=
  ∀ queue ∈ heldBackBy settings client now table, ∀ critical, queue.1 ≤ queue.2.length →
    queue.2[queue.2.length - queue.1]? = some critical →
    ∃ full ∈ heldBackBy settings client now table, full.1 ≤ full.2.length ∧
      ∃ oldest, full.2.head? = some oldest ∧ critical + settings.window - now ≤ ⌊oldest + settings.window - now⌋ + 1

section

variable {settings : GuardSettings} {calls : List (ℚ × GuardCall Client)} {now later : ℚ} {client other : Client}
  {table : FailureTable Client} {queue : Nat × List ℚ}

theorem heldBackBy_pos (listed : queue ∈ heldBackBy settings client now table) : 0 < queue.1 := by
  rcases List.mem_cons.mp listed with rfl | listed
  · exact settings.global_pos
  · rw [List.mem_singleton.mp listed]
    exact settings.client_pos

/-- Where no queue is longer than its limit, the oldest failure is the one that matters. -/
theorem WaitCovers.of_within (within : ∀ queue ∈ heldBackBy settings client now table, queue.2.length ≤ queue.1) :
    WaitCovers settings client now table := by
  intro queue listed critical enough isCritical
  have exact : queue.2.length - queue.1 = 0 := Nat.sub_eq_zero_of_le (within queue listed)
  rw [exact, ← List.head?_eq_getElem?] at isCritical
  exact ⟨queue, listed, enough, critical, isCritical, (Int.lt_floor_add_one _).le⟩

/-! ## Queues of a table -/

/-- What the queues of a table hold has been recorded, in this order. -/
structure TableRecorded (calls : List (ℚ × GuardCall Client)) (table : FailureTable Client) : Prop where
  keys : (table.clients.map Prod.fst).Nodup
  global : table.global.Sublist (recorded calls)
  clients : ∀ client, (table.failuresOf client).Sublist (recordedOf client calls)

theorem expire_sublist (bound : ℚ) (times : List ℚ) : (expire bound times).Sublist times := List.dropWhile_sublist _

theorem TableRecorded.retryAfter (recorded : TableRecorded calls table) (client : Client) (now : ℚ) :
    TableRecorded (calls ++ [(now, .retryAfter client)]) (table.retryAfter settings client now).2 := by
  constructor
  · exact keys_retryAfter client now table ▸ recorded.keys
  · rw [recorded_concat_retry]
    exact (expire_sublist _ _).trans recorded.global
  · intro other
    rw [recordedOf_concat_retry, failuresOf_retryAfter]
    split
    next same => exact same ▸ (expire_sublist _ _).trans (recorded.clients other)
    next => exact recorded.clients other

theorem TableRecorded.recordFailure (recorded : TableRecorded calls table) (client : Client) (now : ℚ) :
    TableRecorded (calls ++ [(now, .recordFailure client)]) (table.recordFailure client now) := by
  have keys := keys_withFailure recorded.keys client now
  have withFailure (other : Client) : ((table.withFailure client now).failuresOf other).Sublist
      (recordedOf other (calls ++ [(now, .recordFailure client)])) := by
    rw [failuresOf_withFailure, recordedOf_concat_failure]
    split
    next same => exact same ▸ (recorded.clients client).append (List.Sublist.refl _)
    next => exact recorded.clients other
  constructor
  · rw [clients_recordFailure]
    exact keys.sublist ((List.drop_sublist _ _).map _)
  · rw [recorded_concat_failure]
    exact recorded.global.append (List.Sublist.refl _)
  · intro other
    have kept := withFailure other
    unfold FailureTable.failuresOf at kept ⊢
    rw [clients_recordFailure]
    rcases queueOf?_drop keys _ other with same | ⟨isNone, -⟩
    · rwa [same]
    · rw [isNone]
      exact List.nil_sublist _

theorem tableRecorded_replay (settings : GuardSettings) (calls : List (ℚ × GuardCall Client)) :
    TableRecorded calls (FailureTable.replay settings calls) := by
  induction calls using List.reverseRecOn with
  | nil => exact ⟨List.nodup_nil, List.Sublist.refl _, fun _ => List.nil_sublist _⟩
  | append_singleton calls call inductionHypothesis =>
    obtain ⟨time, call⟩ := call
    rw [FailureTable.replay, List.foldl_append]
    cases call with
    | retryAfter client => exact inductionHypothesis.retryAfter client time
    | recordFailure client => exact inductionHypothesis.recordFailure client time

/-- Whether a client is let in depends on what is in the window. -/
theorem retryAfter_eq_none_iff_window (global : table.global.Pairwise (· ≤ ·)) (own : (table.failuresOf client).Pairwise (· ≤ ·)) :
    (table.retryAfter settings client now).1 = none ↔
      ∀ queue ∈ heldBackBy settings client now table, queue.2.length < queue.1 := by
  rw [retryAfter_eq_none_iff, expire_eq_timesAfter global, expire_eq_timesAfter own]
  simp [heldBackBy]

/-- A check leaves what any later window holds. -/
theorem timesAfter_retryAfter (notBefore : now ≤ later) (table : FailureTable Client) :
    timesAfter (later - settings.window) (table.retryAfter settings client now).2.global =
        timesAfter (later - settings.window) table.global ∧
      ∀ other, timesAfter (later - settings.window) ((table.retryAfter settings client now).2.failuresOf other) =
        timesAfter (later - settings.window) (table.failuresOf other) := by
  have same (times : List ℚ) : timesAfter (later - settings.window) (expire (now - settings.window) times) =
      timesAfter (later - settings.window) times :=
    ((Keeps.refl _ times).expire.mono (sub_le_sub_right notBefore _)).timesAfter_eq
  refine ⟨same table.global, fun other => ?_⟩
  rw [failuresOf_retryAfter]
  split
  next isClient => rw [same, isClient]
  next => rfl

/-! ## The wait -/

theorem mem_waitOf {limit : Nat} {failures : List ℚ} {wait : ℚ} :
    wait ∈ waitOf settings limit now failures ↔
      limit ≤ failures.length ∧ ∃ oldest, failures.head? = some oldest ∧ wait = oldest + settings.window - now := by
  unfold waitOf
  split
  next enough => simp [enough, eq_comm]
  next few => simp [few]

/-- What `retry_after` announces: until the oldest failure of a full queue has expired, the later one
where both queues are full, in whole seconds. -/
theorem announced_wait {wait : Int} (global : table.global.Pairwise (· ≤ ·)) (own : (table.failuresOf client).Pairwise (· ≤ ·))
    (announced : (table.retryAfter settings client now).1 = some wait) :
    ∃ longest, 0 ≤ longest ∧ wait = ⌊longest⌋ + 1 ∧
      (∃ full ∈ heldBackBy settings client now table, full.1 ≤ full.2.length ∧
        ∃ oldest, full.2.head? = some oldest ∧ longest = oldest + settings.window - now) ∧
      ∀ full ∈ heldBackBy settings client now table, full.1 ≤ full.2.length → ∀ oldest, full.2.head? = some oldest →
        oldest + settings.window - now ≤ longest := by
  have member (wait : ℚ) : wait ∈ table.waits settings client now ↔
      ∃ full ∈ heldBackBy settings client now table, full.1 ≤ full.2.length ∧
        ∃ oldest, full.2.head? = some oldest ∧ wait = oldest + settings.window - now := by
    rw [waits_eq, expire_eq_timesAfter global, expire_eq_timesAfter own, List.mem_append, mem_waitOf, mem_waitOf]
    simp [heldBackBy]
  rw [FailureTable.retryAfter, Option.map_eq_some_iff] at announced
  obtain ⟨longest, isMax, rfl⟩ := announced
  obtain ⟨isWait, isLongest⟩ := List.max?_eq_some_iff.mp isMax
  obtain ⟨full, listed, enough, oldest, isOldest, rfl⟩ := (member longest).mp isWait
  -- The oldest failure is inside the window, so the wait is positive.
  have inside : now - settings.window < oldest := by
    have isFailure := List.mem_of_head? isOldest
    rcases List.mem_cons.mp listed with rfl | listed
    · simpa using (List.mem_filter.mp isFailure).2
    · rw [List.mem_singleton.mp listed] at isFailure
      simpa using (List.mem_filter.mp isFailure).2
  have positive : 0 ≤ oldest + settings.window - now := by linarith
  refine ⟨_, positive, ?_, ⟨full, listed, enough, oldest, isOldest, rfl⟩, fun other inQueues enough oldest isOldest => ?_⟩
  · have floor : 0 ≤ ⌊oldest + settings.window - now⌋ := Int.floor_nonneg.mpr positive
    rw [truncate, if_pos positive]
    omega
  · exact isLongest _ ((member _).mpr ⟨other, inQueues, enough, oldest, isOldest, rfl⟩)

/-- The checks of a window later find what the failures before them left in it. -/
theorem timesAfter_replay {checks : List (ℚ × GuardCall Client)} (noFailure : ∀ check ∈ checks, ∃ client, check.2 = .retryAfter client)
    (notBefore : ∀ check ∈ checks, check.1 ≤ later) (table : FailureTable Client) :
    timesAfter (later - settings.window) (checks.foldl (FailureTable.after settings) table).global =
        timesAfter (later - settings.window) table.global ∧
      ∀ other, timesAfter (later - settings.window) ((checks.foldl (FailureTable.after settings) table).failuresOf other) =
        timesAfter (later - settings.window) (table.failuresOf other) := by
  induction checks generalizing table with
  | nil => exact ⟨rfl, fun _ => rfl⟩
  | cons check checks inductionHypothesis =>
    obtain ⟨⟨client, isCheck⟩, noneLater⟩ := List.forall_mem_cons.mp noFailure
    obtain ⟨first, others⟩ := List.forall_mem_cons.mp notBefore
    obtain ⟨time, call⟩ := check
    cases isCheck
    obtain ⟨global, own⟩ := @timesAfter_retryAfter _ _ settings _ _ client first table
    obtain ⟨globalRest, ownRest⟩ := inductionHypothesis noneLater others (table.retryAfter settings client time).2
    exact ⟨globalRest.trans global, fun other => (ownRest other).trans (own other)⟩

end

/-- Five failures within half a second, two seconds after the first one.  Each attempt passed its check
before the limit was reached. -/
def lateFailures : List (ℚ × GuardCall String) :=
  [(0, .retryAfter "10.0.0.1"), (0, .recordFailure "10.0.0.1"), (1, .retryAfter "10.0.0.1"), (1, .retryAfter "10.0.0.1"),
    (1, .retryAfter "10.0.0.1"), (1, .retryAfter "10.0.0.1"), (1, .retryAfter "10.0.0.1"), (2, .recordFailure "10.0.0.1"),
    (21/10, .recordFailure "10.0.0.1"), (22/10, .recordFailure "10.0.0.1"), (23/10, .recordFailure "10.0.0.1"),
    (24/10, .recordFailure "10.0.0.1")]

end Oveo.Login
