import Oveo.Lib.Keyed
import Oveo.Lib.Window
import Oveo.Usage.Ledger

/-! # One pass of the reconciler

`reconcile_pending_costs` reads a window of the oldest unsettled rows, drops those its backoff table
keeps waiting and asks the provider about the first few that are left.  Times are milliseconds of
the loop's clock. -/

namespace Oveo.Usage

open Oveo.Lib

/-! ## The table -/

/-- A row of `usage_events`. -/
structure UsageRow where
  id : Nat
  createdAt : Nat
  event : UsageEvent

/-- The table with its primary key and its unique index. -/
structure UsageTable where
  rows : List UsageRow
  ids : (rows.map UsageRow.id).Nodup
  keys : (rows.map fun row => row.event.dedupeKey).Nodup

def UsageTable.events (table : UsageTable) : List UsageEvent := table.rows.map UsageRow.event

/-- May the row be inserted? -/
def UsageTable.Accepts (table : UsageTable) (row : UsageRow) : Prop :=
  row.id ∉ table.rows.map UsageRow.id ∧ row.event.dedupeKey ∉ table.rows.map fun row => row.event.dedupeKey

instance (table : UsageTable) (row : UsageRow) : Decidable (table.Accepts row) := inferInstanceAs (Decidable (_ ∧ _))

/-- `append_usage_event`: the table after it, and whether the row was added. -/
def UsageTable.append (table : UsageTable) (row : UsageRow) : UsageTable × Bool :=
  if accepts : table.Accepts row then
    ({ rows := table.rows ++ [row]
       ids := nodup_append_key table.ids accepts.1
       keys := nodup_append_key table.keys accepts.2 }, true)
  else (table, false)

/-- The `WHERE` clause of the candidates. -/
def isCandidate (ledger : List UsageEvent) (event : UsageEvent) : Bool :=
  event.eventType = .pending ∧ event.providerGenerationId ≠ none ∧
    ¬ ledger.any fun charge => charge.eventType = .charge ∧ charge.providerGenerationId = event.providerGenerationId

/-- Is the row older? -/
def UsageRow.before (row other : UsageRow) : Prop :=
  row.createdAt < other.createdAt ∨ row.createdAt = other.createdAt ∧ row.id < other.id

instance : DecidableRel UsageRow.before := fun _ _ => inferInstanceAs (Decidable (_ ∨ _))

/-- `order_by(UsageEvent.created_at, UsageEvent.id)`. -/
def oldestFirst (rows : List UsageRow) : List UsageRow := rows.insertionSort fun row other => ¬ other.before row

/-! ## The backoff table -/

/-- `_RECONCILE_BATCH_SIZE`. -/
def reconcileBatchSize : Nat := 8

/-- `_RECONCILE_CANDIDATES`. -/
def reconcileCandidates : Nat := 64

/-- `_RECONCILE_MAX_ATTEMPTS`. -/
def reconcileMaxAttempts : Nat := 8

/-- `_RECONCILE_BASE_DELAY_SECONDS`. -/
def reconcileBaseDelay : Nat := 5_000

/-- `_RECONCILE_MAX_DELAY_SECONDS`. -/
def reconcileMaxDelay : Nat := 600_000

/-- An entry of `_reconcile_backoff`. -/
structure Backoff where
  id : Nat
  attempts : Nat
  readyAt : Nat

/-- `backoff.get(id, (0, 0.0))`. -/
def backoffOf (backoff : List Backoff) (id : Nat) : Backoff :=
  (backoff.find? fun entry => entry.id == id).getD { id, attempts := 0, readyAt := 0 }

/-- `_defer_reconciliation`. -/
def deferReconciliation (backoff : List Backoff) (id time : Nat) : List Backoff :=
  let attempts := (backoffOf backoff id).attempts + 1
  let delay := min (reconcileBaseDelay * 2 ^ (attempts - 1)) reconcileMaxDelay
  (backoff.filter fun entry => entry.id != id) ++ [{ id, attempts, readyAt := time + delay }]

/-- May a row be tried now? -/
def isReady (backoff : List Backoff) (now id : Nat) : Bool :=
  (backoffOf backoff id).readyAt ≤ now && (backoffOf backoff id).attempts < reconcileMaxAttempts

/-! ## The pass -/

structure Reconciler where
  table : UsageTable
  backoff : List Backoff

/-- What a metadata request ends with. -/
structure MetadataAnswer where
  costMicrousd : Option Nat
  /-- The loop's time then. -/
  time : Nat
  /-- The id and the time of the charge that is appended. -/
  rowId : Nat
  createdAt : Nat

/-- The candidates as the query returns them. -/
def reconcileWindow (table : UsageTable) : List UsageRow :=
  (oldestFirst (table.rows.filter fun row => isCandidate table.events row.event)).take reconcileCandidates

/-- What stays in the backoff table: the rest was settled elsewhere or is no longer pending. -/
def pruneBackoff (window : List UsageRow) (backoff : List Backoff) : List Backoff :=
  backoff.filter fun entry => window.any fun row => row.id == entry.id

/-- `pending`. -/
def pendingBatch (window : List UsageRow) (backoff : List Backoff) (now : Nat) : List UsageRow :=
  (window.filter fun row => isReady backoff now row.id).take reconcileBatchSize

structure ReconcilePass where
  /-- The rows the provider was asked about. -/
  attempted : List UsageRow
  reconciled : Nat
  after : Reconciler

/-- The loop over the batch. -/
def reconcileRows (answer : UsageRow → MetadataAnswer) (s : Reconciler) : List UsageRow → ReconcilePass
  | [] => { attempted := [], reconciled := 0, after := s }
  | row :: rows =>
    match row.event.providerGenerationId with
    | none => reconcileRows answer s rows
    | some generationId =>
      match (answer row).costMicrousd with
      | none =>
        let rest := reconcileRows answer { s with backoff := deferReconciliation s.backoff row.id (answer row).time } rows
        { rest with attempted := row :: rest.attempted }
      | some cost =>
        let (table, added) := s.table.append
          { id := (answer row).rowId, createdAt := (answer row).createdAt
            event := reconciledCharge row.event generationId cost }
        let rest := reconcileRows answer { table, backoff := s.backoff.filter fun entry => entry.id != row.id } rows
        { rest with attempted := row :: rest.attempted, reconciled := rest.reconciled + if added then 1 else 0 }

/-- `reconcile_pending_costs`. -/
def reconcilePendingCosts (answer : UsageRow → MetadataAnswer) (s : Reconciler) (now : Nat) : ReconcilePass :=
  let window := reconcileWindow s.table
  let backoff := pruneBackoff window s.backoff
  reconcileRows answer { s with backoff } (pendingBatch window backoff now)

/-! ## What a pass attempts -/

theorem UsageRow.not_before {row other : UsageRow} (before : row.before other) : ¬ other.before row := by
  unfold UsageRow.before at *
  omega

instance : IsTrans UsageRow fun row other => ¬ other.before row where
  trans first second third := by
    unfold UsageRow.before
    omega

instance : Std.Total fun row other : UsageRow => ¬ other.before row where
  total first second := by
    unfold UsageRow.before
    omega

/-- Rows with ids of their own are in strict order once sorted. -/
theorem pairwise_oldestFirst {rows : List UsageRow} (ids : (rows.map UsageRow.id).Nodup) :
    (oldestFirst rows).Pairwise UsageRow.before := by
  have sorted := List.pairwise_insertionSort (fun row other : UsageRow => ¬ other.before row) rows
  have apart : (oldestFirst rows).Pairwise fun row other => row.id ≠ other.id :=
    List.pairwise_map.mp (((List.perm_insertionSort _ rows).map UsageRow.id).nodup_iff.mpr ids)
  refine List.Pairwise.imp ?_ (sorted.and apart)
  rintro row other ⟨notBefore, differ⟩
  unfold UsageRow.before at *
  omega

theorem perm_oldestFirst (rows : List UsageRow) : (oldestFirst rows).Perm rows := List.perm_insertionSort _ rows

/-- Pruning keeps what is known of the rows in the window. -/
theorem backoffOf_prune {window : List UsageRow} {row : UsageRow} (listed : row ∈ window) (backoff : List Backoff) :
    backoffOf (pruneBackoff window backoff) row.id = backoffOf backoff row.id := by
  unfold backoffOf pruneBackoff
  rw [List.find?_filter]
  congr 2
  funext entry
  by_cases same : entry.id = row.id
  · have kept : (window.any fun row => row.id == entry.id) = true := List.any_eq_true.mpr ⟨row, listed, by simp [same]⟩
    simp only [kept, true_and, Bool.decide_eq_true]
  · simp [same]

theorem pendingBatch_prune (window : List UsageRow) (backoff : List Backoff) (now : Nat) :
    pendingBatch window (pruneBackoff window backoff) now = pendingBatch window backoff now := by
  unfold pendingBatch
  congr 1
  refine List.filter_congr fun row listed => ?_
  simp only [isReady, backoffOf_prune listed]

/-- Every row of a batch with a generation id is attempted. -/
theorem reconcileRows_attempted {answer : UsageRow → MetadataAnswer} {s : Reconciler} {rows : List UsageRow}
    (named : ∀ row ∈ rows, row.event.providerGenerationId ≠ none) : (reconcileRows answer s rows).attempted = rows := by
  induction rows generalizing s with
  | nil => rfl
  | cons row rows inductionHypothesis =>
    obtain ⟨isNamed, named⟩ := List.forall_mem_cons.mp named
    unfold reconcileRows
    split
    next absent => exact absurd absent isNamed
    next =>
      split
      next => exact congrArg (row :: ·) (inductionHypothesis named)
      next => exact congrArg (row :: ·) (inductionHypothesis named)

/-- A row that should be tried: unsettled, not given up, and not waiting. -/
def isEligible (s : Reconciler) (now : Nat) (row : UsageRow) : Bool :=
  isCandidate s.table.events row.event && isReady s.backoff now row.id

/-- The eligible rows, oldest first. -/
def eligibleRows (s : Reconciler) (now : Nat) : List UsageRow := oldestFirst (s.table.rows.filter (isEligible s now))

/-- The unsettled rows older than this one. -/
def olderCandidates (table : UsageTable) (row : UsageRow) : List UsageRow :=
  table.rows.filter fun other => isCandidate table.events other.event && decide (other.before row)

theorem attempted_eq (answer : UsageRow → MetadataAnswer) (s : Reconciler) (now : Nat) :
    (reconcilePendingCosts answer s now).attempted = pendingBatch (reconcileWindow s.table) s.backoff now := by
  unfold reconcilePendingCosts
  rw [reconcileRows_attempted, pendingBatch_prune]
  intro row listed
  have inWindow := (List.mem_filter.mp (List.mem_of_mem_take listed)).1
  have isCandidate := (List.mem_filter.mp ((perm_oldestFirst _).mem_iff.mp (List.mem_of_mem_take inWindow))).2
  simp only [Usage.isCandidate, decide_eq_true_eq] at isCandidate
  exact isCandidate.2.1

/-- A pass attempts the oldest eligible rows exactly when each of them has fewer than 64 older unsettled rows. -/
theorem reconcile_attempts_oldest_iff (answer : UsageRow → MetadataAnswer) (s : Reconciler) (now : Nat) :
    (reconcilePendingCosts answer s now).attempted = (eligibleRows s now).take reconcileBatchSize ↔
      ∀ row ∈ (eligibleRows s now).take reconcileBatchSize,
        (olderCandidates s.table row).length < reconcileCandidates := by
  have ids := s.table.ids
  have sorted : ((s.table.rows.filter fun row => isCandidate s.table.events row.event).map UsageRow.id).Nodup :=
    ids.sublist (List.filter_sublist.map _)
  have eligible : eligibleRows s now =
      (oldestFirst (s.table.rows.filter fun row => isCandidate s.table.events row.event)).filter
        fun row => isReady s.backoff now row.id := by
    rw [oldestFirst, ← insertionSort_filter, List.filter_filter]
    exact congrArg oldestFirst (List.filter_congr fun row _ => Bool.and_comm _ _)
  have older (row : UsageRow) : (olderCandidates s.table row).length =
      ((oldestFirst (s.table.rows.filter fun row => isCandidate s.table.events row.event)).filter
        fun other => decide (other.before row)).length := by
    rw [((perm_oldestFirst _).filter _).length_eq, List.filter_filter]
    exact congrArg List.length (List.filter_congr fun other _ => Bool.and_comm _ _)
  simp only [attempted_eq, pendingBatch, reconcileWindow, eligible, older]
  exact take_filter_take_iff_length (fun _ _ => UsageRow.not_before) (pairwise_oldestFirst sorted) _ _

/-- A pending row of a table where nothing is settled. -/
def unsettledRow (index : Nat) : UsageRow where
  id := index
  createdAt := index
  event :=
    { dedupeKey := dedupeKey (List.replicate index colon) .chat .reconcilePending, eventType := .pending, purpose := .chat
      amountMicrousd := none, usage := { generationId := ⟨str "g", by decide, by decide⟩, threadId := none, requesterId := str "u" }
      providerRequestId := none, providerGenerationId := some (List.replicate index colon), call := index }

/-- Sixty-four rows that were given up, and a fresh one behind them. -/
def givenUp : Reconciler where
  table :=
    { rows := (List.range 65).map unsettledRow
      ids := by decide +kernel
      keys := by decide +kernel }
  backoff := (List.range 64).map fun index => { id := index, attempts := reconcileMaxAttempts, readyAt := 0 }

theorem fresh_row_starved :
    ¬ ∀ (answer : UsageRow → MetadataAnswer) (s : Reconciler) (now : Nat),
      (reconcilePendingCosts answer s now).attempted = (eligibleRows s now).take reconcileBatchSize := by
  intro selects
  have same := congrArg (List.map UsageRow.id) (selects (fun _ => ⟨none, 1, 0, 0⟩) givenUp 1)
  revert same
  decide +kernel

end Oveo.Usage
