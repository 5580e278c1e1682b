import Oveo.Lifecycle.Transactions

/-! # What an update does to a row

Every transaction that only updates generation rows rewrites each row on its own.  `Updates`
says so once, with all a row can go through (`Evolves`): its identity and its result stay, its
status only moves along `Status.follows`, and it never becomes completed. -/

namespace Oveo.Store

/-- The statuses a row can hold later when it holds `before` now. -/
def Status.follows (before after : Status) : Bool :=
  match before with
  | .queued => true
  | .running => after != .queued
  | .stopping => after == .stopping || after == .stopped
  | .completed | .failed | .stopped => after == before

theorem Status.follows_refl (status : Status) : status.follows status = true := by
  cases status <;> rfl

theorem Status.follows_trans {first second third : Status} (left : first.follows second = true)
    (right : second.follows third = true) : first.follows third = true := by
  revert left right
  cases first <;> cases second <;> cases third <;> decide

theorem Status.follows_terminal {before after : Status} (terminal : before.isTerminal = true)
    (follows : before.follows after = true) : after = before := by
  revert terminal follows
  cases before <;> cases after <;> decide

theorem Status.follows_active {before after : Status} (follows : before.follows after = true)
    (active : after.isActive = true) : before.isActive = true := by
  revert active follows
  cases before <;> cases after <;> decide

end Oveo.Store

namespace Oveo.Lifecycle

open Oveo.Lib Oveo.Protocol Oveo.Store Oveo.Work

/-- The columns no update of a row ever touches. -/
structure SameRow (row row' : Generation) : Prop where
  id : row'.id = row.id
  threadId : row'.threadId = row.threadId
  requesterId : row'.requesterId = row.requesterId
  clientRequestId : row'.clientRequestId = row.clientRequestId
  sourceMessageId : row'.sourceMessageId = row.sourceMessageId
  purpose : row'.purpose = row.purpose
  createdAt : row'.createdAt = row.createdAt

theorem SameRow.refl (row : Generation) : SameRow row row := ⟨rfl, rfl, rfl, rfl, rfl, rfl, rfl⟩

theorem SameRow.trans {first second third : Generation} (left : SameRow first second)
    (right : SameRow second third) : SameRow first third :=
  ⟨right.id.trans left.id, right.threadId.trans left.threadId, right.requesterId.trans left.requesterId,
    right.clientRequestId.trans left.clientRequestId, right.sourceMessageId.trans left.sourceMessageId,
    right.purpose.trans left.purpose, right.createdAt.trans left.createdAt⟩

structure Evolves (row row' : Generation) : Prop where
  same : SameRow row row'
  result : row'.resultMessageId = row.resultMessageId
  follows : row.status.follows row'.status = true
  completed : row'.status = .completed → row.status = .completed

theorem Evolves.refl (row : Generation) : Evolves row row :=
  ⟨.refl row, rfl, Status.follows_refl _, fun completed => completed⟩

theorem Evolves.trans {first second third : Generation} (left : Evolves first second)
    (right : Evolves second third) : Evolves first third :=
  ⟨left.same.trans right.same, right.result.trans left.result, Status.follows_trans left.follows right.follows,
    fun completed => left.completed (right.completed completed)⟩

/-- A completed row can never stop being so. -/
theorem Evolves.completed_iff {row row' : Generation} (evolves : Evolves row row') :
    row'.status = .completed ↔ row.status = .completed := by
  refine ⟨evolves.completed, fun completed => ?_⟩
  rw [← completed]
  exact Status.follows_terminal (by rw [completed]; rfl) evolves.follows

/-! ## Updates of the table -/

structure Updates (db db' : Db) (change : Generation → Generation) : Prop where
  tables : db' = { db with generations := db.generations.map change }
  evolves : ∀ row ∈ db.generations, Evolves row (change row)

theorem Updates.generations {db db' : Db} {change} (updates : Updates db db' change) :
    db'.generations = db.generations.map change := by rw [updates.tables]

theorem Updates.refl (db : Db) : Updates db db id :=
  ⟨by simp, fun row _ => .refl row⟩

theorem Updates.trans {first second third : Db} {change change'} (left : Updates first second change)
    (right : Updates second third change') : Updates first third (change' ∘ change) := by
  refine ⟨?_, fun row member => ?_⟩
  · rw [right.tables, left.tables]
    simp
  · refine (left.evolves row member).trans (right.evolves (change row) ?_)
    rw [left.generations]
    exact List.mem_map_of_mem member

/-- A transition is an update when every status it allows may be followed by the new one. -/
theorem transition_updates (db : Db) (id : Id) (allowed : List Status) (status : Status) (values : Values)
    (follows : ∀ before ∈ allowed, before.follows status = true) (notCompleted : status ≠ .completed) :
    Updates db (transition db id allowed status values).1
      (fun row => if matchesTransition id allowed row then setStatus status values row else row) := by
  refine ⟨rfl, fun row _ => ?_⟩
  split
  next isMatch =>
    simp only [matchesTransition, Bool.and_eq_true, List.contains_iff_mem] at isMatch
    exact ⟨⟨rfl, rfl, rfl, rfl, rfl, rfl, rfl⟩, rfl, follows _ isMatch.2, fun completed => absurd completed notCompleted⟩
  next => exact .refl row

theorem setRunning_updates (db : Db) (id : Id) : ∃ change, Updates db (setRunning db id) change :=
  ⟨_, transition_updates db id _ _ _ (by decide) (by decide)⟩

theorem stopRequested_updates (db : Db) (id : Id) : ∃ change, Updates db (stopRequested db id) change :=
  ⟨_, transition_updates db id _ _ _ (by decide) (by decide)⟩

theorem finishStopped_updates (db : Db) (id : Id) : ∃ change, Updates db (finishStopped db id) change :=
  ⟨_, transition_updates db id _ _ _ (by decide) (by decide)⟩

theorem fail_updates (db : Db) (id : Id) (code : ErrorCode) (blocks : List Protocol.ContentBlock) :
    ∃ change, Updates db (fail db id code blocks) change := by
  unfold fail
  split
  next failed claimed =>
    have updates := transition_updates db id [.queued, .running] .failed
      { errorCode := some (some code), partialBlocks := some blocks } (by decide) (by decide)
    rw [claimed] at updates
    exact ⟨_, updates⟩
  next => exact ⟨_, transition_updates db id _ _ _ (by decide) (by decide)⟩

/-- Finalizing an orphan leaves every other row exactly as it is. -/
structure UpdatesOnly (ids : List Id) (db db' : Db) (change : Generation → Generation) : Prop
    extends Updates db db' change where
  others : ∀ row, row.id ∉ ids → change row = row

theorem transition_updatesOnly (db : Db) (id : Id) (allowed : List Status) (status : Status) (values : Values)
    (follows : ∀ before ∈ allowed, before.follows status = true) (notCompleted : status ≠ .completed) :
    UpdatesOnly [id] db (transition db id allowed status values).1
      (fun row => if matchesTransition id allowed row then setStatus status values row else row) := by
  refine ⟨transition_updates db id allowed status values follows notCompleted, fun row other => ?_⟩
  have mismatch : matchesTransition id allowed row = false := by
    simp_all [matchesTransition]
  simp [mismatch]

theorem finalizeOrphan_updates (db : Db) (id : Id) (status : Status) :
    ∃ change, UpdatesOnly [id] db (finalizeOrphan db id status) change := by
  unfold finalizeOrphan
  split
  next => exact ⟨_, transition_updatesOnly db id _ _ _ (by decide) (by decide)⟩
  next => exact ⟨_, transition_updatesOnly db id _ _ _ (by decide) (by decide)⟩

theorem finalizeOrphans_updates (orphans : List (Id × Status)) (db : Db) :
    ∃ change, UpdatesOnly (orphans.map Prod.fst) db (finalizeOrphans db orphans) change := by
  induction orphans generalizing db with
  | nil => exact ⟨id, .refl db, fun _ _ => rfl⟩
  | cons orphan orphans inductionHypothesis =>
    obtain ⟨first, head⟩ := finalizeOrphan_updates db orphan.1 orphan.2
    obtain ⟨rest, tail⟩ := inductionHypothesis (finalizeOrphan db orphan.1 orphan.2)
    refine ⟨rest ∘ first, head.toUpdates.trans tail.toUpdates, fun row other => ?_⟩
    simp only [List.map_cons, List.mem_cons, not_or] at other
    have unchanged : first row = row := head.others row (by simpa using other.1)
    rw [Function.comp, unchanged, tail.others row other.2]

/-- `reconcile_orphans` is an update too, once no row has a result without being completed. -/
theorem reconcileOrphans_updates (db : Db)
    (results : ∀ row ∈ db.generations, row.resultMessageId.isSome → row.status = .completed) :
    Updates db (reconcileOrphans db) reconcileRow := by
  refine ⟨rfl, fun row member => ?_⟩
  have unanswered : ¬ (row.resultMessageId.isSome ∧ row.status ≠ .completed) :=
    fun answered => answered.2 (results row member answered.1)
  simp only [reconcileRow, if_neg unanswered]
  cases held : row.status <;>
    simp only [setStatus, held, reduceCtorEq, or_self, or_true, true_or, if_true, if_false] <;>
    refine ⟨⟨rfl, rfl, rfl, rfl, rfl, rfl, rfl⟩, rfl, ?_, ?_⟩ <;> simp [held, Status.follows]

end Oveo.Lifecycle
