import Oveo.Context.Coverage

/-! # Compaction loses nothing and repeats nothing

The invariant of all runs: the stored calls of a conversation follow one another, each made of what the
ones before it left, and a compaction whose generation still runs is made of what they have left now. -/

namespace Oveo.Context

open Oveo.Lib Oveo.Protocol Oveo.Store Oveo.Work Oveo.Lifecycle

/-- The stored calls of a conversation. -/
def CompactionState.callsOf (s : CompactionState) (threadId : Id) : List StoredSummary :=
  s.stored.filter fun call => call.threadId == threadId

/-- The columns after some calls were stored. -/
def lastSummary (calls : List StoredSummary) : Summary :=
  match calls.getLast? with
  | some call => ⟨some call.compacted, some call.cutoff⟩
  | none => Summary.empty

section

variable {settings : Settings} {compactionSettings : CompactionSettings} {surroundings : Surroundings} {s s' : CompactionState}
  {db db' : Db} {new : List Message} {threadId : Id} {summary : Summary} {phase phase' : CompactionPhase} {index : Nat}
  {compaction : Compaction}

@[simp] theorem lastSummary_nil : lastSummary [] = Summary.empty := rfl

@[simp] theorem lastSummary_append (calls : List StoredSummary) (call : StoredSummary) :
    lastSummary (calls ++ [call]) = ⟨some call.compacted, some call.cutoff⟩ := by
  simp [lastSummary]

/-! ## The invariant -/

/-- The calls of a conversation follow one another. -/
structure CallsHold (db : Db) (threadId : Id) (calls : List StoredSummary) : Prop where
  each : ∀ earlier call later, calls = earlier ++ call :: later →
    InputHolds db threadId (lastSummary earlier) call.cutoff call.input ∧ LeavesLatest db threadId call.cutoff call.input

/-- What a compaction knows of the row of its generation. -/
structure RowHolds (db : Db) (summary : Summary) (compaction : Compaction) (row : Generation) : Prop where
  id : row.id = compaction.generationId
  thread : row.threadId = some compaction.threadId
  claimed : row.status ≠ .queued
  running : row.status = .running → compaction.phase.Holds db compaction.threadId summary

structure CompactionInv (s : CompactionState) : Prop where
  system : SystemInv s.system
  ordinals : OrdinalsInv s.system.db
  sole : (s.compactions.map Compaction.generationId).Nodup
  rows : ∀ compaction ∈ s.compactions,
    ∃ row ∈ s.system.db.generations, RowHolds s.system.db (s.summaries compaction.threadId) compaction row
  leaves : ∀ compaction ∈ s.compactions, compaction.phase.LeavesLatest s.system.db compaction.threadId
  current : ∀ threadId, s.summaries threadId = lastSummary (s.callsOf threadId)
  calls : ∀ threadId, CallsHold s.system.db threadId (s.callsOf threadId)

theorem compactionInv_init (start : (compactionMachine settings compactionSettings).init s) : CompactionInv s := by
  obtain ⟨isSystem, isSummaries, noCompactions, noneStored⟩ := start
  constructor
  case system => exact isSystem ▸ systemInv_empty
  case ordinals =>
    rw [isSystem]
    exact ⟨.nil, fun _ member => nomatch member⟩
  case sole => simp [noCompactions]
  case rows => simp [noCompactions]
  case leaves => simp [noCompactions]
  case current => simp [isSummaries, CompactionState.callsOf, noneStored]
  case calls =>
    intro threadId
    refine ⟨fun earlier call later split => ?_⟩
    simp [CompactionState.callsOf, noneStored] at split

/-! ## What a step does -/

/-- A step of the lifecycle, a new compaction, a compaction that moves on, or a summary to be stored. -/
inductive CompactionStep (settings : Settings) (compactionSettings : CompactionSettings) (s : CompactionState) :
    CompactionAction → CompactionState → Prop where
  | lifecycle {action : Action} {system : System} {become : Compaction → CompactionPhase} :
      Lifecycle.step settings s.system action = some system →
      (∀ compaction, become compaction = compaction.phase ∨ become compaction = .ended) →
      CompactionStep settings compactionSettings s (.lifecycle action)
        { s with system, compactions := s.compactions.map fun compaction => { compaction with phase := become compaction } }
  | composed {generationId : Id} {surroundings : Surroundings} {row : Generation} {threadId : Id} {thread : Thread}
      {snapshot : RequestSnapshot} :
      s.system.db.generation? generationId = some row → row.threadId = some threadId → row.status ≠ .queued →
      (∀ compaction ∈ s.compactions, compaction.generationId ≠ generationId) → s.system.db.thread? threadId = some thread →
      requestSnapshot surroundings s.system.db thread (s.summaries threadId) .chat none none = .ok snapshot →
      CompactionStep settings compactionSettings s (.compose generationId surroundings)
        { s with compactions := s.compactions ++ [⟨generationId, threadId, .composed snapshot⟩] }
  | moved {action : CompactionAction} {index : Nat} {compaction : Compaction} {phase : CompactionPhase} :
      s.compactions[index]? = some compaction →
      (∃ surroundings fits, lookAt compactionSettings surroundings fits s.system.db (s.system.db.thread? compaction.threadId)
          (s.summaries compaction.threadId) compaction.phase = some phase) ∨
        (∃ reply, replyTo reply compaction.phase = some phase) ∨ phase = .ended →
      CompactionStep settings compactionSettings s action (s.setPhase index compaction phase)
  | stored {index : Nat} {surroundings : Surroundings} {outcome : CommitOutcome} {compaction : Compaction} {cutoff : Nat}
      {input : RequestSnapshot} {compacted : Str} {thread : Thread} {current : Generation} {snapshot : RequestSnapshot} :
      s.compactions[index]? = some compaction → compaction.phase = .storing cutoff input compacted →
      s.system.db.thread? compaction.threadId = some thread → s.system.db.generation? compaction.generationId = some current →
      current.status = .running →
      requestSnapshot surroundings s.system.db thread ⟨some compacted, some cutoff⟩ .chat none none = .ok snapshot →
      CompactionStep settings compactionSettings s (.store index surroundings outcome)
        { s.setPhase index compaction (.looking snapshot) with
          summaries := fun id => if id = compaction.threadId then ⟨some compacted, some cutoff⟩ else s.summaries id
          stored := s.stored ++ [⟨compaction.threadId, cutoff, input, compacted⟩] }

theorem compactionStep_cases {action : CompactionAction} (taken : compactionStep settings compactionSettings s action = some s') :
    CompactionStep settings compactionSettings s action s' := by
  cases action with
  | lifecycle action =>
    simp only [compactionStep, Option.bind_eq_bind, Option.bind_eq_some_iff] at taken
    obtain ⟨system, stepped, taken⟩ := taken
    split at taken
    next =>
      cases taken
      exact .lifecycle stepped fun _ => .inr rfl
    next =>
      cases taken
      have same : s.compactions.map (fun compaction => { compaction with phase := compaction.phase }) = s.compactions := List.map_id _
      rw [← same]
      exact .lifecycle stepped fun _ => .inl rfl
  | compose generationId surroundings =>
    simp only [compactionStep, CompactionState.compose, Option.bind_eq_bind, Option.bind_eq_some_iff, Option.ite_none_right_eq_some] at taken
    obtain ⟨row, found, threadId, ofThread, ⟨-, claimed, absent⟩, thread, isThread, taken⟩ := taken
    split at taken
    next snapshot built =>
      cases taken
      refine .composed found ofThread claimed (fun compaction member => ?_) isThread built
      simpa using List.all_eq_true.mp absent compaction member
    next => cases taken
  | look index surroundings fits =>
    simp only [compactionStep, Option.bind_eq_bind, Option.bind_eq_some_iff] at taken
    obtain ⟨compaction, found, phase, looked, taken⟩ := taken
    cases taken
    exact .moved found (.inl ⟨surroundings, fits, looked⟩)
  | reply index reply =>
    simp only [compactionStep, Option.bind_eq_bind, Option.bind_eq_some_iff] at taken
    obtain ⟨compaction, found, phase, replied, taken⟩ := taken
    cases taken
    exact .moved found (.inr (.inl ⟨reply, replied⟩))
  | store index surroundings outcome =>
    simp only [compactionStep, Option.bind_eq_bind, Option.bind_eq_some_iff] at taken
    obtain ⟨compaction, found, taken⟩ := taken
    split at taken
    next cutoff input compacted storing =>
      cases taken
      have ended : CompactionStep settings compactionSettings s (.store index surroundings outcome) (s.setPhase index compaction .ended) :=
        .moved found (.inr (.inr rfl))
      simp only [CompactionState.store]
      split
      next thread current isThread isCurrent =>
        split
        next running =>
          split
          next snapshot built => exact .stored found storing isThread isCurrent running built
          next => exact ended
        next => exact ended
      next => exact ended
    next => cases taken
  | cancel index =>
    simp only [compactionStep, Option.bind_eq_bind, Option.bind_eq_some_iff] at taken
    obtain ⟨compaction, found, taken⟩ := taken
    cases taken
    exact .moved found (.inr (.inr rfl))

/-! ## Steps of the lifecycle -/

theorem CallsHold.continues {calls : List StoredSummary} (holds : CallsHold db threadId calls) (continues : Continues db db' new) :
    CallsHold db' threadId calls :=
  ⟨fun earlier call later split =>
    ⟨(holds.each earlier call later split).1.continues continues, (holds.each earlier call later split).2.continues continues⟩⟩

/-- A row that runs now was running before, because it was claimed. -/
theorem running_of_follows {before after : Status} (follows : before.follows after = true) (claimed : before ≠ .queued) :
    after ≠ .queued ∧ (after = .running → before = .running) := by
  revert follows claimed
  cases before <;> cases after <;> decide

theorem RowHolds.continues {row : Generation} (holds : RowHolds db summary compaction row) (continues : Continues db db' new)
    (member : row ∈ db.generations) (phase' : CompactionPhase) (kept : phase' = compaction.phase ∨ phase' = .ended) :
    ∃ row' ∈ db'.generations, RowHolds db' summary { compaction with phase := phase' } row' := by
  obtain ⟨row', member', same, follows⟩ := continues.rows row member
  obtain ⟨claimed, ran⟩ := running_of_follows follows holds.claimed
  refine ⟨row', member', same.id.trans holds.id, same.threadId.trans holds.thread, claimed, fun running => ?_⟩
  rcases kept with rfl | rfl
  · refine (holds.running (ran running)).continues continues fun message added sameThread => ?_
    refine continues.quiet row' member' running message added ?_
    rw [same.threadId, holds.thread, sameThread]
  · trivial

theorem CompactionInv.lifecycle (invariant : CompactionInv s) {action : Action} {system : System}
    (taken : step settings s.system action = some system) {become : Compaction → CompactionPhase}
    (kept : ∀ compaction, become compaction = compaction.phase ∨ become compaction = .ended) :
    CompactionInv { s with system, compactions := s.compactions.map fun compaction => { compaction with phase := become compaction } } := by
  obtain ⟨new, continues⟩ := step_continues invariant.system taken
  constructor
  case system => exact step_systemInv invariant.system taken
  case ordinals => exact invariant.ordinals.continues continues
  case sole =>
    rw [List.map_map]
    exact invariant.sole
  case rows =>
    intro changed member
    obtain ⟨compaction, old, rfl⟩ := List.mem_map.mp member
    obtain ⟨row, rowMember, holds⟩ := invariant.rows compaction old
    exact holds.continues continues rowMember (become compaction) (kept compaction)
  case leaves =>
    intro changed member
    obtain ⟨compaction, old, rfl⟩ := List.mem_map.mp member
    rcases kept compaction with same | cancelled
    · rw [same]
      exact (invariant.leaves compaction old).continues continues
    · rw [cancelled]
      trivial
  case current => exact invariant.current
  case calls => exact fun threadId => (invariant.calls threadId).continues continues

/-! ## Steps of a compaction -/

theorem CompactionInv.setPhase (invariant : CompactionInv s) (found : s.compactions[index]? = some compaction)
    (holds : compaction.phase.Holds s.system.db compaction.threadId (s.summaries compaction.threadId) →
      phase'.Holds s.system.db compaction.threadId (s.summaries compaction.threadId))
    (leaves : phase'.LeavesLatest s.system.db compaction.threadId) : CompactionInv (s.setPhase index compaction phase') := by
  have member := List.mem_of_getElem? found
  constructor
  case system => exact invariant.system
  case ordinals => exact invariant.ordinals
  case sole =>
    have sameIds : (s.compactions.set index { compaction with phase := phase' }).map Compaction.generationId =
        s.compactions.map Compaction.generationId := map_key_set found rfl
    exact sameIds ▸ invariant.sole
  case rows =>
    intro other isOther
    rcases List.mem_or_eq_of_mem_set isOther with old | rfl
    · exact invariant.rows other old
    · obtain ⟨row, rowMember, rowHolds⟩ := invariant.rows compaction member
      exact ⟨row, rowMember, rowHolds.id, rowHolds.thread, rowHolds.claimed, fun running => holds (rowHolds.running running)⟩
  case leaves =>
    intro other isOther
    rcases List.mem_or_eq_of_mem_set isOther with old | rfl
    · exact invariant.leaves other old
    · exact leaves
  case current => exact invariant.current
  case calls => exact invariant.calls

theorem thread?_id {thread : Thread} (found : db.thread? threadId = some thread) : thread.id = threadId := by
  simpa using List.find?_some found

theorem CompactionInv.compose (invariant : CompactionInv s) {generationId threadId : Id} {row : Generation} {thread : Thread}
    {snapshot : RequestSnapshot} (found : s.system.db.generation? generationId = some row) (ofThread : row.threadId = some threadId)
    (claimed : row.status ≠ .queued) (absent : ∀ compaction ∈ s.compactions, compaction.generationId ≠ generationId)
    (isThread : s.system.db.thread? threadId = some thread)
    (built : requestSnapshot surroundings s.system.db thread (s.summaries threadId) .chat none none = .ok snapshot) :
    CompactionInv { s with compactions := s.compactions ++ [⟨generationId, threadId, .composed snapshot⟩] } := by
  obtain ⟨rowMember, isRow⟩ := generation?_mem found
  have holds := chatSnapshot_holds invariant.ordinals built
  rw [thread?_id isThread] at holds
  constructor
  case system => exact invariant.system
  case ordinals => exact invariant.ordinals
  case sole =>
    refine nodup_append_key invariant.sole fun listed => ?_
    obtain ⟨other, isOther, same⟩ := List.mem_map.mp listed
    exact absent other isOther same
  case rows =>
    intro compaction member
    rcases List.mem_append.mp member with old | added
    · exact invariant.rows compaction old
    · rw [List.mem_singleton.mp added]
      exact ⟨row, rowMember, isRow, ofThread, claimed, fun _ => holds⟩
  case leaves =>
    intro compaction member
    rcases List.mem_append.mp member with old | added
    · exact invariant.leaves compaction old
    · rw [List.mem_singleton.mp added]
      trivial
  case current => exact invariant.current
  case calls => exact invariant.calls

theorem callsOf_append (call : StoredSummary) (threadId : Id) : (s.stored ++ [call]).filter (fun other => other.threadId == threadId) =
    if call.threadId = threadId then s.callsOf threadId ++ [call] else s.callsOf threadId := by
  rw [List.filter_append, CompactionState.callsOf]
  split
  next same => simp [same]
  next other => simp [other]

/-- One more call. -/
theorem CallsHold.append {calls : List StoredSummary} {call : StoredSummary} (holds : CallsHold db threadId calls)
    (input : InputHolds db threadId (lastSummary calls) call.cutoff call.input)
    (leaves : LeavesLatest db threadId call.cutoff call.input) : CallsHold db threadId (calls ++ [call]) := by
  refine ⟨fun earlier other later split => ?_⟩
  rcases List.eq_nil_or_concat later with rfl | ⟨later, last, rfl⟩
  · obtain ⟨rfl, rfl⟩ : calls = earlier ∧ call = other := by simpa using split
    exact ⟨input, leaves⟩
  · rw [List.concat_eq_append, ← List.cons_append, ← List.append_assoc] at split
    exact holds.each earlier other later (List.append_inj_left' split rfl)

/-- Two generations of one conversation do not both run. -/
theorem CompactionInv.apart (invariant : CompactionInv s) {row other : Generation} (member : row ∈ s.system.db.generations)
    (otherMember : other ∈ s.system.db.generations) (different : other ≠ row) (sameThread : other.threadId = row.threadId)
    (running : row.status = .running) : other.status ≠ .running := by
  intro otherRuns
  have symmetric : Std.Symm fun first second : Generation => ¬ BothActive first second :=
    ⟨fun _ _ apart both => apart ⟨both.2.1, both.1, both.2.2.symm⟩⟩
  refine invariant.system.db.oneActive.forall otherMember member different ⟨?_, ?_, sameThread⟩
  · rw [otherRuns]
    rfl
  · rw [running]
    rfl

theorem CompactionInv.store (invariant : CompactionInv s) {cutoff : Nat} {input snapshot : RequestSnapshot} {compacted : Str}
    {thread : Thread} {current : Generation} (found : s.compactions[index]? = some compaction)
    (storing : compaction.phase = .storing cutoff input compacted)
    (isThread : s.system.db.thread? compaction.threadId = some thread)
    (isCurrent : s.system.db.generation? compaction.generationId = some current) (running : current.status = .running)
    (built : requestSnapshot surroundings s.system.db thread ⟨some compacted, some cutoff⟩ .chat none none = .ok snapshot) :
    CompactionInv { s.setPhase index compaction (.looking snapshot) with
      summaries := fun id => if id = compaction.threadId then ⟨some compacted, some cutoff⟩ else s.summaries id
      stored := s.stored ++ [⟨compaction.threadId, cutoff, input, compacted⟩] } := by
  have member := List.mem_of_getElem? found
  obtain ⟨currentMember, isRow⟩ := generation?_mem isCurrent
  obtain ⟨row, rowMember, rowHolds⟩ := invariant.rows compaction member
  have sameRow : row = current :=
    List.inj_on_of_nodup_map invariant.system.db.generationIds rowMember currentMember (rowHolds.id.trans isRow.symm)
  subst sameRow
  have holds := rowHolds.running running
  have leaves := invariant.leaves compaction member
  rw [storing] at holds leaves
  have fits := chatSnapshot_holds invariant.ordinals built
  rw [thread?_id isThread] at fits
  constructor
  case system => exact invariant.system
  case ordinals => exact invariant.ordinals
  case sole =>
    have sameIds : (s.compactions.set index { compaction with phase := .looking snapshot }).map Compaction.generationId =
        s.compactions.map Compaction.generationId := map_key_set found rfl
    exact sameIds ▸ invariant.sole
  case rows =>
    intro other isOther
    rcases mem_set_of_nodup invariant.sole found isOther with rfl | ⟨old, different⟩
    · refine ⟨row, rowMember, rowHolds.id, rowHolds.thread, rowHolds.claimed, fun _ => ?_⟩
      simp only [if_true]
      exact fits
    · obtain ⟨otherRow, otherMember, otherHolds⟩ := invariant.rows other old
      refine ⟨otherRow, otherMember, otherHolds.id, otherHolds.thread, otherHolds.claimed, fun otherRuns => ?_⟩
      have distinct : otherRow ≠ row := by
        rintro rfl
        exact different (otherHolds.id.symm.trans rowHolds.id)
      have elsewhere : other.threadId ≠ compaction.threadId := fun sameThread =>
        invariant.apart rowMember otherMember distinct (by rw [otherHolds.thread, rowHolds.thread, sameThread]) running otherRuns
      simp only [if_neg elsewhere]
      exact otherHolds.running otherRuns
  case leaves =>
    intro other isOther
    rcases List.mem_or_eq_of_mem_set isOther with old | rfl
    · exact invariant.leaves other old
    · trivial
  case current =>
    intro threadId
    simp only [CompactionState.callsOf, callsOf_append]
    by_cases same : threadId = compaction.threadId
    · rw [if_pos same, if_pos same.symm, lastSummary_append]
    · rw [if_neg same, if_neg (Ne.symm same)]
      exact invariant.current threadId
  case calls =>
    intro threadId
    simp only [CompactionState.callsOf, callsOf_append]
    split
    next same =>
      subst same
      exact (invariant.calls compaction.threadId).append (invariant.current compaction.threadId ▸ holds) leaves
    next => exact invariant.calls threadId

theorem CompactionInv.step (invariant : CompactionInv s) {action : CompactionAction}
    (taken : compactionStep settings compactionSettings s action = some s') : CompactionInv s' := by
  cases compactionStep_cases taken with
  | lifecycle stepped kept => exact invariant.lifecycle stepped kept
  | composed found ofThread claimed absent isThread built => exact invariant.compose found ofThread claimed absent isThread built
  | stored found storing isThread isCurrent running built => exact invariant.store found storing isThread isCurrent running built
  | @moved _ _ compaction _ found how =>
    rcases how with ⟨surroundings, fits, looked⟩ | ⟨reply, replied⟩ | rfl
    · obtain ⟨holds, leaves⟩ := lookAt_holds invariant.ordinals (fun thread isThread => thread?_id isThread) looked
      exact invariant.setPhase found holds leaves
    · obtain ⟨holds, leaves⟩ := @replyTo_holds s.system.db _ (s.summaries compaction.threadId) _ _ _ replied
      exact invariant.setPhase found holds (leaves (invariant.leaves compaction (List.mem_of_getElem? found)))
    · exact invariant.setPhase found (fun _ => trivial) trivial

theorem reachable_compactionInv (reachable : (compactionMachine settings compactionSettings).Reachable s) : CompactionInv s :=
  Machine.invariant CompactionInv (fun _ => compactionInv_init) (fun _ _ _ invariant _ taken => invariant.step taken) reachable

end

end Oveo.Context
