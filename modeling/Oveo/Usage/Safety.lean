import Oveo.Usage.System

/-! # Every call is charged once

`LedgerEffect` says what a step can do.  From it: no run makes a call twice (`RunInv`), every row is
about a call that carries its id (`RowOf`), and a recorded call finds its key free unless another
call has taken its name. -/

namespace Oveo.Usage

open Oveo.Lib

variable {fits : List Str → Bool} {billed : Str → Nat}

/-! ## Steps -/

/-- The calls a run may still make, from its stage. -/
def Stage.Later : Stage → CallSite → Prop
  | .at position => position.Upcoming
  | .calling position _ | .recording position _ | .returned position _ => position.Later

/-- The call it is in. -/
def Stage.call? : Stage → Option Nat
  | .calling _ call | .recording _ call => some call
  | .at _ | .returned _ _ => none

/-- What a step does. -/
inductive LedgerEffect (billed : Str → Nat) (s : LedgerState) : LedgerState → Prop where
  | schedule {usage : UsageContext} {purpose} : (∀ run ∈ s.runs, run.usage.generationId ≠ usage.generationId) →
      LedgerEffect billed s { s with runs := s.runs ++ [{ usage, purpose, stage := .at .composing }] }
  | move {index : Nat} {run : Run} {stage : Stage} : s.runs[index]? = some run → stage.call? = none →
      (∀ site, stage.Later site → run.stage.Later site) → LedgerEffect billed s (s.setStage index stage)
  | call {index : Nat} {run : Run} {position : Position} {site : CallSite} : s.runs[index]? = some run → run.stage = .at position → position.site? = some site →
      LedgerEffect billed s (s.startCall index run position site)
  | observe {index : Nat} {run : Run} {call : Nat} {requestId : Option Str} {generationId : Str} : s.runs[index]? = some run → run.stage.call? = some call →
      LedgerEffect billed s { s with
        calls := s.calls.modify call (Call.observe requestId generationId)
        writes := s.writes ++ [⟨call, requestId, generationId⟩] }
  | finish {index : Nat} {run : Run} {position : Position} {call : Nat} {outcome : Outcome} : s.runs[index]? = some run → run.stage = .calling position call →
      LedgerEffect billed s { s.setStage index (.recording position call) with calls := s.calls.modify call (Call.finish outcome) }
  | record {index : Nat} {run : Run} {position : Position} {call : Nat} {entry : Call} {outcome : Outcome} {ended : CallEnd} :
      s.runs[index]? = some run → run.stage = .recording position call →
      s.calls[call]? = some entry → entry.outcome = some outcome →
      LedgerEffect billed s ((s.recordCall call entry outcome).setStage index (.returned position ended))
  | recordProviderIds {write : IdsWrite} {writes : List IdsWrite} {call : Call} : s.writes = write :: writes → s.calls[write.call]? = some call →
      LedgerEffect billed s { s with
        writes
        ledger := appendReconcilable s.ledger call.usage call.purpose write.requestId write.providerGenerationId write.call }
  | reconcile {event : UsageEvent} {events : List UsageEvent} {generationId : Str} : s.reconciling = event :: events → event.providerGenerationId = some generationId →
      LedgerEffect billed s { s with
        reconciling := events
        ledger := appendUsageEvent s.ledger (reconciledCharge event generationId (billed generationId)) }
  | select {chosen : UsageEvent → Bool} : LedgerEffect billed s { s with reconciling := (candidates s.ledger).filter chosen }
  | forget {writes : List IdsWrite} {reconciling : List UsageEvent} : writes ⊆ s.writes → reconciling ⊆ s.reconciling →
      LedgerEffect billed s { s with writes, reconciling }

theorem ledgerStep_effect {s s' : LedgerState} {action : LedgerAction} (taken : ledgerStep fits billed s action = some s') :
    LedgerEffect billed s s' := by
  cases action with
  | schedule usage purpose =>
    simp only [ledgerStep] at taken
    split at taken
    next => cases taken
    next fresh =>
      cases taken
      refine .schedule fun run listed same => fresh ?_
      exact List.any_eq_true.mpr ⟨run, listed, by simpa using same⟩
  | decide index choice =>
    simp only [ledgerStep] at taken
    split at taken
    next usage purpose position found =>
      obtain ⟨next, decided, rfl⟩ := Option.map_eq_some_iff.mp taken
      exact .move found rfl fun site => Position.upcoming_of_decide decided
    next => cases taken
  | call index =>
    simp only [ledgerStep] at taken
    split at taken
    next usage purpose position found =>
      obtain ⟨site, next, rfl⟩ := Option.map_eq_some_iff.mp taken
      exact .call found rfl next
    next => cases taken
  | onProviderIds index requestId generationId =>
    simp only [ledgerStep] at taken
    split at taken
    next found =>
      cases taken
      exact .observe found rfl
    next => cases taken
  | recordProviderIds =>
    simp only [ledgerStep] at taken
    split at taken
    next => cases taken
    next isWrites =>
      split at taken
      next => cases taken
      next found =>
        cases taken
        exact .recordProviderIds isWrites found
  | loseProviderIds =>
    simp only [ledgerStep] at taken
    split at taken
    next => cases taken
    next isWrites =>
      cases taken
      exact .forget (by simp [isWrites]) (List.Subset.refl _)
  | returns index outcome =>
    simp only [ledgerStep] at taken
    split at taken
    next found =>
      cases taken
      exact .finish found rfl
    next => cases taken
  | raises index =>
    simp only [ledgerStep] at taken
    split at taken
    next found =>
      cases taken
      exact .move found rfl fun site later => later
    next => cases taken
  | recordUsage index =>
    simp only [ledgerStep] at taken
    split at taken
    next found =>
      obtain ⟨entry, isEntry, rest⟩ := Option.bind_eq_some_iff.mp taken
      obtain ⟨outcome, isOutcome, same⟩ := Option.bind_eq_some_iff.mp rest
      cases same
      exact .record found rfl isEntry isOutcome
    next => cases taken
  | proceed index result =>
    simp only [ledgerStep] at taken
    split at taken
    next found =>
      split at taken
      next =>
        obtain ⟨next, proceeded, rfl⟩ := Option.map_eq_some_iff.mp taken
        exact .move found rfl fun site => Position.later_of_proceed proceeded
      next => cases taken
    next => cases taken
  | stop index =>
    simp only [ledgerStep] at taken
    split at taken
    next => cases taken
    next => cases taken
    next run _ found =>
      cases taken
      exact .move found rfl fun site later => later.elim
  | select chosen =>
    simp only [ledgerStep] at taken
    split at taken
    next =>
      cases taken
      exact .select
    next => cases taken
  | reconcile =>
    simp only [ledgerStep] at taken
    split at taken
    next => cases taken
    next isReconciling =>
      split at taken
      next =>
        cases taken
        exact .forget (List.Subset.refl _) (by simp [isReconciling])
      next isGeneration =>
        cases taken
        exact .reconcile isReconciling isGeneration
  | defer =>
    simp only [ledgerStep] at taken
    split at taken
    next => cases taken
    next isReconciling =>
      cases taken
      exact .forget (List.Subset.refl _) (by simp [isReconciling])
  | interrupt =>
    cases taken
    exact .forget (List.Subset.refl _) (by simp)

/-! ## Lists of runs and calls -/

section

variable {Item : Type} {items : List Item} {index at_ : Nat} {change : Item → Item} {item : Item}

theorem modify_cases (found : (items.modify index change)[at_]? = some item) :
    at_ ≠ index ∧ items[at_]? = some item ∨ at_ = index ∧ ∃ before, items[at_]? = some before ∧ item = change before := by
  rw [List.getElem?_modify] at found
  obtain ⟨before, isBefore, same⟩ := Option.map_eq_some_iff.mp found
  by_cases here : index = at_
  · rw [if_pos here] at same
    exact .inr ⟨here.symm, before, isBefore, same.symm⟩
  · rw [if_neg here] at same
    cases same
    exact .inl ⟨fun same => here same.symm, isBefore⟩

theorem modify_found (found : items[at_]? = some item) :
    (items.modify index change)[at_]? = some (if index = at_ then change item else item) := by
  rw [List.getElem?_modify, found]
  by_cases here : index = at_ <;> simp [here]

theorem concat_cases {last : Item} (found : (items ++ [last])[at_]? = some item) :
    items[at_]? = some item ∨ at_ = items.length ∧ item = last := by
  by_cases inside : at_ < items.length
  · rw [List.getElem?_append_left inside] at found
    exact .inl found
  · rw [List.getElem?_append_right (by omega)] at found
    have here : at_ - items.length = 0 := by
      have bound := (List.getElem?_eq_some_iff.mp found).1
      rw [List.length_singleton] at bound
      omega
    rw [here] at found
    cases found
    exact .inr ⟨by omega, rfl⟩

theorem concat_found (last : Item) (found : items[at_]? = some item) : (items ++ [last])[at_]? = some item := by
  rw [List.getElem?_append_left (List.getElem?_eq_some_iff.mp found).1]
  exact found

end

/-! ## Calls only gain ids, until they are recorded -/

structure Call.Becomes (call call' : Call) : Prop where
  usage : call'.usage = call.usage
  site : call'.site = call.site
  purpose : call'.purpose = call.purpose
  requestIds : call.requestIds ⊆ call'.requestIds
  generationIds : call.generationIds ⊆ call'.generationIds
  recorded : call.recorded = true → call' = call

def Grows (calls calls' : List Call) : Prop :=
  ∀ (index : Nat) (call : Call), calls[index]? = some call → ∃ call', calls'[index]? = some call' ∧ call.Becomes call'

theorem Call.Becomes.refl (call : Call) : call.Becomes call where
  usage := rfl
  site := rfl
  purpose := rfl
  requestIds := List.Subset.refl _
  generationIds := List.Subset.refl _
  recorded := fun _ => rfl

theorem Grows.refl (calls : List Call) : Grows calls calls := fun _ call found => ⟨call, found, .refl call⟩

theorem Grows.concat (calls : List Call) (call : Call) : Grows calls (calls ++ [call]) :=
  fun _ before found => ⟨before, concat_found call found, .refl before⟩

theorem Grows.modify {calls : List Call} {index : Nat} {change : Call → Call}
    (becomes : ∀ call, calls[index]? = some call → call.Becomes (change call)) : Grows calls (calls.modify index change) := by
  intro at_ call found
  refine ⟨_, modify_found found, ?_⟩
  split
  next here => exact becomes call (here ▸ found)
  next => exact .refl call

theorem observe_becomes {call : Call} (requestId : Option Str) (generationId : Str) (unrecorded : call.recorded = false) :
    call.Becomes (call.observe requestId generationId) where
  usage := rfl
  site := rfl
  purpose := rfl
  requestIds := List.subset_append_left _ _
  generationIds := List.subset_append_left _ _
  recorded := fun recorded => by simp [unrecorded] at recorded

theorem finish_becomes {call : Call} (outcome : Outcome) (unrecorded : call.recorded = false) :
    call.Becomes (call.finish outcome) where
  usage := rfl
  site := rfl
  purpose := rfl
  requestIds := List.subset_append_left _ _
  generationIds := List.subset_append_left _ _
  recorded := fun recorded => by simp [unrecorded] at recorded

theorem record_becomes {call : Call} (unrecorded : call.recorded = false) : call.Becomes { call with recorded := true } where
  usage := rfl
  site := rfl
  purpose := rfl
  requestIds := List.Subset.refl _
  generationIds := List.Subset.refl _
  recorded := fun recorded => by simp [unrecorded] at recorded

theorem DistinctIds.of_grows {calls calls' : List Call} (grows : Grows calls calls') (distinct : DistinctIds calls') :
    DistinctIds calls := by
  intro index other call call' found otherFound shared
  obtain ⟨later, laterFound, becomes⟩ := grows index call found
  obtain ⟨later', laterFound', becomes'⟩ := grows other call' otherFound
  refine distinct index other later later' laterFound laterFound' ?_
  rcases shared with ⟨generationId, carried, carried'⟩ | ⟨requestId, carried, nonempty, carried'⟩
  · exact .inl ⟨generationId, becomes.generationIds carried, becomes'.generationIds carried'⟩
  · exact .inr ⟨requestId, becomes.requestIds carried, nonempty, becomes'.requestIds carried'⟩

theorem NoneConfused.of_grows {calls calls' : List Call} (grows : Grows calls calls') (none : NoneConfused calls') :
    NoneConfused calls := by
  intro index other call call' outcome outcome' found otherFound byName byName' confused
  obtain ⟨later, laterFound, becomes⟩ := grows index call found
  obtain ⟨later', laterFound', becomes'⟩ := grows other call' otherFound
  rw [becomes.recorded byName.1] at laterFound
  rw [becomes'.recorded byName'.1] at laterFound'
  exact none index other call call' outcome outcome' laterFound laterFound' byName byName' confused

theorem Grows.back {calls calls' : List Call} (grows : Grows calls calls') (length : calls'.length = calls.length)
    {index : Nat} {call' : Call} (found : calls'[index]? = some call') :
    ∃ call, calls[index]? = some call ∧ call.Becomes call' := by
  have bound := (List.getElem?_eq_some_iff.mp found).1
  obtain ⟨later, isLater, becomes⟩ := grows index _ (List.getElem?_eq_getElem (by omega))
  rw [found] at isLater
  cases isLater
  exact ⟨_, List.getElem?_eq_getElem (by omega), becomes⟩

/-! ## No run makes a call twice -/

/-- One run for each generation. -/
def UniqueRuns (runs : List Run) : Prop :=
  ∀ (index other : Nat) (run run' : Run), runs[index]? = some run → runs[other]? = some run' →
    run.usage.generationId = run'.usage.generationId → index = other

structure RunInv (runs : List Run) (calls : List Call) : Prop where
  unique : UniqueRuns runs
  owned : ∀ call ∈ calls, ∃ run ∈ runs, run.usage.generationId = call.usage.generationId
  made : ∀ run ∈ runs, ∀ call ∈ calls, call.usage.generationId = run.usage.generationId → ¬ run.stage.Later call.site
  sites : ∀ (index other : Nat) (call call' : Call), calls[index]? = some call → calls[other]? = some call' →
    call.usage.generationId = call'.usage.generationId → call.site = call'.site → index = other
  inFlight : ∀ run ∈ runs, ∀ index, run.stage.call? = some index →
    ∃ call, calls[index]? = some call ∧ call.usage.generationId = run.usage.generationId ∧ call.recorded = false

section

variable {runs : List Run} {calls calls' : List Call} {index : Nat} {run : Run} {stage : Stage}

def Run.go (stage : Stage) (run : Run) : Run := { run with stage }

theorem mem_go (found : runs[index]? = some run) {other : Run} (listed : other ∈ runs.modify index (Run.go stage)) :
    other ∈ runs ∨ other = run.go stage := by
  obtain ⟨at_, isOther⟩ := List.mem_iff_getElem?.mp listed
  rcases modify_cases isOther with ⟨-, kept⟩ | ⟨rfl, same, isSame, rfl⟩
  · exact .inl (List.mem_of_getElem? kept)
  · rw [found] at isSame
    cases isSame
    exact .inr rfl

theorem exists_go {other : Run} (listed : other ∈ runs) :
    ∃ after ∈ runs.modify index (Run.go stage), after.usage = other.usage := by
  obtain ⟨at_, found⟩ := List.mem_iff_getElem?.mp listed
  refine ⟨_, List.mem_of_getElem? (modify_found found), ?_⟩
  split <;> rfl

theorem UniqueRuns.go (unique : UniqueRuns runs) : UniqueRuns (runs.modify index (Run.go stage)) := by
  have back (at_ : Nat) (after : Run) (isAfter : (runs.modify index (Run.go stage))[at_]? = some after) :
      ∃ before, runs[at_]? = some before ∧ before.usage = after.usage := by
    rcases modify_cases isAfter with ⟨-, kept⟩ | ⟨-, before, isBefore, rfl⟩
    · exact ⟨after, kept, rfl⟩
    · exact ⟨before, isBefore, rfl⟩
  intro first second run run' found found' same
  obtain ⟨before, isBefore, usage⟩ := back first run found
  obtain ⟨before', isBefore', usage'⟩ := back second run' found'
  exact unique first second before before' isBefore isBefore' (by rw [usage, usage', same])

/-- A run goes on without a new call. -/
theorem RunInv.go (invariant : RunInv runs calls) (found : runs[index]? = some run)
    (later : ∀ site, stage.Later site → run.stage.Later site) (sameCall : stage.call? = none ∨ stage.call? = run.stage.call?) :
    RunInv (runs.modify index (Run.go stage)) calls where
  unique := invariant.unique.go
  owned := fun call listed => by
    obtain ⟨owner, isOwner, same⟩ := invariant.owned call listed
    obtain ⟨after, isAfter, usage⟩ := exists_go isOwner
    exact ⟨after, isAfter, by rw [usage, same]⟩
  made := fun other isOther call listed same => by
    rcases mem_go found isOther with kept | rfl
    · exact invariant.made other kept call listed same
    · exact fun isLater => invariant.made run (List.mem_of_getElem? found) call listed same (later _ isLater)
  sites := invariant.sites
  inFlight := fun other isOther at_ isCall => by
    rcases mem_go found isOther with kept | rfl
    · exact invariant.inFlight other kept at_ isCall
    · rcases sameCall with noCall | same
      · rw [show (run.go stage).stage = stage from rfl, noCall] at isCall
        cases isCall
      · exact invariant.inFlight run (List.mem_of_getElem? found) at_ (same ▸ isCall)

/-- The calls gain ids; those in flight are still not recorded. -/
theorem RunInv.grow (invariant : RunInv runs calls) (grows : Grows calls calls') (length : calls'.length = calls.length)
    (unrecorded : ∀ run ∈ runs, ∀ index, run.stage.call? = some index → ∀ call', calls'[index]? = some call' →
      call'.recorded = false) : RunInv runs calls' where
  unique := invariant.unique
  owned := fun call' listed => by
    obtain ⟨at_, found⟩ := List.mem_iff_getElem?.mp listed
    obtain ⟨call, isCall, becomes⟩ := grows.back length found
    rw [becomes.usage]
    exact invariant.owned call (List.mem_of_getElem? isCall)
  made := fun run isRun call' listed => by
    obtain ⟨at_, found⟩ := List.mem_iff_getElem?.mp listed
    obtain ⟨call, isCall, becomes⟩ := grows.back length found
    rw [becomes.usage, becomes.site]
    exact invariant.made run isRun call (List.mem_of_getElem? isCall)
  sites := fun first second call call' found found' => by
    obtain ⟨before, isBefore, becomes⟩ := grows.back length found
    obtain ⟨before', isBefore', becomes'⟩ := grows.back length found'
    rw [becomes.usage, becomes.site, becomes'.usage, becomes'.site]
    exact invariant.sites first second before before' isBefore isBefore'
  inFlight := fun run isRun at_ isCall => by
    obtain ⟨call, found, same, -⟩ := invariant.inFlight run isRun at_ isCall
    obtain ⟨call', found', becomes⟩ := grows at_ call found
    exact ⟨call', found', by rw [becomes.usage, same], unrecorded run isRun at_ isCall call' found'⟩

/-- Two runs are never in one call. -/
theorem RunInv.eq_of_call (invariant : RunInv runs calls) {other : Run} {call : Nat} {at_ : Nat} (found : runs[index]? = some run)
    (otherFound : runs[at_]? = some other) (inCall : run.stage.call? = some call) (otherInCall : other.stage.call? = some call) :
    at_ = index := by
  obtain ⟨entry, isEntry, same, -⟩ := invariant.inFlight run (List.mem_of_getElem? found) call inCall
  obtain ⟨entry', isEntry', same', -⟩ := invariant.inFlight other (List.mem_of_getElem? otherFound) call otherInCall
  rw [isEntry] at isEntry'
  cases isEntry'
  exact invariant.unique at_ index other run otherFound found (by rw [← same, ← same'])

/-- A run makes a call it has not made before. -/
theorem RunInv.call {position : Position} {call : Call} (invariant : RunInv runs calls) (found : runs[index]? = some run)
    (isAt : run.stage = .at position) (next : position.site? = some call.site) (usage : call.usage = run.usage)
    (unrecorded : call.recorded = false) :
    RunInv (runs.modify index (Run.go (.calling position calls.length))) (calls ++ [call]) := by
  have inRuns := List.mem_of_getElem? found
  have fresh : ∀ before ∈ calls, before.usage.generationId = call.usage.generationId → before.site ≠ call.site := by
    intro before listed same sameSite
    have upcoming : run.stage.Later before.site := by
      rw [isAt, sameSite]
      exact Position.upcoming_site next
    exact invariant.made run inRuns before listed (by rw [same, usage]) upcoming
  refine ⟨invariant.unique.go, fun entry listed => ?_, fun other isOther entry listed same => ?_, ?_, fun other isOther at_ isCall => ?_⟩
  · rcases List.mem_append.mp listed with before | last
    · obtain ⟨owner, isOwner, same⟩ := invariant.owned entry before
      obtain ⟨after, isAfter, sameUsage⟩ := exists_go isOwner
      exact ⟨after, isAfter, by rw [sameUsage, same]⟩
    · rw [List.mem_singleton.mp last, usage]
      obtain ⟨after, isAfter, sameUsage⟩ := exists_go inRuns
      exact ⟨after, isAfter, by rw [sameUsage]⟩
  · obtain ⟨at_, isRun⟩ := List.mem_iff_getElem?.mp isOther
    rcases modify_cases isRun with ⟨elsewhere, kept⟩ | ⟨rfl, before, isBefore, rfl⟩
    · rcases List.mem_append.mp listed with before | last
      · exact invariant.made other (List.mem_of_getElem? kept) entry before same
      · rw [List.mem_singleton.mp last, usage] at same
        exact absurd (invariant.unique at_ index other run kept found same.symm) elsewhere
    · rw [found] at isBefore
      cases isBefore
      rcases List.mem_append.mp listed with before | last
      · rintro ⟨upcoming, -⟩
        have stillUpcoming : run.stage.Later entry.site := by
          rw [isAt]
          exact upcoming
        exact invariant.made run inRuns entry before same stillUpcoming
      · rw [List.mem_singleton.mp last]
        exact fun later => later.2 next
  · intro first second entry entry' isEntry isEntry' same sameSite
    rcases concat_cases isEntry with before | ⟨atEnd, rfl⟩
    · rcases concat_cases isEntry' with before' | ⟨-, rfl⟩
      · exact invariant.sites first second entry entry' before before' same sameSite
      · exact absurd sameSite (fresh entry (List.mem_of_getElem? before) same)
    · rcases concat_cases isEntry' with before' | ⟨atEnd', -⟩
      · exact absurd sameSite.symm (fresh entry' (List.mem_of_getElem? before') same.symm)
      · rw [atEnd, atEnd']
  · rcases mem_go found isOther with kept | rfl
    · obtain ⟨entry, isEntry, facts⟩ := invariant.inFlight other kept at_ isCall
      exact ⟨entry, concat_found call isEntry, facts⟩
    · cases isCall
      exact ⟨call, by simp, by rw [usage]; rfl, unrecorded⟩

theorem RunInv.schedule {fresh : Run} (invariant : RunInv runs calls) (isFresh : ∀ run ∈ runs, run.usage.generationId ≠ fresh.usage.generationId)
    (noCall : fresh.stage.call? = none) : RunInv (runs ++ [fresh]) calls where
  unique := by
    intro first second run run' found found' same
    rcases concat_cases found with before | ⟨atEnd, rfl⟩
    · rcases concat_cases found' with before' | ⟨-, rfl⟩
      · exact invariant.unique first second run run' before before' same
      · exact absurd same (isFresh run (List.mem_of_getElem? before))
    · rcases concat_cases found' with before' | ⟨atEnd', -⟩
      · exact absurd same.symm (isFresh run' (List.mem_of_getElem? before'))
      · rw [atEnd, atEnd']
  owned := fun call listed => by
    obtain ⟨owner, isOwner, same⟩ := invariant.owned call listed
    exact ⟨owner, List.mem_append_left _ isOwner, same⟩
  made := fun run isRun call listed same => by
    rcases List.mem_append.mp isRun with before | last
    · exact invariant.made run before call listed same
    · obtain ⟨owner, isOwner, sameOwner⟩ := invariant.owned call listed
      rw [List.mem_singleton.mp last] at same
      exact absurd (sameOwner.trans same) (isFresh owner isOwner)
  sites := invariant.sites
  inFlight := fun run isRun at_ isCall => by
    rcases List.mem_append.mp isRun with before | last
    · exact invariant.inFlight run before at_ isCall
    · rw [List.mem_singleton.mp last, noCall] at isCall
      cases isCall

end

/-- In a list of runs that make no call twice, one step makes none either. -/
theorem LedgerEffect.runInv {s s' : LedgerState} (effect : LedgerEffect billed s s') (invariant : RunInv s.runs s.calls) :
    RunInv s'.runs s'.calls ∧ Grows s.calls s'.calls := by
  cases effect with
  | schedule fresh => exact ⟨invariant.schedule fresh rfl, .refl _⟩
  | move found noCall later => exact ⟨invariant.go found later (.inl noCall), .refl _⟩
  | call found isAt next => exact ⟨invariant.call found isAt next rfl rfl, .concat _ _⟩
  | @observe index run call requestId generationId found inCall =>
    obtain ⟨entry, isEntry, -, unrecorded⟩ := invariant.inFlight run (List.mem_of_getElem? found) call inCall
    have grows : Grows s.calls (s.calls.modify call (Call.observe requestId generationId)) := .modify fun before isBefore => by
      rw [isEntry] at isBefore
      cases isBefore
      exact observe_becomes requestId generationId unrecorded
    refine ⟨invariant.grow grows (List.length_modify ..) fun other isOther at_ isCall entry' isEntry' => ?_, grows⟩
    obtain ⟨before, isBefore, -, beforeUnrecorded⟩ := invariant.inFlight other isOther at_ isCall
    rcases modify_cases isEntry' with ⟨-, kept⟩ | ⟨-, same, isSame, rfl⟩
    · rw [isBefore] at kept
      cases kept
      exact beforeUnrecorded
    · rw [isBefore] at isSame
      cases isSame
      exact beforeUnrecorded
  | @finish index run position call outcome found isCalling =>
    have inCall : run.stage.call? = some call := by rw [isCalling]; rfl
    obtain ⟨entry, isEntry, -, unrecorded⟩ := invariant.inFlight run (List.mem_of_getElem? found) call inCall
    have grows : Grows s.calls (s.calls.modify call (Call.finish outcome)) := .modify fun before isBefore => by
      rw [isEntry] at isBefore
      cases isBefore
      exact finish_becomes outcome unrecorded
    have went : RunInv (s.runs.modify index (Run.go (.recording position call))) s.calls :=
      invariant.go found (fun site later => by rw [isCalling]; exact later) (.inr (by rw [isCalling]; rfl))
    refine ⟨went.grow grows (List.length_modify ..) fun other isOther at_ isCall entry' isEntry' => ?_, grows⟩
    obtain ⟨before, isBefore, -, beforeUnrecorded⟩ := went.inFlight other isOther at_ isCall
    rcases modify_cases isEntry' with ⟨-, kept⟩ | ⟨-, same, isSame, rfl⟩
    · rw [isBefore] at kept
      cases kept
      exact beforeUnrecorded
    · rw [isBefore] at isSame
      cases isSame
      exact beforeUnrecorded
  | @record index run position call entry outcome ended found isRecording isEntry isOutcome =>
    have inCall : run.stage.call? = some call := by rw [isRecording]; rfl
    obtain ⟨same, isSame, -, unrecorded⟩ := invariant.inFlight run (List.mem_of_getElem? found) call inCall
    have grows : Grows s.calls (s.calls.modify call fun entry => { entry with recorded := true }) := .modify fun before isBefore => by
      rw [isSame] at isBefore
      cases isBefore
      exact record_becomes unrecorded
    have went : RunInv (s.runs.modify index (Run.go (.returned position ended))) s.calls :=
      invariant.go found (fun site later => by rw [isRecording]; exact later) (.inl rfl)
    refine ⟨went.grow grows (List.length_modify ..) fun other isOther at_ isCall entry' isEntry' => ?_, grows⟩
    obtain ⟨slot, isSlot⟩ := List.mem_iff_getElem?.mp isOther
    rcases modify_cases isSlot with ⟨elsewhere, kept⟩ | ⟨-, before, -, rfl⟩
    · obtain ⟨before, isBefore, -, beforeUnrecorded⟩ := invariant.inFlight other (List.mem_of_getElem? kept) at_ isCall
      rcases modify_cases isEntry' with ⟨-, entryKept⟩ | ⟨rfl, -, -, -⟩
      · rw [isBefore] at entryKept
        cases entryKept
        exact beforeUnrecorded
      · exact absurd (invariant.eq_of_call found kept inCall isCall) elsewhere
    · cases isCall
  | recordProviderIds | reconcile | select | forget => exact ⟨invariant, .refl _⟩

/-! ## Rows -/

/-- What a row says about its call. -/
inductive RowOf (billed : Str → Nat) (calls : List Call) (row : UsageEvent) : Prop where
  | pending {call : Call} {generationId : Str} : calls[row.call]? = some call → generationId ∈ call.generationIds →
      row.purpose = call.purpose → row.eventType = .pending → row.providerGenerationId = some generationId →
      row.dedupeKey = dedupeKey generationId call.purpose .reconcilePending → RowOf billed calls row
  | charged {call : Call} {generationId : Str} : calls[row.call]? = some call → generationId ∈ call.generationIds →
      row.purpose = call.purpose → row.eventType = .charge → row.providerGenerationId = some generationId →
      row.dedupeKey = dedupeKey generationId call.purpose .reconciledCharge →
      (row.amountMicrousd = some (billed generationId) ∨
        call.recorded = true ∧ ∃ outcome, call.outcome = some outcome ∧ row.amountMicrousd = outcome.costMicrousd) →
      RowOf billed calls row
  | named {call : Call} {outcome : Outcome} : calls[row.call]? = some call → call.ChargedByName outcome →
      row.eventType = .charge → row.providerGenerationId = none → row.amountMicrousd = outcome.costMicrousd →
      row.dedupeKey = dedupeKey (call.name outcome) call.purpose outcome.suffix → RowOf billed calls row

theorem RowOf.mono {calls calls' : List Call} {row : UsageEvent} (rowOf : RowOf billed calls row) (grows : Grows calls calls') :
    RowOf billed calls' row := by
  cases rowOf with
  | @pending call generationId found carried purpose isPending isGeneration key =>
    obtain ⟨later, laterFound, becomes⟩ := grows _ call found
    exact .pending laterFound (becomes.generationIds carried) (purpose.trans becomes.purpose.symm) isPending isGeneration
      (by rw [key, becomes.purpose])
  | @charged call generationId found carried purpose isCharge isGeneration key amount =>
    obtain ⟨later, laterFound, becomes⟩ := grows _ call found
    refine .charged laterFound (becomes.generationIds carried) (purpose.trans becomes.purpose.symm) isCharge isGeneration
      (by rw [key, becomes.purpose]) ?_
    rcases amount with asBilled | ⟨recorded, reported⟩
    · exact .inl asBilled
    · rw [becomes.recorded recorded]
      exact .inr ⟨recorded, reported⟩
  | @named call outcome found byName isCharge noGeneration amount key =>
    obtain ⟨later, laterFound, becomes⟩ := grows _ call found
    rw [becomes.recorded byName.1] at laterFound
    exact .named laterFound byName isCharge noGeneration amount key

/-- The ledger is about the calls. -/
structure LedgerInv (billed : Str → Nat) (s : LedgerState) : Prop where
  rows : ∀ row ∈ s.ledger, RowOf billed s.calls row
  unique : (s.ledger.map UsageEvent.dedupeKey).Nodup
  writes : ∀ write ∈ s.writes, ∃ call, s.calls[write.call]? = some call ∧ write.providerGenerationId ∈ call.generationIds
  reconciling : ∀ event ∈ s.reconciling, event ∈ s.ledger ∧ event.eventType = .pending
  observed : ∀ call ∈ s.calls, ∀ requestId generationId, call.observed = some (requestId, generationId) →
    generationId ∈ call.generationIds ∧ ∀ id, requestId = some id → id ∈ call.requestIds
  outcomes : ∀ call ∈ s.calls, ∀ outcome, call.outcome = some outcome →
    (∀ id, outcome.providerGenerationId = some id → id ∈ call.generationIds) ∧
      ∀ id, outcome.providerRequestId = some id → id ∈ call.requestIds

theorem ledgerInv_empty : LedgerInv billed LedgerState.empty where
  rows := by simp [LedgerState.empty]
  unique := by simp [LedgerState.empty]
  writes := by simp [LedgerState.empty]
  reconciling := by simp [LedgerState.empty]
  observed := by simp [LedgerState.empty]
  outcomes := by simp [LedgerState.empty]

theorem either_eq_some {value other : Option Str} {text : Str} (same : either value other = some text) :
    value = some text ∨ other = some text := by
  unfold either at same
  split at same
  next => exact .inl same
  next => exact .inr same

/-- The ids `_record_usage` goes by are ids the call has carried. -/
theorem LedgerInv.carried {s : LedgerState} (invariant : LedgerInv billed s) {call : Call} {outcome : Outcome}
    (listed : call ∈ s.calls) (isOutcome : call.outcome = some outcome) :
    (∀ id, call.providerGenerationId outcome = some id → id ∈ call.generationIds) ∧
      ∀ id, call.requestId outcome = some id → id ∈ call.requestIds := by
  obtain ⟨generationIds, requestIds⟩ := invariant.outcomes call listed outcome isOutcome
  refine ⟨fun id isId => ?_, fun id isId => ?_⟩
  · rcases either_eq_some isId with reported | observed
    · exact generationIds id reported
    · obtain ⟨⟨requestId, generationId⟩, isObserved, rfl⟩ := Option.map_eq_some_iff.mp observed
      exact (invariant.observed call listed requestId generationId isObserved).1
  · rcases either_eq_some isId with reported | observed
    · exact requestIds id reported
    · obtain ⟨⟨requestId, generationId⟩, isObserved, isRequest⟩ := Option.bind_eq_some_iff.mp observed
      exact (invariant.observed call listed requestId generationId isObserved).2 id isRequest

theorem rows_append {calls : List Call} {ledger : List UsageEvent} {event : UsageEvent}
    (rows : ∀ row ∈ ledger, RowOf billed calls row) (new : RowOf billed calls event) :
    ∀ row ∈ appendUsageEvent ledger event, RowOf billed calls row := by
  intro row listed
  rcases mem_appendUsageEvent listed with before | rfl
  · exact rows row before
  · exact new

theorem mem_modify {calls : List Call} {index : Nat} {change : Call → Call} {call : Call}
    (listed : call ∈ calls.modify index change) : call ∈ calls ∨ ∃ before ∈ calls, call = change before := by
  obtain ⟨at_, found⟩ := List.mem_iff_getElem?.mp listed
  rcases modify_cases found with ⟨-, kept⟩ | ⟨-, before, isBefore, rfl⟩
  · exact .inl (List.mem_of_getElem? kept)
  · exact .inr ⟨before, List.mem_of_getElem? isBefore, rfl⟩

/-- The ids of changed calls are still their own. -/
theorem LedgerInv.modify {s : LedgerState} {index : Nat} {change : Call → Call} (invariant : LedgerInv billed s)
    (grows : Grows s.calls (s.calls.modify index change))
    (observed : ∀ call ∈ s.calls, ∀ requestId generationId, (change call).observed = some (requestId, generationId) →
      generationId ∈ (change call).generationIds ∧ ∀ id, requestId = some id → id ∈ (change call).requestIds)
    (outcomes : ∀ call ∈ s.calls, ∀ outcome, (change call).outcome = some outcome →
      (∀ id, outcome.providerGenerationId = some id → id ∈ (change call).generationIds) ∧
        ∀ id, outcome.providerRequestId = some id → id ∈ (change call).requestIds) :
    LedgerInv billed { s with calls := s.calls.modify index change } where
  rows := fun row listed => (invariant.rows row listed).mono grows
  unique := invariant.unique
  writes := fun write listed => by
    obtain ⟨call, found, carried⟩ := invariant.writes write listed
    obtain ⟨later, laterFound, becomes⟩ := grows _ call found
    exact ⟨later, laterFound, becomes.generationIds carried⟩
  reconciling := invariant.reconciling
  observed := fun call listed => by
    rcases mem_modify listed with before | ⟨before, isBefore, rfl⟩
    · exact invariant.observed call before
    · exact observed before isBefore
  outcomes := fun call listed => by
    rcases mem_modify listed with before | ⟨before, isBefore, rfl⟩
    · exact invariant.outcomes call before
    · exact outcomes before isBefore

/-- A row about a call is appended. -/
theorem LedgerInv.append {s : LedgerState} {event : UsageEvent} {writes : List IdsWrite} {reconciling : List UsageEvent}
    (invariant : LedgerInv billed s) (new : RowOf billed s.calls event) (fewerWrites : writes ⊆ s.writes)
    (fewer : reconciling ⊆ s.reconciling) :
    LedgerInv billed { s with writes, reconciling, ledger := appendUsageEvent s.ledger event } where
  rows := rows_append invariant.rows new
  unique := nodup_appendUsageEvent invariant.unique
  writes := fun write listed => invariant.writes write (fewerWrites listed)
  reconciling := fun row listed =>
    ⟨subset_appendUsageEvent _ _ (invariant.reconciling row (fewer listed)).1, (invariant.reconciling row (fewer listed)).2⟩
  observed := invariant.observed
  outcomes := invariant.outcomes

theorem LedgerInv.observe {s : LedgerState} {index : Nat} {requestId : Option Str} {generationId : Str} {call : Call}
    (invariant : LedgerInv billed s) (found : s.calls[index]? = some call)
    (grows : Grows s.calls (s.calls.modify index (Call.observe requestId generationId))) :
    LedgerInv billed { s with
      calls := s.calls.modify index (Call.observe requestId generationId)
      writes := s.writes ++ [⟨index, requestId, generationId⟩] } := by
  have changed := invariant.modify grows
    (fun call _ _ _ isObserved => by
      cases isObserved
      exact ⟨by simp [Call.observe], fun id isId => by simp [Call.observe, isId]⟩)
    (fun call listed outcome isOutcome => by
      obtain ⟨generationIds, requestIds⟩ := invariant.outcomes call listed outcome isOutcome
      exact ⟨fun id isId => List.mem_append_left _ (generationIds id isId), fun id isId => List.mem_append_left _ (requestIds id isId)⟩)
  refine ⟨changed.rows, changed.unique, fun write listed => ?_, changed.reconciling, changed.observed, changed.outcomes⟩
  rcases List.mem_append.mp listed with before | last
  · exact changed.writes write before
  · rw [List.mem_singleton.mp last]
    exact ⟨_, modify_found found, by simp [Call.observe]⟩

theorem LedgerInv.finish {s : LedgerState} {index : Nat} {outcome : Outcome} (invariant : LedgerInv billed s)
    (grows : Grows s.calls (s.calls.modify index (Call.finish outcome))) :
    LedgerInv billed { s with calls := s.calls.modify index (Call.finish outcome) } :=
  invariant.modify grows
    (fun call listed requestId generationId isObserved => by
      obtain ⟨isGeneration, isRequest⟩ := invariant.observed call listed requestId generationId isObserved
      exact ⟨List.mem_append_left _ isGeneration, fun id isId => List.mem_append_left _ (isRequest id isId)⟩)
    (fun call _ _ isOutcome => by
      cases isOutcome
      exact ⟨fun id isId => by simp [Call.finish, isId], fun id isId => by simp [Call.finish, isId]⟩)

/-- The row `_record_usage` appends is about its call. -/
theorem LedgerInv.record {s : LedgerState} {index : Nat} {call : Call} {outcome : Outcome} (invariant : LedgerInv billed s)
    (found : s.calls[index]? = some call) (isOutcome : call.outcome = some outcome)
    (grows : Grows s.calls (s.calls.modify index fun call => { call with recorded := true })) :
    LedgerInv billed (s.recordCall index call outcome) := by
  have changed := invariant.modify grows (fun call listed => invariant.observed call listed)
    (fun call listed => invariant.outcomes call listed)
  have nowFound : (s.calls.modify index fun call => { call with recorded := true })[index]? =
      some { call with recorded := true } := by
    rw [modify_found found, if_pos rfl]
  obtain ⟨generationIds, -⟩ := invariant.carried (List.mem_of_getElem? found) isOutcome
  unfold LedgerState.recordCall recordUsage
  split
  next => exact changed
  next generationId _ isGeneration =>
    exact changed.append (.pending nowFound (generationIds _ isGeneration) rfl rfl rfl rfl) (List.Subset.refl _) (List.Subset.refl _)
  next _ cost isCost =>
    refine changed.append ?_ (List.Subset.refl _) (List.Subset.refl _)
    cases isGeneration : call.providerGenerationId outcome with
    | none =>
      exact .named nowFound ⟨rfl, isOutcome, by simp [isCost], isGeneration⟩ rfl rfl isCost.symm
        (by simp only [Call.chargeKey, isGeneration]; rfl)
    | some generationId =>
      exact .charged nowFound (generationIds _ isGeneration) rfl rfl rfl (by simp only [Call.chargeKey, isGeneration])
        (.inr ⟨rfl, outcome, isOutcome, isCost.symm⟩)

theorem mem_candidates {ledger : List UsageEvent} {chosen : UsageEvent → Bool} {event : UsageEvent}
    (listed : event ∈ (candidates ledger).filter chosen) : event ∈ ledger ∧ event.eventType = .pending := by
  obtain ⟨inLedger, isCandidate⟩ := List.mem_filter.mp (List.mem_filter.mp listed).1
  exact ⟨inLedger, by simpa using (of_decide_eq_true isCandidate).1⟩

/-- A pending row is about a call that carries its id. -/
theorem RowOf.of_pending {calls : List Call} {row : UsageEvent} {generationId : Str} (rowOf : RowOf billed calls row)
    (isPending : row.eventType = .pending) (isGeneration : row.providerGenerationId = some generationId) :
    ∃ call, calls[row.call]? = some call ∧ generationId ∈ call.generationIds ∧ row.purpose = call.purpose := by
  cases rowOf with
  | pending found carried purpose _ sameGeneration =>
    rw [isGeneration] at sameGeneration
    cases sameGeneration
    exact ⟨_, found, carried, purpose⟩
  | charged _ _ _ isCharge => rw [isPending] at isCharge; cases isCharge
  | named _ _ isCharge => rw [isPending] at isCharge; cases isCharge

theorem LedgerEffect.ledgerInv {s s' : LedgerState} (effect : LedgerEffect billed s s') (runInv : RunInv s.runs s.calls)
    (invariant : LedgerInv billed s) : LedgerInv billed s' := by
  have grows := (effect.runInv runInv).2
  cases effect with
  | schedule | move => exact ⟨invariant.rows, invariant.unique, invariant.writes, invariant.reconciling, invariant.observed, invariant.outcomes⟩
  | @call index run position site =>
    refine ⟨fun row listed => (invariant.rows row listed).mono grows, invariant.unique, fun write listed => ?_,
      invariant.reconciling, fun call listed => ?_, fun call listed => ?_⟩
    · obtain ⟨call, found, carried⟩ := invariant.writes write listed
      exact ⟨call, concat_found _ found, carried⟩
    · rcases List.mem_append.mp listed with before | last
      · exact invariant.observed call before
      · rw [List.mem_singleton.mp last]
        exact fun _ _ isObserved => by cases isObserved
    · rcases List.mem_append.mp listed with before | last
      · exact invariant.outcomes call before
      · rw [List.mem_singleton.mp last]
        exact fun _ isOutcome => by cases isOutcome
  | @observe index run call _ _ found inCall =>
    obtain ⟨entry, isEntry, -⟩ := runInv.inFlight run (List.mem_of_getElem? found) call inCall
    exact invariant.observe isEntry grows
  | finish =>
    have changed := invariant.finish grows
    exact ⟨changed.rows, changed.unique, changed.writes, changed.reconciling, changed.observed, changed.outcomes⟩
  | record found isRecording isEntry isOutcome =>
    have changed := invariant.record isEntry isOutcome grows
    exact ⟨changed.rows, changed.unique, changed.writes, changed.reconciling, changed.observed, changed.outcomes⟩
  | @recordProviderIds write writes call isWrites found =>
    obtain ⟨same, isSame, carried⟩ := invariant.writes write (by simp [isWrites])
    rw [found] at isSame
    cases isSame
    exact invariant.append (.pending found carried rfl rfl rfl rfl) (by simp [isWrites]) (List.Subset.refl _)
  | @reconcile event events generationId isReconciling isGeneration =>
    obtain ⟨inLedger, isPending⟩ := invariant.reconciling event (by simp [isReconciling])
    obtain ⟨call, found, carried, purpose⟩ := (invariant.rows event inLedger).of_pending isPending isGeneration
    refine invariant.append (.charged found carried purpose rfl rfl ?_ (.inl rfl)) (List.Subset.refl _) (by simp [isReconciling])
    rw [← purpose]
    rfl
  | select =>
    exact ⟨invariant.rows, invariant.unique, invariant.writes, fun event listed => mem_candidates listed,
      invariant.observed, invariant.outcomes⟩
  | forget fewerWrites fewer =>
    exact ⟨invariant.rows, invariant.unique, fun write listed => invariant.writes write (fewerWrites listed),
      fun event listed => invariant.reconciling event (fewer listed), invariant.observed, invariant.outcomes⟩

/-! ## Keys of calls -/

theorem Outcome.suffix_ne (outcome : Outcome) : outcome.suffix ≠ .reconcilePending ∧ outcome.suffix ≠ .reconciledCharge := by
  unfold Outcome.suffix
  split <;> exact ⟨nofun, nofun⟩

theorem Outcome.failed_of_suffix {outcome other : Outcome} (same : outcome.suffix = other.suffix) : outcome.failed = other.failed := by
  unfold Outcome.suffix at same
  cases failed : outcome.failed <;> cases otherFailed : other.failed <;> simp_all

theorem CallSite.scope_ne_nil (generationId : GenerationId) (site : CallSite) : site.scope generationId ≠ [] := by
  rw [CallSite.scope_eq, joinColons]
  cases site.fields with
  | nil =>
    rw [List.intercalate_singleton]
    exact generationId.nonempty
  | cons field fields => simp [List.intercalate_cons_cons]

/-- A call goes by its request id, or by its scope where it has none. -/
theorem Call.name_cases (call : Call) (outcome : Outcome) :
    (∃ requestId, call.requestId outcome = some requestId ∧ requestId ≠ [] ∧ call.name outcome = requestId) ∨
      call.Unnamed outcome ∧ call.name outcome = call.scope := by
  unfold Call.Unnamed Call.name
  cases call.requestId outcome with
  | none => exact .inr ⟨rfl, rfl⟩
  | some requestId =>
    cases requestId with
    | nil => exact .inr ⟨rfl, rfl⟩
    | cons c text => exact .inl ⟨c :: text, rfl, by simp, rfl⟩

theorem Call.name_of_unnamed {call : Call} {outcome : Outcome} (unnamed : call.Unnamed outcome) :
    call.name outcome = call.scope := by
  rcases call.name_cases outcome with ⟨requestId, isRequest, nonempty, -⟩ | ⟨-, same⟩
  · rw [Call.Unnamed, isRequest] at unnamed
    cases requestId with
    | nil => exact absurd rfl nonempty
    | cons c text => cases unnamed
  · exact same

theorem Call.name_of_requestId {call : Call} {outcome : Outcome} {requestId : Str} (isRequest : call.requestId outcome = some requestId)
    (nonempty : requestId ≠ []) : call.name outcome = requestId := by
  cases requestId with
  | nil => exact absurd rfl nonempty
  | cons c text =>
    rw [Call.name, isRequest]
    rfl

/-- Calls that are confused go by one name. -/
theorem Confused.name {call other : Call} {outcome otherOutcome : Outcome} (confused : Confused call other outcome otherOutcome) :
    call.name outcome = other.name otherOutcome := by
  obtain ⟨-, -, repeats | asScope | asScope⟩ := confused
  · obtain ⟨unnamed, otherUnnamed, sameGeneration, round, round', index, -, isMerge, otherIsMerge⟩ := repeats
    rw [Call.name_of_unnamed unnamed, Call.name_of_unnamed otherUnnamed, Call.scope, Call.scope, isMerge, otherIsMerge, sameGeneration]
    rfl
  · obtain ⟨isRequest, otherUnnamed⟩ := asScope
    rw [Call.name_of_requestId isRequest (CallSite.scope_ne_nil _ _), Call.name_of_unnamed otherUnnamed]
  · obtain ⟨unnamed, isRequest⟩ := asScope
    rw [Call.name_of_requestId isRequest (CallSite.scope_ne_nil _ _), Call.name_of_unnamed unnamed]

section

variable {s : LedgerState} {index : Nat} {call : Call} {outcome : Outcome} {row : UsageEvent}

/-- A row under the key of its call is the charge for it. -/
theorem RowOf.of_key (rowOf : RowOf billed s.calls row) (found : s.calls[row.call]? = some call)
    (isOutcome : call.outcome = some outcome) (key : row.dedupeKey = call.chargeKey outcome) :
    row.isChargeOf row.call (call.providerGenerationId outcome) = true ∧
      (row.amountMicrousd = outcome.costMicrousd ∨ ∃ generationId,
        call.providerGenerationId outcome = some generationId ∧ row.amountMicrousd = some (billed generationId)) := by
  cases rowOf with
  | pending _ _ _ _ _ ownKey =>
    rw [ownKey, Call.chargeKey] at key
    split at key
    next => cases (dedupeKey_inj key).2.2
    next => exact absurd (dedupeKey_inj key).2.2.symm outcome.suffix_ne.1
  | @charged same generationId isSame _ _ isCharge isGeneration ownKey amount =>
    rw [found] at isSame
    cases isSame
    rw [ownKey, Call.chargeKey] at key
    split at key
    next reported isReported =>
      obtain ⟨rfl, -, -⟩ := dedupeKey_inj key
      refine ⟨by simp [UsageEvent.isChargeOf, isCharge, isGeneration, isReported], ?_⟩
      rcases amount with asBilled | ⟨-, other, isOther, reported⟩
      · exact .inr ⟨generationId, isReported, asBilled⟩
      · rw [isOutcome] at isOther
        cases isOther
        exact .inl reported
    next => exact absurd (dedupeKey_inj key).2.2.symm outcome.suffix_ne.2
  | @named same other isSame byName isCharge noGeneration amount ownKey =>
    rw [found] at isSame
    cases isSame
    have sameOutcome := byName.2.1
    rw [isOutcome] at sameOutcome
    cases sameOutcome
    exact ⟨by simp [UsageEvent.isChargeOf, isCharge, noGeneration, byName.2.2.2], .inl amount⟩

/-- A charge for a call is under the key of the call. -/
theorem RowOf.key_of_charge (rowOf : RowOf billed s.calls row) (found : s.calls[index]? = some call)
    (isOutcome : call.outcome = some outcome) (charge : row.isChargeOf index (call.providerGenerationId outcome) = true) :
    row.dedupeKey = call.chargeKey outcome := by
  simp only [UsageEvent.isChargeOf, decide_eq_true_eq] at charge
  obtain ⟨isCharge, rfl, sameGeneration⟩ := charge
  cases rowOf with
  | pending _ _ _ isPending => rw [isCharge] at isPending; cases isPending
  | charged isSame _ _ _ isGeneration ownKey =>
    rw [found] at isSame
    cases isSame
    rw [ownKey, Call.chargeKey, ← sameGeneration, isGeneration]
  | named isSame byName _ noGeneration _ ownKey =>
    rw [found] at isSame
    cases isSame
    have sameOutcome := byName.2.1
    rw [isOutcome] at sameOutcome
    cases sameOutcome
    rw [ownKey, Call.chargeKey, byName.2.2.2]

/-- Only its own row has the key of a call that is not confused with another. -/
theorem call_of_key (runInv : RunInv s.runs s.calls) (invariant : LedgerInv billed s) (distinct : DistinctIds s.calls)
    (noneConfused : NoneConfused s.calls) (found : s.calls[index]? = some call) (recorded : call.recorded = true)
    (isOutcome : call.outcome = some outcome) (hasCost : outcome.costMicrousd ≠ none) (listed : row ∈ s.ledger)
    (key : row.dedupeKey = call.chargeKey outcome) : row.call = index := by
  obtain ⟨generationIds, requestIds⟩ := invariant.carried (List.mem_of_getElem? found) isOutcome
  cases invariant.rows row listed with
  | pending _ _ _ _ _ ownKey =>
    rw [ownKey, Call.chargeKey] at key
    split at key
    next => cases (dedupeKey_inj key).2.2
    next => exact absurd (dedupeKey_inj key).2.2.symm outcome.suffix_ne.1
  | @charged other generationId otherFound carried _ _ _ ownKey =>
    rw [ownKey, Call.chargeKey] at key
    split at key
    next reported isReported =>
      obtain ⟨rfl, -, -⟩ := dedupeKey_inj key
      exact distinct _ _ other call otherFound found (.inl ⟨generationId, carried, generationIds _ isReported⟩)
    next => exact absurd (dedupeKey_inj key).2.2.symm outcome.suffix_ne.2
  | @named other otherOutcome otherFound byName _ _ _ ownKey =>
    rw [ownKey, Call.chargeKey] at key
    split at key
    next => exact absurd (dedupeKey_inj key).2.2 otherOutcome.suffix_ne.2
    next noGeneration =>
      obtain ⟨sameName, samePurpose, sameSuffix⟩ := dedupeKey_inj key
      have failed := Outcome.failed_of_suffix sameSuffix
      have callByName : call.ChargedByName outcome := ⟨recorded, isOutcome, hasCost, noGeneration⟩
      have confused (names : _) : row.call = index :=
        noneConfused _ _ other call otherOutcome outcome otherFound found byName callByName ⟨samePurpose, failed, names⟩
      obtain ⟨-, otherRequestIds⟩ := invariant.carried (List.mem_of_getElem? otherFound) byName.2.1
      rcases other.name_cases otherOutcome with ⟨otherId, isOther, otherNonempty, otherName⟩ | ⟨otherUnnamed, otherName⟩
      · rcases call.name_cases outcome with ⟨requestId, isRequest, -, name⟩ | ⟨unnamed, name⟩
        · rw [otherName, name] at sameName
          cases sameName
          exact distinct _ _ other call otherFound found
            (.inr ⟨otherId, otherRequestIds _ isOther, otherNonempty, requestIds _ isRequest⟩)
        · rw [otherName, name] at sameName
          exact confused (.inr (.inl ⟨sameName ▸ isOther, unnamed⟩))
      · rcases call.name_cases outcome with ⟨requestId, isRequest, -, name⟩ | ⟨unnamed, name⟩
        · rw [otherName, name] at sameName
          exact confused (.inr (.inr ⟨otherUnnamed, sameName ▸ isRequest⟩))
        · rw [otherName, name] at sameName
          obtain ⟨sameGeneration, sameSite | repeats⟩ := CallSite.scope_inj sameName
          · exact runInv.sites _ _ other call otherFound found sameGeneration sameSite
          · exact confused (.inl ⟨otherUnnamed, unnamed, sameGeneration, repeats⟩)

end

/-! ## Every recorded call is charged -/

def Charged (s : LedgerState) : Prop :=
  ∀ (index : Nat) (call : Call) (outcome : Outcome), s.calls[index]? = some call → call.recorded = true →
    call.outcome = some outcome → outcome.costMicrousd ≠ none →
    ∃ row ∈ s.ledger, row.call = index ∧ row.dedupeKey = call.chargeKey outcome

/-- Where no call is newly recorded, the charges are still there. -/
theorem Charged.keep {s s' : LedgerState} (charged : Charged s) (ledger : s.ledger ⊆ s'.ledger)
    (back : ∀ (index : Nat) (call : Call), s'.calls[index]? = some call → call.recorded = true → s.calls[index]? = some call) :
    Charged s' := by
  intro index call outcome found recorded isOutcome hasCost
  obtain ⟨row, listed, facts⟩ := charged index call outcome (back index call found recorded) recorded isOutcome hasCost
  exact ⟨row, ledger listed, facts⟩

/-- A call that changes in flight is not a recorded one. -/
theorem recorded_back {calls : List Call} {index : Nat} {change : Call → Call} {entry : Call} (found : calls[index]? = some entry)
    (unrecorded : (change entry).recorded = false) (at_ : Nat) (call : Call) (isCall : (calls.modify index change)[at_]? = some call)
    (recorded : call.recorded = true) : calls[at_]? = some call := by
  rcases modify_cases isCall with ⟨-, kept⟩ | ⟨rfl, before, isBefore, rfl⟩
  · exact kept
  · rw [found] at isBefore
    cases isBefore
    rw [unrecorded] at recorded
    cases recorded

theorem LedgerEffect.charged {s s' : LedgerState} (effect : LedgerEffect billed s s') (runInv : RunInv s.runs s.calls)
    (invariant : LedgerInv billed s) (charged : Charged s) (distinct : DistinctIds s'.calls) (noneConfused : NoneConfused s'.calls) :
    Charged s' := by
  have runInv' := (effect.runInv runInv).1
  have invariant' := effect.ledgerInv runInv invariant
  cases effect with
  | schedule | move | select | forget => exact charged
  | call =>
    refine charged.keep (List.Subset.refl _) fun at_ entry isEntry recorded => ?_
    rcases concat_cases isEntry with before | ⟨-, rfl⟩
    · exact before
    · cases recorded
  | @observe index run call _ _ found inCall =>
    obtain ⟨entry, isEntry, -, unrecorded⟩ := runInv.inFlight run (List.mem_of_getElem? found) call inCall
    exact charged.keep (List.Subset.refl _) (recorded_back isEntry unrecorded)
  | @finish index run position call outcome found isCalling =>
    obtain ⟨entry, isEntry, -, unrecorded⟩ := runInv.inFlight run (List.mem_of_getElem? found) call (by rw [isCalling]; rfl)
    exact charged.keep (List.Subset.refl _) (recorded_back isEntry unrecorded)
  | recordProviderIds | reconcile => exact charged.keep (subset_appendUsageEvent _ _) fun _ _ found _ => found
  | @record index run position call entry outcome ended found isRecording isEntry isOutcome =>
    intro at_ other otherOutcome otherFound recorded isOther hasCost
    have grows : s.ledger ⊆ recordUsage s.ledger call entry outcome := by
      unfold recordUsage
      split
      next => exact List.Subset.refl _
      next => exact subset_appendUsageEvent _ _
      next => exact subset_appendUsageEvent _ _
    rcases modify_cases otherFound with ⟨-, kept⟩ | ⟨rfl, before, isBefore, rfl⟩
    · obtain ⟨row, listed, facts⟩ := charged at_ other otherOutcome kept recorded isOther hasCost
      exact ⟨row, grows listed, facts⟩
    · rw [isEntry] at isBefore
      cases isBefore
      have same : some outcome = some otherOutcome := isOutcome.symm.trans isOther
      cases same
      obtain ⟨cost, isCost⟩ := Option.ne_none_iff_exists'.mp hasCost
      have appended : ∃ row ∈ recordUsage s.ledger at_ entry outcome, row.dedupeKey = entry.chargeKey outcome := by
        unfold recordUsage
        rw [isCost]
        exact exists_key_appendUsageEvent _ _
      obtain ⟨row, listed, key⟩ := appended
      exact ⟨row, listed, call_of_key runInv' invariant' distinct noneConfused otherFound recorded isOther hasCost listed key, key⟩

/-- What holds in every reachable state. -/
theorem reachable_ledgerInv {s : LedgerState} (reachable : (ledgerMachine fits billed).Reachable s) :
    RunInv s.runs s.calls ∧ LedgerInv billed s ∧ (DistinctIds s.calls → NoneConfused s.calls → Charged s) := by
  refine Machine.invariant (fun s => RunInv s.runs s.calls ∧ LedgerInv billed s ∧
    (DistinctIds s.calls → NoneConfused s.calls → Charged s)) ?_ ?_ reachable
  · intro s start
    rw [show s = LedgerState.empty from start]
    refine ⟨⟨by simp [UniqueRuns, LedgerState.empty], by simp [LedgerState.empty], by simp [LedgerState.empty],
      by simp [LedgerState.empty], by simp [LedgerState.empty]⟩, ledgerInv_empty, fun _ _ => ?_⟩
    intro index call outcome found
    simp [LedgerState.empty] at found
  · intro s action s' ⟨runInv, invariant, charged⟩ _ taken
    have effect := ledgerStep_effect taken
    obtain ⟨runInv', grows⟩ := effect.runInv runInv
    refine ⟨runInv', effect.ledgerInv runInv invariant, fun distinct noneConfused => ?_⟩
    exact effect.charged runInv invariant (charged (distinct.of_grows grows) (noneConfused.of_grows grows)) distinct noneConfused

/-- The charge of a call is the one row under its key. -/
theorem exactlyOnce_of_charged {s : LedgerState} (invariant : LedgerInv billed s) (charged : Charged s) : ExactlyOnce billed s := by
  intro index call outcome cost found recorded isOutcome isCost
  obtain ⟨row, listed, rfl, key⟩ := charged index call outcome found recorded isOutcome (by simp [isCost])
  obtain ⟨isCharge, amount⟩ := (invariant.rows row listed).of_key found isOutcome key
  rw [isCost] at amount
  refine ⟨row, ?_, amount⟩
  have inFilter : row ∈ s.ledger.filter (UsageEvent.isChargeOf row.call (call.providerGenerationId outcome)) :=
    List.mem_filter.mpr ⟨listed, isCharge⟩
  have atMostOne := length_filter_le_one invariant.unique (UsageEvent.isChargeOf row.call (call.providerGenerationId outcome))
    fun first isFirst second isSecond firstCharge secondCharge => by
      rw [(invariant.rows first isFirst).key_of_charge found isOutcome firstCharge,
        (invariant.rows second isSecond).key_of_charge found isOutcome secondCharge]
  obtain ⟨only, isOnly⟩ := List.length_eq_one_iff.mp (le_antisymm atMostOne (List.length_pos_of_mem inFilter))
  rw [isOnly] at inFilter ⊢
  rw [List.mem_singleton.mp inFilter]

/-- Of two calls that are confused one goes without its charge. -/
theorem noneConfused_of_exactlyOnce {s : LedgerState} (invariant : LedgerInv billed s) (once : ExactlyOnce billed s) :
    NoneConfused s.calls := by
  intro index other call call' outcome outcome' found found' byName byName' confused
  obtain ⟨recorded, isOutcome, hasCost, noGeneration⟩ := byName
  obtain ⟨recorded', isOutcome', hasCost', noGeneration'⟩ := byName'
  obtain ⟨cost, isCost⟩ := Option.ne_none_iff_exists'.mp hasCost
  obtain ⟨cost', isCost'⟩ := Option.ne_none_iff_exists'.mp hasCost'
  obtain ⟨row, isRow, -⟩ := once index call outcome cost found recorded isOutcome isCost
  obtain ⟨row', isRow', -⟩ := once other call' outcome' cost' found' recorded' isOutcome' isCost'
  obtain ⟨listed, charge⟩ := List.mem_filter.mp (isRow ▸ List.mem_singleton_self row)
  obtain ⟨listed', charge'⟩ := List.mem_filter.mp (isRow' ▸ List.mem_singleton_self row')
  have key := (invariant.rows row listed).key_of_charge found isOutcome charge
  have key' := (invariant.rows row' listed').key_of_charge found' isOutcome' charge'
  have sameKey : row.dedupeKey = row'.dedupeKey := by
    rw [key, key', Call.chargeKey, Call.chargeKey, noGeneration, noGeneration']
    show dedupeKey _ _ _ = dedupeKey _ _ _
    rw [confused.name, confused.1, Outcome.suffix, Outcome.suffix, confused.2.1]
  have same := eq_of_key invariant.unique listed listed' sameKey
  simp only [UsageEvent.isChargeOf, decide_eq_true_eq] at charge charge'
  rw [← charge.2.1, ← charge'.2.1, same]

/-- A generation id belongs to one call, and its charges all have the key of that call. -/
theorem chargedAtMostOnce {s : LedgerState} (invariant : LedgerInv billed s) (distinct : DistinctIds s.calls) :
    ChargedAtMostOnce s.ledger := by
  intro generationId
  have carried (row : UsageEvent) (listed : row ∈ s.ledger) (isCharge : row.eventType = .charge)
      (isGeneration : row.providerGenerationId = some generationId) :
      ∃ call, s.calls[row.call]? = some call ∧ generationId ∈ call.generationIds ∧
        row.dedupeKey = dedupeKey generationId call.purpose .reconciledCharge := by
    cases invariant.rows row listed with
    | pending _ _ _ isPending => rw [isCharge] at isPending; cases isPending
    | charged found carried _ _ sameGeneration key =>
      rw [isGeneration] at sameGeneration
      cases sameGeneration
      exact ⟨_, found, carried, key⟩
    | named _ _ _ noGeneration => rw [isGeneration] at noGeneration; cases noGeneration
  refine length_filter_le_one invariant.unique _ fun row listed other otherListed chosen otherChosen => ?_
  simp only [decide_eq_true_eq] at chosen otherChosen
  obtain ⟨call, found, isCarried, key⟩ := carried row listed chosen.1 chosen.2
  obtain ⟨call', found', isCarried', key'⟩ := carried other otherListed otherChosen.1 otherChosen.2
  have sameCall := distinct _ _ call call' found found' (.inl ⟨generationId, isCarried, isCarried'⟩)
  rw [sameCall, found'] at found
  cases found
  rw [key, key']

def sampleUsage : UsageContext :=
  { generationId := ⟨str "s", by decide, by decide⟩, threadId := some (str "t"), requesterId := str "r" }

/-- A chat answer that the reconciler charges while it is still streaming. -/
def racedAnswer : List LedgerAction :=
  [.schedule sampleUsage .chat, .decide 0 .fits, .call 0, .onProviderIds 0 (some (str "q")) (str "p"), .recordProviderIds,
    .select (fun _ => true), .reconcile, .returns 0 ⟨false, some (str "q"), some (str "p"), some 7⟩, .recordUsage 0]

/-- One call of a run whose provider names nothing. -/
def namelessCall (cost : Option Nat) (text : String) : List LedgerAction :=
  [.call 0, .returns 0 ⟨false, none, none, cost⟩, .recordUsage 0, .proceed 0 (.accepted (str text))]

/-- A handoff with two merge rounds: four extracts, then three, then two. -/
def twoMergeRounds : List LedgerAction :=
  [.schedule sampleUsage .promptHandoff, .decide 0 (.chunk 4)] ++
    namelessCall none "a" ++ namelessCall none "b" ++ namelessCall none "cc" ++ namelessCall none "dd" ++
    [.decide 0 .next, .decide 0 .next] ++ namelessCall (some 10) "a" ++ namelessCall (some 10) "b" ++
    namelessCall (some 10) "cc" ++ [.decide 0 .next, .decide 0 .next] ++ namelessCall (some 10) "a"

def fitsTwo (extracts : List Str) : Bool := extracts.flatten.length ≤ 2

end Oveo.Usage
