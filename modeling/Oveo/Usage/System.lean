import Oveo.Lib.Machine
import Oveo.Usage.Run

/-! # Runs, provider calls and the reconciler

Any number of runs, each making one provider call after the other, and the reconciler, over one
ledger.  A step is a database transaction, an answer of the provider, or a run's way from one call
to the next.  What the provider bills for a generation id is a parameter: its metadata gives that
amount or nothing yet. -/

namespace Oveo.Usage

open Oveo.Lib

/-- A `ProviderCompletion`, or a `ProviderError` of a call that failed. -/
structure Outcome where
  failed : Bool
  providerRequestId : Option Str
  providerGenerationId : Option Str
  costMicrousd : Option Nat
deriving DecidableEq

/-- One call of `provider.generate`. -/
structure Call where
  usage : UsageContext
  site : CallSite
  purpose : LedgerPurpose
  /-- What `on_provider_ids` was told last. -/
  observed : Option (Option Str × Str)
  outcome : Option Outcome
  /-- `_record_usage` has run. -/
  recorded : Bool
  /-- All the ids it has carried; nothing reads them. -/
  requestIds : List Str
  generationIds : List Str
deriving DecidableEq

/-- Python's `a or b`. -/
def either (value other : Option Str) : Option Str :=
  match value with
  | some (c :: text) => some (c :: text)
  | _ => other

/-- `request_id` in `_record_usage`. -/
def Call.requestId (call : Call) (outcome : Outcome) : Option Str :=
  either outcome.providerRequestId (call.observed.bind Prod.fst)

/-- `provider_generation_id` there. -/
def Call.providerGenerationId (call : Call) (outcome : Outcome) : Option Str :=
  either outcome.providerGenerationId (call.observed.map Prod.snd)

def Call.scope (call : Call) : Str := call.site.scope call.usage.generationId

/-- `request_id or scope`. -/
def Call.name (call : Call) (outcome : Outcome) : Str := (either (call.requestId outcome) (some call.scope)).getD []

def Outcome.suffix (outcome : Outcome) : KeySuffix := if outcome.failed then .failedCharge else .charge

/-- The key of the charge for a call. -/
def Call.chargeKey (call : Call) (outcome : Outcome) : Str :=
  match call.providerGenerationId outcome with
  | some generationId => dedupeKey generationId call.purpose .reconciledCharge
  | none => dedupeKey (call.name outcome) call.purpose outcome.suffix

/-- `_record_usage`. -/
def recordUsage (ledger : List UsageEvent) (index : Nat) (call : Call) (outcome : Outcome) : List UsageEvent :=
  match outcome.costMicrousd, call.providerGenerationId outcome with
  | none, none => ledger
  | none, some generationId =>
    appendReconcilable ledger call.usage call.purpose (call.requestId outcome) generationId index
  | some cost, generationId =>
    appendUsageEvent ledger
      { dedupeKey := call.chargeKey outcome, eventType := .charge, purpose := call.purpose,
        amountMicrousd := some cost, usage := call.usage, providerRequestId := call.requestId outcome,
        providerGenerationId := generationId, call := index }

/-- How a call came back. -/
inductive CallEnd where
  | completion
  | providerError
  /-- An error of the code that takes the chunks. -/
  | otherError
deriving DecidableEq

/-- Where a run is. -/
inductive Stage where
  | at (position : Position)
  /-- In `provider.generate`. -/
  | calling (position : Position) (call : Nat)
  /-- Before the transaction of `_record_usage`, which no Stop cancels. -/
  | recording (position : Position) (call : Nat)
  /-- Behind the call. -/
  | returned (position : Position) (ended : CallEnd)

structure Run where
  usage : UsageContext
  purpose : Store.Purpose
  stage : Stage

/-- A write of provider ids on its way. -/
structure IdsWrite where
  call : Nat
  requestId : Option Str
  providerGenerationId : Str

structure LedgerState where
  runs : List Run
  calls : List Call
  writes : List IdsWrite
  ledger : List UsageEvent
  /-- The rows of the reconciler's pass. -/
  reconciling : List UsageEvent

inductive LedgerAction where
  | schedule (usage : UsageContext) (purpose : Store.Purpose)
  /-- On to the next call. -/
  | decide (run : Nat) (choice : Choice)
  | call (run : Nat)
  | onProviderIds (run : Nat) (requestId : Option Str) (generationId : Str)
  /-- The transaction of `_record_provider_ids` commits, also after its call was cancelled. -/
  | recordProviderIds
  /-- It raises, which is only logged. -/
  | loseProviderIds
  | returns (run : Nat) (outcome : Outcome)
  /-- Some other error leaves the call; nothing is recorded. -/
  | raises (run : Nat)
  | recordUsage (run : Nat)
  | proceed (run : Nat) (result : CallResult)
  | stop (run : Nat)
  /-- The reconciler takes some of the candidates. -/
  | select (chosen : UsageEvent → Bool)
  /-- The metadata of the first one is there. -/
  | reconcile
  /-- It is not. -/
  | defer
  | interrupt

def LedgerState.setStage (s : LedgerState) (run : Nat) (stage : Stage) : LedgerState :=
  { s with runs := s.runs.modify run fun entry => { entry with stage } }

variable (fits : List Str → Bool) (billed : Str → Nat)

/-- A run makes the call it is at. -/
def LedgerState.startCall (s : LedgerState) (index : Nat) (run : Run) (position : Position) (site : CallSite) : LedgerState :=
  let call : Call :=
    { usage := run.usage, site, purpose := site.purpose run.purpose, observed := none, outcome := none, recorded := false,
      requestIds := [], generationIds := [] }
  { s.setStage index (.calling position s.calls.length) with calls := s.calls ++ [call] }

/-- The provider names a call. -/
def Call.observe (requestId : Option Str) (generationId : Str) (call : Call) : Call :=
  { call with
    observed := some (requestId, generationId), requestIds := call.requestIds ++ requestId.toList,
    generationIds := call.generationIds ++ [generationId] }

def Call.finish (outcome : Outcome) (call : Call) : Call :=
  { call with
    outcome := some outcome, requestIds := call.requestIds ++ outcome.providerRequestId.toList,
    generationIds := call.generationIds ++ outcome.providerGenerationId.toList }

/-- The transaction of `_record_usage`. -/
def LedgerState.recordCall (s : LedgerState) (index : Nat) (call : Call) (outcome : Outcome) : LedgerState :=
  { s with
    ledger := Usage.recordUsage s.ledger index call outcome
    calls := s.calls.modify index fun call => { call with recorded := true } }

/-- What a result needs of the call's end. -/
def CallEnd.allows : CallEnd → CallResult → Bool
  | .completion, _ => true
  | .providerError, .failed => true
  | .providerError, _ => false
  | .otherError, .accepted _ => false
  | .otherError, _ => true

def ledgerStep (s : LedgerState) : LedgerAction → Option LedgerState
  | .schedule usage purpose =>
    if s.runs.any fun run => run.usage.generationId = usage.generationId then none
    else some { s with runs := s.runs ++ [{ usage, purpose, stage := .at .composing }] }
  | .decide index choice =>
    match s.runs[index]? with
    | some ⟨_, purpose, .at position⟩ => (position.decide fits purpose choice).map fun next => s.setStage index (.at next)
    | _ => none
  | .call index =>
    match s.runs[index]? with
    | some ⟨usage, purpose, .at position⟩ =>
      position.site?.map fun site => s.startCall index ⟨usage, purpose, .at position⟩ position site
    | _ => none
  | .onProviderIds index requestId generationId =>
    match s.runs[index]? with
    | some ⟨_, _, .calling _ call⟩ =>
      some { s with
        calls := s.calls.modify call (Call.observe requestId generationId)
        writes := s.writes ++ [⟨call, requestId, generationId⟩] }
    | _ => none
  | .recordProviderIds =>
    match s.writes with
    | [] => none
    | write :: writes =>
      match s.calls[write.call]? with
      | none => none
      | some call =>
        some { s with
          writes
          ledger := appendReconcilable s.ledger call.usage call.purpose write.requestId write.providerGenerationId write.call }
  | .loseProviderIds =>
    match s.writes with
    | [] => none
    | _ :: writes => some { s with writes }
  | .returns index outcome =>
    match s.runs[index]? with
    | some ⟨_, _, .calling position call⟩ =>
      some { s.setStage index (.recording position call) with calls := s.calls.modify call (Call.finish outcome) }
    | _ => none
  | .raises index =>
    match s.runs[index]? with
    | some ⟨_, _, .calling position _⟩ => some (s.setStage index (.returned position .otherError))
    | _ => none
  | .recordUsage index =>
    match s.runs[index]? with
    | some ⟨_, _, .recording position call⟩ => do
      let entry ← s.calls[call]?
      let outcome ← entry.outcome
      return (s.recordCall call entry outcome).setStage index
        (.returned position (if outcome.failed then .providerError else .completion))
    | _ => none
  | .proceed index result =>
    match s.runs[index]? with
    | some ⟨_, purpose, .returned position ended⟩ =>
      if ended.allows result then (position.proceed purpose result).map fun next => s.setStage index (.at next) else none
    | _ => none
  | .stop index =>
    match s.runs[index]? with
    | some ⟨_, _, .recording _ _⟩ | none => none
    | some _ => some (s.setStage index (.at .ended))
  | .select chosen =>
    if s.reconciling.isEmpty then some { s with reconciling := (candidates s.ledger).filter chosen } else none
  | .reconcile =>
    match s.reconciling with
    | [] => none
    | event :: events =>
      match event.providerGenerationId with
      | none => some { s with reconciling := events }
      | some generationId =>
        some { s with
          reconciling := events
          ledger := appendUsageEvent s.ledger (reconciledCharge event generationId (billed generationId)) }
  | .defer =>
    match s.reconciling with
    | [] => none
    | _ :: events => some { s with reconciling := events }
  | .interrupt => some { s with reconciling := [] }

def LedgerState.empty : LedgerState := { runs := [], calls := [], writes := [], ledger := [], reconciling := [] }

def ledgerMachine : Machine LedgerState LedgerAction where
  init := fun s => s = LedgerState.empty
  step := ledgerStep fits billed

/-! ## What is promised -/

/-- Two different calls carry different ids. -/
def DistinctIds (calls : List Call) : Prop :=
  ∀ (index other : Nat) (call call' : Call), calls[index]? = some call → calls[other]? = some call' →
    (∃ generationId ∈ call.generationIds, generationId ∈ call'.generationIds) ∨
      (∃ requestId ∈ call.requestIds, requestId ≠ [] ∧ requestId ∈ call'.requestIds) → index = other

/-- The charges of the calls. -/
def UsageEvent.isChargeOf (index : Nat) (generationId : Option Str) (event : UsageEvent) : Bool :=
  event.eventType = .charge ∧ event.call = index ∧ event.providerGenerationId = generationId

/-- Every recorded call that reported a cost has exactly one charge under its id.  It is that cost,
unless a reconciliation of the same id came first, with what the provider bills for it. -/
def ExactlyOnce (s : LedgerState) : Prop :=
  ∀ (index : Nat) (call : Call) (outcome : Outcome) (cost : Nat), s.calls[index]? = some call → call.recorded = true →
    call.outcome = some outcome → outcome.costMicrousd = some cost →
    ∃ row, s.ledger.filter (UsageEvent.isChargeOf index (call.providerGenerationId outcome)) = [row] ∧
      (row.amountMicrousd = some cost ∨
        ∃ generationId, call.providerGenerationId outcome = some generationId ∧ row.amountMicrousd = some (billed generationId))

/-- No provider generation id is charged twice. -/
def ChargedAtMostOnce (ledger : List UsageEvent) : Prop :=
  ∀ generationId, (ledger.filter fun event => event.eventType = .charge ∧ event.providerGenerationId = some generationId).length ≤ 1

/-! ## Where names collide -/

/-- A recorded call that reported a cost but no generation id. -/
def Call.ChargedByName (call : Call) (outcome : Outcome) : Prop :=
  call.recorded = true ∧ call.outcome = some outcome ∧ outcome.costMicrousd ≠ none ∧ call.providerGenerationId outcome = none

/-- It has no request id either. -/
def Call.Unnamed (call : Call) (outcome : Outcome) : Prop := either (call.requestId outcome) none = none

/-- Two such calls of one kind that the ledger takes for one: two merge calls of one handoff in
different rounds with the same index and no request id, or a request id that is the text of the
other call's scope. -/
def Confused (call other : Call) (outcome otherOutcome : Outcome) : Prop :=
  call.purpose = other.purpose ∧ outcome.failed = otherOutcome.failed ∧
    (call.Unnamed outcome ∧ other.Unnamed otherOutcome ∧ call.usage.generationId = other.usage.generationId ∧
        call.site.Repeats other.site ∨
      call.requestId outcome = some other.scope ∧ other.Unnamed otherOutcome ∨
      call.Unnamed outcome ∧ other.requestId otherOutcome = some call.scope)

/-- No two calls of the run are taken for one. -/
def NoneConfused (calls : List Call) : Prop :=
  ∀ (index other : Nat) (call call' : Call) (outcome outcome' : Outcome), calls[index]? = some call →
    calls[other]? = some call' → call.ChargedByName outcome → call'.ChargedByName outcome' →
    Confused call call' outcome outcome' → index = other

end Oveo.Usage
