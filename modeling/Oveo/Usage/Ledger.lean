import Mathlib.Data.List.Nodup
import Oveo.Store.Rows

/-! # The usage ledger

The rows of `usage_events` and the keys that keep a provider call from being charged twice.  Rows
are only ever appended; a row whose key is taken is refused by the unique index. -/

namespace Oveo.Usage

open Oveo.Lib

/-- A generation's id: the text of a UUID. -/
structure GenerationId where
  text : Str
  nonempty : text ≠ []
  noColon : colon ∉ text
deriving DecidableEq

/-- `_UsageContext`. -/
structure UsageContext where
  generationId : GenerationId
  threadId : Option Str
  requesterId : Str
deriving DecidableEq

/-- The purposes calls are accounted under. -/
inductive LedgerPurpose where
  | chat
  | promptHandoff
  | summary
  | promptHandoffCompaction
  | title
deriving DecidableEq

def LedgerPurpose.text : LedgerPurpose → Str
  | .chat => str "chat"
  | .promptHandoff => str "prompt_handoff"
  | .summary => str "summary"
  | .promptHandoffCompaction => str "prompt_handoff_compaction"
  | .title => str "title"

/-- `event_type`; no code of the application writes an adjustment. -/
inductive EventType where
  | pending
  | charge
deriving DecidableEq

/-- The last part of a dedupe key. -/
inductive KeySuffix where
  | reconcilePending
  | reconciledCharge
  | charge
  | failedCharge
deriving DecidableEq

def KeySuffix.text : KeySuffix → Str
  | .reconcilePending => str "reconcile-pending"
  | .reconciledCharge => str "reconciled-charge"
  | .charge => str "charge"
  | .failedCharge => str "failed-charge"

/-- `f"{name}:{purpose}:{suffix}"`. -/
def dedupeKey (name : Str) (purpose : LedgerPurpose) (suffix : KeySuffix) : Str :=
  name ++ colon :: purpose.text ++ colon :: suffix.text

/-- `UsageEvent`. -/
structure UsageEvent where
  dedupeKey : Str
  eventType : EventType
  purpose : LedgerPurpose
  amountMicrousd : Option Nat
  usage : UsageContext
  providerRequestId : Option Str
  providerGenerationId : Option Str
  /-- The provider call the row is about; nothing reads it. -/
  call : Nat
deriving DecidableEq

/-- `append_usage_event`. -/
def appendUsageEvent (ledger : List UsageEvent) (event : UsageEvent) : List UsageEvent :=
  if ledger.any fun row => row.dedupeKey = event.dedupeKey then ledger else ledger ++ [event]

/-- `_append_reconcilable`. -/
def appendReconcilable (ledger : List UsageEvent) (usage : UsageContext) (purpose : LedgerPurpose)
    (requestId : Option Str) (providerGenerationId : Str) (call : Nat) : List UsageEvent :=
  appendUsageEvent ledger
    { dedupeKey := dedupeKey providerGenerationId purpose .reconcilePending, eventType := .pending, purpose,
      amountMicrousd := none, usage, providerRequestId := requestId, providerGenerationId := some providerGenerationId, call }

/-- The rows `reconcile_pending_costs` selects from, oldest first. -/
def candidates (ledger : List UsageEvent) : List UsageEvent :=
  ledger.filter fun event =>
    event.eventType = .pending ∧ event.providerGenerationId ≠ none ∧
      ¬ ledger.any fun charge => charge.eventType = .charge ∧ charge.providerGenerationId = event.providerGenerationId

/-- The charge a reconciliation appends for a pending row. -/
def reconciledCharge (event : UsageEvent) (providerGenerationId : Str) (costMicrousd : Nat) : UsageEvent :=
  { dedupeKey := dedupeKey providerGenerationId event.purpose .reconciledCharge, eventType := .charge,
    purpose := event.purpose, amountMicrousd := some costMicrousd, usage := event.usage,
    providerRequestId := event.providerRequestId, providerGenerationId := some providerGenerationId, call := event.call }

/-! ## Keys -/

theorem LedgerPurpose.colon_not_mem (purpose : LedgerPurpose) : colon ∉ purpose.text := by
  cases purpose <;> decide

theorem KeySuffix.colon_not_mem (suffix : KeySuffix) : colon ∉ suffix.text := by
  cases suffix <;> decide

theorem LedgerPurpose.text_injective : Function.Injective LedgerPurpose.text := by
  intro purpose other same
  cases purpose <;> cases other <;> first | rfl | exact absurd same (by decide)

theorem KeySuffix.text_injective : Function.Injective KeySuffix.text := by
  intro suffix other same
  cases suffix <;> cases other <;> first | rfl | exact absurd same (by decide)

/-- A key names its call, its purpose and its kind, even where the name has colons of its own. -/
theorem dedupeKey_inj {name other : Str} {purpose purpose' : LedgerPurpose} {suffix suffix' : KeySuffix}
    (same : dedupeKey name purpose suffix = dedupeKey other purpose' suffix') :
    name = other ∧ purpose = purpose' ∧ suffix = suffix' := by
  obtain ⟨front, sameSuffix⟩ := lastField_inj suffix.colon_not_mem suffix'.colon_not_mem same
  obtain ⟨sameName, samePurpose⟩ := lastField_inj purpose.colon_not_mem purpose'.colon_not_mem front
  exact ⟨sameName, LedgerPurpose.text_injective samePurpose, KeySuffix.text_injective sameSuffix⟩

/-! ## Appending -/

theorem mem_appendUsageEvent {ledger : List UsageEvent} {event row : UsageEvent}
    (listed : row ∈ appendUsageEvent ledger event) : row ∈ ledger ∨ row = event := by
  unfold appendUsageEvent at listed
  split at listed
  next => exact .inl listed
  next => simpa using listed

theorem subset_appendUsageEvent (ledger : List UsageEvent) (event : UsageEvent) : ledger ⊆ appendUsageEvent ledger event := by
  unfold appendUsageEvent
  split
  next => exact List.Subset.refl _
  next => exact List.subset_append_left _ _

/-- After an append some row has the key: the new one, or the one that was there. -/
theorem exists_key_appendUsageEvent (ledger : List UsageEvent) (event : UsageEvent) :
    ∃ row ∈ appendUsageEvent ledger event, row.dedupeKey = event.dedupeKey := by
  unfold appendUsageEvent
  split
  next taken =>
    obtain ⟨row, listed, same⟩ := List.any_eq_true.mp taken
    exact ⟨row, listed, by simpa using same⟩
  next => exact ⟨event, by simp, rfl⟩

/-- The unique index. -/
theorem nodup_appendUsageEvent {ledger : List UsageEvent} {event : UsageEvent}
    (unique : (ledger.map UsageEvent.dedupeKey).Nodup) :
    ((appendUsageEvent ledger event).map UsageEvent.dedupeKey).Nodup := by
  unfold appendUsageEvent
  split
  next => exact unique
  next free =>
    rw [List.map_append]
    refine List.nodup_append.mpr ⟨unique, by simp, fun key listed other last same => free ?_⟩
    obtain ⟨row, inLedger, rfl⟩ := List.mem_map.mp listed
    rw [List.map_singleton, List.mem_singleton] at last
    exact List.any_eq_true.mpr ⟨row, inLedger, by simpa using same.trans last⟩

/-- Two rows with one key are one row. -/
theorem eq_of_key {ledger : List UsageEvent} (unique : (ledger.map UsageEvent.dedupeKey).Nodup) {row other : UsageEvent}
    (listed : row ∈ ledger) (otherListed : other ∈ ledger) (same : row.dedupeKey = other.dedupeKey) : row = other :=
  List.inj_on_of_nodup_map unique listed otherListed same

/-- Rows that are told apart by nothing but their key are at most one. -/
theorem length_filter_le_one {ledger : List UsageEvent} (unique : (ledger.map UsageEvent.dedupeKey).Nodup)
    (chosen : UsageEvent → Bool)
    (oneKey : ∀ row ∈ ledger, ∀ other ∈ ledger, chosen row = true → chosen other = true → row.dedupeKey = other.dedupeKey) :
    (ledger.filter chosen).length ≤ 1 := by
  have filtered : (ledger.filter chosen).Nodup := (List.Nodup.of_map _ unique).filter _
  cases isFiltered : ledger.filter chosen with
  | nil => simp
  | cons first rest =>
    cases rest with
    | nil => simp
    | cons second rest =>
      have firstListed : first ∈ ledger.filter chosen := by simp [isFiltered]
      have secondListed : second ∈ ledger.filter chosen := by simp [isFiltered]
      obtain ⟨firstIn, firstChosen⟩ := List.mem_filter.mp firstListed
      obtain ⟨secondIn, secondChosen⟩ := List.mem_filter.mp secondListed
      have equal := eq_of_key unique firstIn secondIn (oneKey _ firstIn _ secondIn firstChosen secondChosen)
      rw [isFiltered, equal] at filtered
      simp at filtered

end Oveo.Usage
