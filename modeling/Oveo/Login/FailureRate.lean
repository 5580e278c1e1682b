import Mathlib.Data.Finset.Card
import Mathlib.Data.Rat.Floor
import Oveo.Lib.Expiry

/-! # The failure rate

`LoginGuard` counts failed sign-ins of all clients and of each one, in queues that are pruned when they
are read, and forgets the client whose last failure is the oldest when it tracks too many.  The counts
are those of the record: a queue keeps what is inside the window, and a client that is forgotten while
no more clients fail in a window than are tracked has no failure left in it. -/

namespace Oveo.Login

open Oveo.Lib

/-- `_MAX_TRACKED_CLIENTS`. -/
def maxTrackedClients : Nat := 1024

/-- The arguments of `LoginGuard`, which the settings keep positive.  Times are in seconds. -/
structure GuardSettings where
  window : ℚ
  clientLimit : Nat
  globalLimit : Nat
  window_pos : 0 < window
  client_pos : 0 < clientLimit
  global_pos : 0 < globalLimit

section

variable (Client : Type)

/-- `_global` and `_clients`, in their order. -/
structure FailureTable where
  global : List ℚ
  clients : List (Client × List ℚ)

inductive GuardCall where
  | recordFailure (client : Client)
  | retryAfter (client : Client)

end

variable {Client : Type}

section

variable [DecidableEq Client]

/-- `clients.get(client)`. -/
def queueOf? (clients : List (Client × List ℚ)) (client : Client) : Option (List ℚ) :=
  (clients.find? fun entry => decide (entry.1 = client)).map Prod.snd

/-- The failures a table has of a client. -/
def FailureTable.failuresOf (table : FailureTable Client) (client : Client) : List ℚ :=
  (queueOf? table.clients client).getD []

/-- `int(value)`. -/
def truncate (value : ℚ) : Int := if 0 ≤ value then ⌊value⌋ else ⌈value⌉

variable (settings : GuardSettings)

/-- What a queue that reached its limit adds to `waits`. -/
def waitOf (limit : Nat) (now : ℚ) (failures : List ℚ) : List ℚ :=
  if limit ≤ failures.length then (failures.head?.map fun oldest => oldest + settings.window - now).toList else []

/-- `waits` of `retry_after`. -/
def FailureTable.waits (client : Client) (now : ℚ) (table : FailureTable Client) : List ℚ :=
  waitOf settings settings.globalLimit now (expire (now - settings.window) table.global) ++
    match queueOf? table.clients client with
    | some failures => waitOf settings settings.clientLimit now (expire (now - settings.window) failures)
    | none => []

/-- `retry_after`, and the table it leaves. -/
def FailureTable.retryAfter (client : Client) (now : ℚ) (table : FailureTable Client) : Option Int × FailureTable Client :=
  let expired := expire (now - settings.window)
  ((table.waits settings client now).max?.map fun longest => max 1 (truncate longest + 1),
    { global := expired table.global
      clients := table.clients.map fun entry => if entry.1 = client then (entry.1, expired entry.2) else entry })

/-- The client's failure recorded, and the client moved to the end. -/
def FailureTable.withFailure (client : Client) (now : ℚ) (table : FailureTable Client) : FailureTable Client where
  global := table.global ++ [now]
  clients := (table.clients.filter fun entry => decide (entry.1 ≠ client)) ++ [(client, table.failuresOf client ++ [now])]

/-- `record_failure`: too many clients are popped from the front. -/
def FailureTable.recordFailure (client : Client) (now : ℚ) (table : FailureTable Client) : FailureTable Client :=
  let table := table.withFailure client now
  { table with clients := table.clients.drop (table.clients.length - maxTrackedClients) }

def FailureTable.after (table : FailureTable Client) : ℚ × GuardCall Client → FailureTable Client
  | (now, .recordFailure client) => table.recordFailure client now
  | (now, .retryAfter client) => (table.retryAfter settings client now).2

/-- The table after these calls, each at its time. -/
def FailureTable.replay (calls : List (ℚ × GuardCall Client)) : FailureTable Client :=
  calls.foldl (FailureTable.after settings) { global := [], clients := [] }

end

/-! ## The record -/

/-- The times of all failures. -/
def recorded (calls : List (ℚ × GuardCall Client)) : List ℚ :=
  calls.filterMap fun
    | (now, .recordFailure _) => some now
    | (_, .retryAfter _) => none

/-- The calls come one after the other. -/
def Ordered (calls : List (ℚ × GuardCall Client)) : Prop := (calls.map Prod.fst).Pairwise (· ≤ ·)

section

variable {calls : List (ℚ × GuardCall Client)} {call : ℚ × GuardCall Client} {client : Client} {now : ℚ}

@[simp] theorem recorded_concat_failure : recorded (calls ++ [(now, .recordFailure client)]) = recorded calls ++ [now] :=
  List.filterMap_append

@[simp] theorem recorded_concat_retry : recorded (calls ++ [(now, .retryAfter client)]) = recorded calls :=
  List.filterMap_append.trans (List.append_nil _)

theorem Ordered.of_concat (ordered : Ordered (calls ++ [call])) : Ordered calls ∧ ∀ earlier ∈ calls, earlier.1 ≤ call.1 := by
  unfold Ordered at ordered
  rw [List.map_append] at ordered
  obtain ⟨before, -, after⟩ := List.pairwise_append.mp ordered
  exact ⟨before, fun earlier listed => after _ (List.mem_map_of_mem listed) _ (List.mem_singleton_self _)⟩

theorem Ordered.recorded (ordered : Ordered calls) : (recorded calls).Pairwise (· ≤ ·) := by
  refine List.Pairwise.filterMap _ ?_ (List.pairwise_map.mp ordered)
  rintro ⟨first, _ | _⟩ ⟨second, _ | _⟩ le time isTime time' isTime' <;> cases isTime <;> cases isTime'
  exact le

end

section

variable [DecidableEq Client]

/-- The times of a client's failures. -/
def recordedOf (client : Client) (calls : List (ℚ × GuardCall Client)) : List ℚ :=
  calls.filterMap fun
    | (now, .recordFailure failed) => if failed = client then some now else none
    | (_, .retryAfter _) => none

/-- The clients that fail in the window that ends at a time. -/
def failingClients (settings : GuardSettings) (now : ℚ) (calls : List (ℚ × GuardCall Client)) : List Client :=
  calls.filterMap fun
    | (time, .recordFailure client) => if now - settings.window < time ∧ time ≤ now then some client else none
    | (_, .retryAfter _) => none

/-- No more clients fail in any one window than are tracked. -/
def FewClients (settings : GuardSettings) (calls : List (ℚ × GuardCall Client)) : Prop :=
  ∀ now, (failingClients settings now calls).toFinset.card ≤ maxTrackedClients

variable {settings : GuardSettings} {calls : List (ℚ × GuardCall Client)} {call : ℚ × GuardCall Client} {now later time : ℚ}
  {client other : Client} {clients : List (Client × List ℚ)} {table : FailureTable Client}

theorem recordedOf_mem : time ∈ recordedOf client calls ↔ (time, .recordFailure client) ∈ calls := by
  constructor
  · intro listed
    obtain ⟨⟨now, call⟩, inCalls, isTime⟩ := List.mem_filterMap.mp listed
    cases call with
    | recordFailure failed =>
      obtain ⟨rfl, ⟨⟩⟩ := Option.ite_none_right_eq_some.mp isTime
      exact inCalls
    | retryAfter => cases isTime
  · intro inCalls
    exact List.mem_filterMap.mpr ⟨_, inCalls, if_pos rfl⟩

theorem failingClients_mem : client ∈ failingClients settings now calls ↔
    ∃ time ∈ recordedOf client calls, now - settings.window < time ∧ time ≤ now := by
  constructor
  · intro listed
    obtain ⟨⟨time, call⟩, inCalls, isClient⟩ := List.mem_filterMap.mp listed
    cases call with
    | recordFailure failed =>
      obtain ⟨inside, ⟨⟩⟩ := Option.ite_none_right_eq_some.mp isClient
      exact ⟨time, recordedOf_mem.mpr inCalls, inside⟩
    | retryAfter => cases isClient
  · rintro ⟨time, listed, inside⟩
    exact List.mem_filterMap.mpr ⟨_, recordedOf_mem.mp listed, if_pos inside⟩

@[simp] theorem recordedOf_concat_retry : recordedOf other (calls ++ [(now, .retryAfter client)]) = recordedOf other calls :=
  List.filterMap_append.trans (List.append_nil _)

theorem recordedOf_concat_failure : recordedOf other (calls ++ [(now, .recordFailure client)]) =
    if client = other then recordedOf other calls ++ [now] else recordedOf other calls := by
  unfold recordedOf
  rw [List.filterMap_append]
  split
  next same => simp [same]
  next different => simp [different]

/-- Fewer calls have no more clients. -/
theorem FewClients.of_concat (few : FewClients settings (calls ++ [call])) : FewClients settings calls := by
  intro now
  refine le_trans (Finset.card_le_card fun client listed => ?_) (few now)
  rw [List.mem_toFinset] at listed ⊢
  unfold failingClients
  rw [List.filterMap_append]
  exact List.mem_append_left _ listed

theorem Ordered.recordedOf (ordered : Ordered calls) (client : Client) : (recordedOf client calls).Pairwise (· ≤ ·) := by
  refine List.Pairwise.filterMap _ ?_ (List.pairwise_map.mp ordered)
  rintro ⟨first, _ | _⟩ ⟨second, _ | _⟩ le time isTime time' isTime'
  · obtain ⟨-, ⟨⟩⟩ := Option.ite_none_right_eq_some.mp isTime
    obtain ⟨-, ⟨⟩⟩ := Option.ite_none_right_eq_some.mp isTime'
    exact le
  · cases isTime'
  · cases isTime
  · cases isTime

/-! ## The table -/

theorem queueOf?_filter (different : other ≠ client) :
    queueOf? (clients.filter fun entry => decide (entry.1 ≠ client)) other = queueOf? clients other := by
  unfold queueOf?
  rw [List.find?_filter]
  congr 2
  funext entry
  rw [Bool.eq_iff_iff]
  simp only [decide_eq_true_eq]
  exact ⟨And.right, fun same => ⟨fun isClient => different (same.symm.trans isClient), same⟩⟩

theorem queueOf?_filter_self : queueOf? (clients.filter fun entry => decide (entry.1 ≠ client)) client = none := by
  unfold queueOf?
  rw [Option.map_eq_none_iff, List.find?_eq_none]
  intro entry listed
  simpa using (List.mem_filter.mp listed).2

theorem queueOf?_append (left right : List (Client × List ℚ)) :
    queueOf? (left ++ right) client = (queueOf? left client).or (queueOf? right client) := by
  unfold queueOf?
  rw [List.find?_append]
  cases List.find? _ left <;> rfl

theorem queueOf?_eq_none (absent : client ∉ clients.map Prod.fst) : queueOf? clients client = none := by
  unfold queueOf?
  rw [Option.map_eq_none_iff, List.find?_eq_none]
  intro entry listed isClient
  exact absent (of_decide_eq_true isClient ▸ List.mem_map_of_mem listed)

/-- Pruning one queue leaves the others. -/
theorem queueOf?_prune (prune : List ℚ → List ℚ) :
    queueOf? (clients.map fun entry => if entry.1 = client then (entry.1, prune entry.2) else entry) other =
      if other = client then (queueOf? clients client).map prune else queueOf? clients other := by
  induction clients with
  | nil => simp [queueOf?]
  | cons entry clients inductionHypothesis =>
    unfold queueOf? at inductionHypothesis ⊢
    rw [List.map_cons, List.find?_cons, List.find?_cons, List.find?_cons]
    by_cases isClient : entry.1 = client <;> by_cases isOther : entry.1 = other <;>
      by_cases same : other = client <;> simp_all

/-- A key that is dropped is not there a second time. -/
theorem queueOf?_drop (keys : (clients.map Prod.fst).Nodup) (count : Nat) (client : Client) :
    queueOf? (clients.drop count) client = queueOf? clients client ∨
      (queueOf? (clients.drop count) client = none ∧ ∃ entry ∈ clients.take count, entry.1 = client) := by
  have split := List.take_append_drop count clients
  by_cases isDropped : client ∈ (clients.take count).map Prod.fst
  · rw [← split, List.map_append] at keys
    have absent := fun inRest => (List.nodup_append.mp keys).2.2 client isDropped client inRest rfl
    exact .inr ⟨queueOf?_eq_none absent, List.mem_map.mp isDropped⟩
  · left
    rw [← split, queueOf?_append, queueOf?_eq_none isDropped, Option.none_or, split]

theorem failuresOf_withFailure (client : Client) (now : ℚ) (table : FailureTable Client) :
    (table.withFailure client now).failuresOf other =
      if client = other then table.failuresOf client ++ [now] else table.failuresOf other := by
  have isAdded : queueOf? [(client, table.failuresOf client ++ [now])] other =
      if client = other then some (table.failuresOf client ++ [now]) else none := by
    by_cases same : client = other <;> simp [queueOf?, same]
  unfold FailureTable.failuresOf at isAdded ⊢
  simp only [FailureTable.withFailure, queueOf?_append, FailureTable.failuresOf, isAdded]
  split
  next same =>
    subst same
    rw [queueOf?_filter_self, Option.none_or, Option.getD_some]
  next different => rw [queueOf?_filter (Ne.symm different), Option.or_none]

theorem failuresOf_retryAfter (client : Client) (now : ℚ) (table : FailureTable Client) :
    (table.retryAfter settings client now).2.failuresOf other =
      if other = client then expire (now - settings.window) (table.failuresOf client) else table.failuresOf other := by
  simp only [FailureTable.failuresOf, FailureTable.retryAfter, queueOf?_prune]
  split
  next =>
    cases queueOf? table.clients client <;> rfl
  next => rfl

theorem keys_retryAfter (client : Client) (now : ℚ) (table : FailureTable Client) :
    (table.retryAfter settings client now).2.clients.map Prod.fst = table.clients.map Prod.fst := by
  simp only [FailureTable.retryAfter, List.map_map]
  refine List.map_congr_left fun entry _ => ?_
  simp only [Function.comp_apply]
  split <;> rfl

theorem keys_withFailure (keys : (table.clients.map Prod.fst).Nodup) (client : Client) (now : ℚ) :
    ((table.withFailure client now).clients.map Prod.fst).Nodup := by
  simp only [FailureTable.withFailure, List.map_append, List.map_cons, List.map_nil]
  refine List.nodup_append.mpr ⟨keys.sublist (List.filter_sublist.map _), List.nodup_singleton _, ?_⟩
  intro key listed last isLast
  obtain ⟨entry, inTable, rfl⟩ := List.mem_map.mp listed
  rw [List.mem_singleton.mp isLast]
  exact of_decide_eq_true (List.mem_filter.mp inTable).2

theorem clients_recordFailure (client : Client) (now : ℚ) (table : FailureTable Client) :
    (table.recordFailure client now).clients =
      (table.withFailure client now).clients.drop ((table.withFailure client now).clients.length - maxTrackedClients) := by
  simp only [FailureTable.recordFailure]

/-- What a table knows at a time, of a record that ends then. -/
structure TableInv (settings : GuardSettings) (calls : List (ℚ × GuardCall Client)) (now : ℚ) (table : FailureTable Client) : Prop where
  global : Keeps (now - settings.window) (recorded calls) table.global
  clients : ∀ client, Keeps (now - settings.window) (recordedOf client calls) (table.failuresOf client)
  keys : (table.clients.map Prod.fst).Nodup
  /-- Every client of the table has failed. -/
  failed : ∀ entry ∈ table.clients, recordedOf entry.1 calls ≠ []
  /-- A client behind another one has failed since. -/
  order : table.clients.Pairwise fun first second =>
    ∀ time ∈ recordedOf first.1 calls, ∃ since ∈ recordedOf second.1 calls, time ≤ since

theorem tableInv_empty (now : ℚ) : TableInv settings ([] : List (ℚ × GuardCall Client)) now ⟨[], []⟩ where
  global := .refl _ _
  clients := fun _ => .refl _ _
  keys := List.nodup_nil
  failed := fun _ listed => nomatch listed
  order := List.Pairwise.nil

theorem TableInv.mono (invariant : TableInv settings calls now table) (notBefore : now ≤ later) :
    TableInv settings calls later table where
  global := invariant.global.mono (sub_le_sub_right notBefore _)
  clients := fun client => (invariant.clients client).mono (sub_le_sub_right notBefore _)
  keys := invariant.keys
  failed := invariant.failed
  order := invariant.order

theorem TableInv.retryAfter (invariant : TableInv settings calls now table) (client : Client) :
    TableInv settings (calls ++ [(now, .retryAfter client)]) now (table.retryAfter settings client now).2 := by
  have keys := @keys_retryAfter _ _ settings client now table
  constructor
  · rw [recorded_concat_retry]
    exact invariant.global.expire
  · intro other
    rw [recordedOf_concat_retry, failuresOf_retryAfter]
    split
    next same => exact same ▸ (invariant.clients other).expire
    next => exact invariant.clients other
  · exact keys ▸ invariant.keys
  · simp only [recordedOf_concat_retry]
    have failed : ∀ key ∈ table.clients.map Prod.fst, recordedOf key calls ≠ [] := List.forall_mem_map.mpr invariant.failed
    intro entry listed
    exact failed entry.1 (keys ▸ List.mem_map_of_mem listed)
  · simp only [recordedOf_concat_retry]
    have order : (table.clients.map Prod.fst).Pairwise fun first second =>
        ∀ time ∈ recordedOf first calls, ∃ since ∈ recordedOf second calls, time ≤ since := List.pairwise_map.mpr invariant.order
    exact List.pairwise_map.mp (keys ▸ order)

theorem TableInv.withFailure (invariant : TableInv settings calls now table) (recent : ∀ call ∈ calls, call.1 ≤ now) (client : Client) :
    TableInv settings (calls ++ [(now, .recordFailure client)]) now (table.withFailure client now) := by
  have others : ∀ entry ∈ table.clients.filter fun entry => decide (entry.1 ≠ client), entry ∈ table.clients ∧ client ≠ entry.1 := by
    intro entry listed
    obtain ⟨inTable, different⟩ := List.mem_filter.mp listed
    exact ⟨inTable, (of_decide_eq_true different).symm⟩
  have sameOther {other : Client} (different : client ≠ other) :
      recordedOf other (calls ++ [(now, .recordFailure client)]) = recordedOf other calls := by
    rw [recordedOf_concat_failure, if_neg different]
  have own : recordedOf client (calls ++ [(now, .recordFailure client)]) = recordedOf client calls ++ [now] := by
    rw [recordedOf_concat_failure, if_pos rfl]
  constructor
  · rw [recorded_concat_failure]
    exact invariant.global.concat now
  · intro other
    rw [failuresOf_withFailure]
    split
    next same =>
      subst same
      rw [own]
      exact (invariant.clients client).concat now
    next different =>
      rw [sameOther different]
      exact invariant.clients other
  · exact keys_withFailure invariant.keys client now
  · intro entry listed
    rcases List.mem_append.mp listed with inOthers | isLast
    · obtain ⟨inTable, different⟩ := others entry inOthers
      rw [sameOther different]
      exact invariant.failed entry inTable
    · rw [List.mem_singleton.mp isLast, own]
      simp
  · refine List.pairwise_append.mpr ⟨?_, List.pairwise_singleton _ _, ?_⟩
    · refine (invariant.order.sublist List.filter_sublist).imp_of_mem ?_
      intro first second inFirst inSecond behind
      rw [sameOther (others first inFirst).2, sameOther (others second inSecond).2]
      exact behind
    · intro first inFirst second isLast time listed
      rw [List.mem_singleton.mp isLast, own]
      rw [sameOther (others first inFirst).2] at listed
      exact ⟨now, by simp, recent _ (recordedOf_mem.mp listed)⟩

/-- A client that is forgotten has no failure left in the window. -/
theorem TableInv.forgotten (invariant : TableInv settings calls now table) (recent : ∀ call ∈ calls, call.1 ≤ now)
    (few : FewClients settings calls) {entry : Client × List ℚ}
    (listed : entry ∈ table.clients.take (table.clients.length - maxTrackedClients)) :
    ∀ time ∈ recordedOf entry.1 calls, time ≤ now - settings.window := by
  intro time inRecord
  by_contra isAfter
  obtain ⟨index, inside, isEntry⟩ := List.mem_take_iff_getElem.mp listed
  -- Every client from there on has failed in the window, and these are more than are tracked.
  have fails : ∀ key ∈ (table.clients.drop index).map Prod.fst, key ∈ (failingClients settings now calls).toFinset := by
    intro key inKeys
    obtain ⟨other, behind, rfl⟩ := List.mem_map.mp inKeys
    rw [List.mem_toFinset, failingClients_mem]
    obtain ⟨since, inOther, notBefore⟩ : ∃ since ∈ recordedOf other.1 calls, time ≤ since := by
      obtain ⟨place, place_lt, isOther⟩ := List.mem_drop_iff_getElem.mp behind
      rcases Nat.eq_zero_or_pos place with rfl | later
      · have same : other = entry := by
          rw [← isOther, ← isEntry]
          rfl
        exact ⟨time, same ▸ inRecord, le_rfl⟩
      · have order := List.pairwise_iff_getElem.mp invariant.order index (index + place) (by omega) (by omega) (by omega)
        rw [isEntry, isOther] at order
        exact order time inRecord
    exact ⟨since, inOther, (lt_of_not_ge isAfter).trans_le notBefore, recent _ (recordedOf_mem.mp inOther)⟩
  have many := (Finset.card_le_card fun key inKeys => fails key (List.mem_toFinset.mp inKeys)).trans (few now)
  have distinct : ((table.clients.drop index).map Prod.fst).Nodup :=
    invariant.keys.sublist ((List.drop_sublist _ _).map _)
  rw [List.toFinset_card_of_nodup distinct, List.length_map, List.length_drop] at many
  omega

/-- Forgetting clients loses no failure in the window. -/
theorem TableInv.recordFailure (invariant : TableInv settings calls now table) (recent : ∀ call ∈ calls, call.1 ≤ now)
    (client : Client) (few : FewClients settings (calls ++ [(now, .recordFailure client)])) :
    TableInv settings (calls ++ [(now, .recordFailure client)]) now (table.recordFailure client now) := by
  have full := invariant.withFailure recent client
  have recentAll : ∀ call ∈ calls ++ [(now, GuardCall.recordFailure client)], call.1 ≤ now :=
    List.forall_mem_append.mpr ⟨recent, by simp⟩
  have isDrop := clients_recordFailure client now table
  constructor
  · exact full.global
  · intro other
    have keeps := full.clients other
    unfold FailureTable.failuresOf at keeps ⊢
    rw [isDrop]
    rcases queueOf?_drop full.keys _ other with same | ⟨isNone, entry, listed, rfl⟩
    · rwa [same]
    · rw [isNone]
      exact .nil (full.forgotten recentAll few listed)
  · rw [isDrop]
    exact full.keys.sublist ((List.drop_sublist _ _).map _)
  · intro entry listed
    rw [isDrop] at listed
    exact full.failed entry (List.mem_of_mem_drop listed)
  · rw [isDrop]
    exact full.order.sublist (List.drop_sublist _ _)

theorem tableInv_replay (ordered : Ordered calls) (few : FewClients settings calls) (recent : ∀ call ∈ calls, call.1 ≤ now) :
    TableInv settings calls now (FailureTable.replay settings calls) := by
  induction calls using List.reverseRecOn generalizing now with
  | nil => exact tableInv_empty now
  | append_singleton calls call inductionHypothesis =>
    obtain ⟨orderedBefore, before⟩ := ordered.of_concat
    have invariant := inductionHypothesis orderedBefore few.of_concat before
    obtain ⟨time, call⟩ := call
    refine TableInv.mono ?_ (recent (time, call) (by simp))
    rw [FailureTable.replay, List.foldl_append]
    cases call with
    | recordFailure client => exact invariant.recordFailure before client few
    | retryAfter client => exact invariant.retryAfter client

/-! ## The answers -/

theorem waitOf_eq_nil_iff {limit : Nat} (positive : 0 < limit) (failures : List ℚ) :
    waitOf settings limit now failures = [] ↔ failures.length < limit := by
  unfold waitOf
  split
  next enough =>
    cases failures with
    | nil => exact absurd enough (Nat.not_le.mpr positive)
    | cons oldest failures => simpa using enough
  next few => simpa using few

/-- A client without failures waits for none. -/
theorem waits_eq : table.waits settings client now =
    waitOf settings settings.globalLimit now (expire (now - settings.window) table.global) ++
      waitOf settings settings.clientLimit now (expire (now - settings.window) (table.failuresOf client)) := by
  unfold FailureTable.waits FailureTable.failuresOf
  cases queueOf? table.clients client with
  | some failures => rfl
  | none => exact congrArg _ ((waitOf_eq_nil_iff settings.client_pos []).mpr settings.client_pos).symm

/-- A client is let in exactly if both queues are below their limits. -/
theorem retryAfter_eq_none_iff :
    (table.retryAfter settings client now).1 = none ↔
      (expire (now - settings.window) table.global).length < settings.globalLimit ∧
        (expire (now - settings.window) (table.failuresOf client)).length < settings.clientLimit := by
  rw [FailureTable.retryAfter, Option.map_eq_none_iff, List.max?_eq_none_iff, waits_eq, List.append_eq_nil_iff,
    waitOf_eq_nil_iff settings.global_pos, waitOf_eq_nil_iff settings.client_pos]

/-- Where no more clients fail in any one window than are tracked, a client is let in exactly if fewer than
the limits of all recorded failures, and of its own, came after the start of the window; the queues still
have every failure in it. -/
theorem failure_rate_exact (ordered : Ordered calls) (few : FewClients settings calls) (recent : ∀ call ∈ calls, call.1 ≤ now)
    (client : Client) :
    (((FailureTable.replay settings calls).retryAfter settings client now).1 = none ↔
        (timesAfter (now - settings.window) (recorded calls)).length < settings.globalLimit ∧
          (timesAfter (now - settings.window) (recordedOf client calls)).length < settings.clientLimit) ∧
      timesAfter (now - settings.window) (FailureTable.replay settings calls).global =
        timesAfter (now - settings.window) (recorded calls) ∧
      ∀ other, timesAfter (now - settings.window) ((FailureTable.replay settings calls).failuresOf other) =
        timesAfter (now - settings.window) (recordedOf other calls) := by
  have invariant := tableInv_replay ordered few recent
  refine ⟨?_, invariant.global.timesAfter_eq, fun other => (invariant.clients other).timesAfter_eq⟩
  rw [retryAfter_eq_none_iff, expire_eq_timesAfter (invariant.global.ordered ordered.recorded), invariant.global.timesAfter_eq,
    expire_eq_timesAfter ((invariant.clients client).ordered (ordered.recordedOf client)), (invariant.clients client).timesAfter_eq]

/-- A record with no more calls than clients that are tracked. -/
theorem FewClients.of_length (short : calls.length ≤ maxTrackedClients) : FewClients settings calls :=
  fun now => ((failingClients settings now calls).toFinset_card_le.trans (List.length_filterMap_le _ _)).trans short

end

/-- The least limits that `config.py` allows. -/
def strictGuard : GuardSettings where
  window := 60
  clientLimit := 5
  globalLimit := 10
  window_pos := by decide
  client_pos := by decide
  global_pos := by decide

/-- Five failures of one client, and one of another. -/
def sixFailures : List (ℚ × GuardCall String) :=
  [(0, .recordFailure "10.0.0.1"), (1, .recordFailure "10.0.0.1"), (2, .recordFailure "10.0.0.2"), (3, .recordFailure "10.0.0.1"),
    (4, .recordFailure "10.0.0.1"), (5, .recordFailure "10.0.0.1")]

theorem failure_rate_exact_sixFailures :
    ((FailureTable.replay strictGuard sixFailures).retryAfter strictGuard "10.0.0.1" 59).1 ≠ none ∧
      ((FailureTable.replay strictGuard sixFailures).retryAfter strictGuard "10.0.0.1" 60).1 = none := by
  have ordered : Ordered sixFailures := by
    unfold Ordered
    decide +kernel
  have few : FewClients strictGuard sixFailures := .of_length (by decide)
  have exact := fun now recent => (@failure_rate_exact _ _ _ _ now ordered few recent "10.0.0.1").1
  refine ⟨fun isNone => ?_, (exact 60 (by decide +kernel)).mpr (by decide +kernel)⟩
  exact absurd ((exact 59 (by decide +kernel)).mp isNone) (by decide +kernel)

end Oveo.Login
