import Oveo.Stream.Follow

/-! # Live streams equal the draft, and end with the stored row

`StreamInv` collects what every reachable state satisfies: while the draft is active every reader
follows it, and a reader that was at the database when the row was terminal saw the row as it stays.
The second half is about the end of a stream: once the row is terminal and no draft is active, an
open stream that nobody closed gets to the snapshot of that row. -/

namespace Oveo.Stream

open Oveo.Lib Oveo.Protocol Oveo.Store

/-! ## The invariant -/

/-- The row is still the one that was read, unless it was deleted since. -/
def StillThere (row : Option StoredRow) (read : StoredRow) : Prop := row = some read ∨ row = none

/-- What a reader knows from the database. -/
def DatabaseView (row : Option StoredRow) (reader : Reader) : Prop :=
  match reader.phase with
  | .fetched _ (some read) => read.status.isTerminal = true → StillThere row read
  | .fetched _ none | .ended .missing => row = none
  | .ended .finished => ∃ read : StoredRow, read.status.isTerminal = true ∧
      reader.frames.getLast? = some (.snapshot read.snapshot) ∧ StillThere row read
  | _ => True

structure StreamInv (s : StreamState) : Prop where
  active : ∀ live, s.live = some live → live.status.isActive = true →
    DraftsTo s.drafts live ∧ ∀ reader ∈ s.readers, Follows s.drafts reader
  database : ∀ reader ∈ s.readers, DatabaseView s.row reader

theorem streamInv_initial : StreamInv StreamState.initial where
  active := fun live isLive _ => by
    cases isLive
    refine ⟨⟨rfl, rfl, fun index shown found => ?_⟩, by simp [StreamState.initial]⟩
    cases index with
    | zero =>
      cases found
      rfl
    | succ index => cases found
  database := by simp [StreamState.initial]

theorem databaseView_offered {row : Option StoredRow} {reader : Reader} {item : StreamItem}
    (view : DatabaseView row reader) : DatabaseView row (reader.offered item) := by
  unfold Reader.offered
  split
  next => exact view
  next => exact view

theorem mem_publish {item : Option StreamItem} {readers : List Reader} {reader : Reader}
    (listed : reader ∈ publish item readers) :
    reader ∈ readers ∨ ∃ before ∈ readers, ∃ offered, item = some offered ∧ reader = before.offered offered := by
  cases item with
  | none => exact .inl listed
  | some offered =>
    obtain ⟨before, inReaders, rfl⟩ := List.mem_map.mp listed
    exact .inr ⟨before, inReaders, offered, rfl, rfl⟩

theorem databaseView_publish {row : Option StoredRow} {item : Option StreamItem} {readers : List Reader}
    (views : ∀ reader ∈ readers, DatabaseView row reader) : ∀ reader ∈ publish item readers, DatabaseView row reader := by
  intro reader listed
  rcases mem_publish listed with kept | ⟨before, inReaders, offered, -, rfl⟩
  · exact views reader kept
  · exact databaseView_offered (views before inReaders)

theorem follows_publish {drafts : List Snapshot} {item : Option StreamItem} {readers : List Reader}
    (follow : ∀ reader ∈ readers, Follows drafts reader)
    (itemFollows : ∀ offered, item = some offered → ItemFollows drafts offered) :
    ∀ reader ∈ publish item readers, Follows drafts reader := by
  intro reader listed
  rcases mem_publish listed with kept | ⟨before, inReaders, offered, isOffered, rfl⟩
  · exact follow reader kept
  · exact (follow before inReaders).offered (itemFollows offered isOffered)

/-- The next draft goes behind the ones so far. -/
theorem DraftsTo.next {drafts : List Snapshot} {live after : LiveGeneration} (upTo : DraftsTo drafts live)
    (next : after.seq = live.seq + 1) : DraftsTo (drafts ++ [after.snapshot]) after where
  length := by simp [upTo.length, next]
  last := by
    rw [next, ← upTo.length, List.getElem?_concat_length]
  numbered := fun index shown found => by
    by_cases earlier : index < drafts.length
    · rw [List.getElem?_append_left earlier] at found
      exact upTo.numbered index shown found
    · rw [List.getElem?_append_right (by omega)] at found
      have last := (List.getElem?_eq_some_iff.mp found).1
      simp only [List.length_cons, List.length_nil] at last
      have here : index - drafts.length = 0 := by omega
      rw [here] at found
      cases found
      have length := upTo.length
      show after.seq = index
      omega

theorem StreamInv.change {s : StreamState} (invariant : StreamInv s) (change : LiveGeneration → Change)
    (changes : ∀ live, live.status.isActive = true → Changes live (change live))
    (finished : ∀ live, live.status.isActive = false → (change live).1.status.isActive = false) :
    StreamInv (s.change change) := by
  unfold StreamState.change
  cases isLive : s.live with
  | none => exact invariant
  | some live =>
    have spec := changes live
    have stays := finished live
    dsimp only
    generalize change live = changed at spec stays
    refine ⟨fun after isAfter active => ?_, databaseView_publish invariant.database⟩
    cases isAfter
    by_cases wasActive : live.status.isActive = true
    · obtain ⟨upTo, follow⟩ := invariant.active live isLive wasActive
      cases spec wasActive with
      | ended inactive =>
        rw [inactive] at active
        cases active
      | none sameSeq sameSnapshot =>
        simp only [sameSeq, if_true]
        refine ⟨⟨sameSeq ▸ upTo.length, ?_, upTo.numbered⟩, follow⟩
        rw [sameSeq, sameSnapshot]
        exact upTo.last
      | @resync after next =>
        simp only [next, Nat.succ_ne_self, if_false]
        have grown : s.drafts <+: s.drafts ++ [after.snapshot] := List.prefix_append _ _
        refine ⟨upTo.next next, follows_publish (fun reader listed => (follow reader listed).mono grown) fun _ isOffered => ?_⟩
        cases isOffered
        trivial
      | @delta after ops next applied =>
        simp only [next, Nat.succ_ne_self, if_false]
        have grown : s.drafts <+: s.drafts ++ [after.snapshot] := List.prefix_append _ _
        refine ⟨upTo.next next, follows_publish (fun reader listed => (follow reader listed).mono grown) fun _ isOffered => ?_⟩
        cases isOffered
        refine ⟨Nat.succ_pos _, live.snapshot, after.snapshot, ?_, ?_, applied⟩
        · exact getElem?_grown grown upTo.last
        · rw [← next]
          exact (upTo.next next).last
    · rw [stays (by simpa using wasActive)] at active
      cases active

/-- One reader's step. -/
theorem StreamInv.onReader {s s' : StreamState} {index : Nat} {move : Reader → Option Reader} (invariant : StreamInv s)
    (moved : s.onReader index move = some s')
    (follow : ∀ live reader reader', s.live = some live → live.status.isActive = true → DraftsTo s.drafts live →
      Follows s.drafts reader → move reader = some reader' → Follows s.drafts reader')
    (view : ∀ reader reader', DatabaseView s.row reader → move reader = some reader' → DatabaseView s.row reader') :
    StreamInv s' := by
  obtain ⟨reader, found, rest⟩ := Option.bind_eq_some_iff.mp moved
  obtain ⟨reader', taken, same⟩ := Option.bind_eq_some_iff.mp rest
  cases same
  have inReaders := List.mem_of_getElem? found
  refine ⟨fun live isLive active => ?_, fun other listed => ?_⟩
  · obtain ⟨upTo, follows⟩ := invariant.active live isLive active
    refine ⟨upTo, fun other listed => ?_⟩
    rcases List.mem_or_eq_of_mem_set listed with before | rfl
    · exact follows other before
    · exact follow live reader other isLive active upTo (follows reader inReaders) taken
  · rcases List.mem_or_eq_of_mem_set listed with before | rfl
    · exact invariant.database other before
    · exact view reader other (invariant.database reader inReaders) taken

/-! ### What a reader knows from the database -/

section

variable {row : Option StoredRow} {reader reader' : Reader}

theorem databaseView_of_served (served : reader.phase.isServed = true) : DatabaseView row reader := by
  unfold DatabaseView
  cases phase : reader.phase with
  | waiting | holding _ | reading _ => trivial
  | fetched _ _ => simp [phase, ReaderPhase.isServed] at served
  | ended how => cases how <;> simp_all [ReaderPhase.isServed]

theorem databaseView_reading {first : Bool} (reading : reader.phase = .reading first) : DatabaseView row reader := by
  unfold DatabaseView
  rw [reading]
  trivial

/-- A reader sends what it read; a terminal row ends the stream. -/
theorem databaseView_send {read : StoredRow} (view : read.status.isTerminal = true → StillThere row read) :
    DatabaseView row (reader.send read.snapshot) := by
  by_cases terminal : read.status.isTerminal = true
  · have isTerminal : read.snapshot.status.isTerminal = true := terminal
    simp only [DatabaseView, Reader.send, isTerminal, if_true]
    exact ⟨read, terminal, by simp, view terminal⟩
  · have notTerminal : read.snapshot.status.isTerminal = false := by simpa [StoredRow.snapshot] using terminal
    exact databaseView_of_served (by simp [Reader.send, notTerminal, ReaderPhase.isServed])

theorem databaseView_settle {read : StoredRow} (view : read.status.isTerminal = true → StillThere row read) :
    DatabaseView row (reader.settle read.snapshot) := by
  unfold Reader.settle
  split
  next => exact databaseView_send view
  next => exact databaseView_of_served rfl

theorem databaseView_deliver (view : DatabaseView row reader) (delivered : reader.deliver = some reader') :
    DatabaseView row reader' := by
  unfold Reader.deliver at delivered
  split at delivered
  next phase =>
    cases delivered
    simpa [DatabaseView, phase] using view
  next read phase =>
    cases delivered
    exact databaseView_send (by simpa [DatabaseView, phase] using view)
  next read phase =>
    cases delivered
    exact databaseView_settle (by simpa [DatabaseView, phase] using view)
  next => cases delivered

theorem databaseView_readRow (read : reader.readRow row = some reader') : DatabaseView row reader' := by
  unfold Reader.readRow at read
  split at read
  next =>
    cases read
    cases row with
    | none => rfl
    | some current => exact fun _ => .inl rfl
  next => cases read

theorem databaseView_refresh (live : Option LiveGeneration) : DatabaseView row (reader.refresh live) := by
  unfold Reader.refresh
  split
  next draft isActive =>
    have active : draft.status.isActive = true := (Option.filter_eq_some_iff.mp isActive).2
    have notTerminal : draft.snapshot.status.isTerminal = false := by
      rw [Status.isActive_eq_not_isTerminal] at active
      simpa [LiveGeneration.snapshot] using active
    refine databaseView_of_served ?_
    unfold Reader.settle
    split
    next => simp [Reader.send, notTerminal, ReaderPhase.isServed]
    next => rfl
  next => exact databaseView_reading rfl

theorem databaseView_handle {live : Option LiveGeneration} (handled : reader.handle live = some reader') :
    DatabaseView row reader' := by
  unfold Reader.handle at handled
  split at handled
  next =>
    split at handled
    next =>
      cases handled
      exact databaseView_of_served rfl
    next =>
      cases handled
      exact databaseView_refresh live
  next delta _ =>
    split at handled
    next =>
      cases handled
      exact databaseView_of_served rfl
    next =>
      split at handled
      next =>
        cases handled
        exact databaseView_refresh live
      next =>
        cases handled
        exact databaseView_of_served rfl
  next =>
    cases handled
    exact databaseView_refresh live
  next => cases handled

theorem databaseView_receive (item : StreamItem) : DatabaseView row (reader.receive item) := by
  refine databaseView_of_served ?_
  unfold Reader.receive
  cases item.isClose <;> rfl

theorem databaseView_take (taken : reader.take = some reader') : DatabaseView row reader' := by
  unfold Reader.take at taken
  split at taken
  next item _ _ =>
    cases taken
    exact databaseView_receive item
  next item _ _ _ _ =>
    cases taken
    exact databaseView_receive item
  next => cases taken

theorem databaseView_timeout (waited : reader.timeout = some reader') : DatabaseView row reader' := by
  unfold Reader.timeout at waited
  split at waited
  next =>
    cases waited
    exact databaseView_of_served rfl
  next => cases waited

theorem databaseView_revoke (revoked : reader.revoke = some reader') : DatabaseView row reader' := by
  unfold Reader.revoke at revoked
  split at revoked
  next =>
    cases revoked
    exact databaseView_of_served rfl
  next => cases revoked

theorem databaseView_drop (dropped : reader.drop = some reader') : DatabaseView row reader' := by
  unfold Reader.drop at dropped
  split at dropped
  next =>
    cases dropped
    exact databaseView_of_served rfl
  next => cases dropped

theorem databaseView_closeSession (view : DatabaseView row reader) (closed : reader.closeSession = some reader') :
    DatabaseView row reader' := by
  unfold Reader.closeSession at closed
  split at closed
  next =>
    cases closed
    exact view
  next => cases closed

/-- A terminal row is not changed any more. -/
theorem databaseView_storeRow {current : StoredRow} (view : DatabaseView (some current) reader)
    (changeable : current.status.isTerminal = false) (row : Option StoredRow) : DatabaseView row reader := by
  have changed {read : StoredRow} (terminal : read.status.isTerminal = true) : ¬ StillThere (some current) read := by
    rintro (same | gone)
    · cases same
      rw [changeable] at terminal
      cases terminal
    · cases gone
  unfold DatabaseView at view ⊢
  split at view
  next read _ => exact fun terminal => absurd (view terminal) (changed terminal)
  next => cases view
  next => cases view
  next =>
    obtain ⟨read, terminal, -, still⟩ := view
    exact absurd still (changed terminal)
  next => trivial

theorem databaseView_deleteRow (view : DatabaseView row reader) : DatabaseView none reader := by
  unfold DatabaseView at view ⊢
  split at view
  next => exact fun _ => .inr rfl
  next => rfl
  next => rfl
  next =>
    obtain ⟨read, terminal, last, -⟩ := view
    exact ⟨read, terminal, last, .inr rfl⟩
  next => trivial

theorem databaseView_subscribe (live : Option LiveGeneration) : DatabaseView row (subscribe live) := by
  unfold subscribe
  split
  next => exact databaseView_of_served rfl
  next => exact databaseView_reading rfl

end

/-! ### Every step keeps it -/

theorem step_streamInv {s s' : StreamState} {action : StreamAction} (invariant : StreamInv s)
    (taken : streamStep s action = some s') : StreamInv s' := by
  cases action with
  | applyLiveEvents events =>
    cases taken
    refine invariant.change _ (fun live _ => applyLiveEvents_changes live events) fun live inactive => ?_
    have notRunning : live.status ≠ .running := by
      intro running
      rw [running] at inactive
      cases inactive
    simp [applyLiveEvents, notRunning, inactive]
  | resetDraftForRetry =>
    cases taken
    refine invariant.change _ (fun live _ => resetDraftForRetry_changes live) fun live inactive => ?_
    have notRunning : live.status ≠ .running := by
      intro running
      rw [running] at inactive
      cases inactive
    simp [Stream.resetDraftForRetry, notRunning, inactive]
  | setLiveStatus status =>
    cases taken
    refine invariant.change _ (fun live active => setLiveStatus_changes status active) fun live inactive => ?_
    have terminal : live.status.isTerminal = true := by
      rw [Status.isActive_eq_not_isTerminal] at inactive
      simpa using inactive
    simp [Stream.setLiveStatus, terminal, inactive]
  | notify =>
    cases taken
    have views : ∀ reader ∈ publish (some .resync) s.readers, DatabaseView s.row reader :=
      databaseView_publish invariant.database
    refine ⟨fun live isLive active => ?_, views⟩
    obtain ⟨upTo, follow⟩ := invariant.active live isLive active
    have follows : ∀ reader ∈ publish (some .resync) s.readers, Follows s.drafts reader :=
      follows_publish follow fun _ isOffered => by
        cases isOffered
        trivial
    exact ⟨upTo, follows⟩
  | taskFinished =>
    cases taken
    have views : ∀ reader ∈ publish (some .resync) s.readers, DatabaseView s.row reader :=
      databaseView_publish invariant.database
    refine ⟨fun live isLive _ => ?_, views⟩
    cases isLive
  | storeRow row =>
    simp only [streamStep] at taken
    split at taken
    next current isRow =>
      split at taken
      next => cases taken
      next changeable =>
        cases taken
        refine ⟨invariant.active, fun reader listed => ?_⟩
        have view := invariant.database reader listed
        rw [isRow] at view
        exact databaseView_storeRow view (by simpa using changeable) _
    next => cases taken
  | deleteRow =>
    cases taken
    exact ⟨invariant.active, fun reader listed => databaseView_deleteRow (invariant.database reader listed)⟩
  | subscribe =>
    cases taken
    refine ⟨fun live isLive active => ?_, fun reader listed => ?_⟩
    · obtain ⟨upTo, follow⟩ := invariant.active live isLive active
      refine ⟨upTo, fun reader listed => ?_⟩
      rcases List.mem_append.mp listed with before | last
      · exact follow reader before
      · rw [List.mem_singleton.mp last, isLive]
        exact Follows.subscribe upTo active
    · rcases List.mem_append.mp listed with before | last
      · exact invariant.database reader before
      · rw [List.mem_singleton.mp last]
        exact databaseView_subscribe s.live
  | take index =>
    exact invariant.onReader taken (fun _ _ _ _ _ _ follows moved => follows.take moved) fun _ _ _ => databaseView_take
  | timeout index =>
    exact invariant.onReader taken (fun _ _ _ _ _ _ follows moved => follows.timeout moved) fun _ _ _ => databaseView_timeout
  | handle index =>
    refine invariant.onReader taken (fun live _ _ isLive active upTo follows moved => ?_) fun _ _ _ => databaseView_handle
    rw [isLive] at moved
    exact follows.handle upTo active moved
  | readRow index =>
    refine invariant.onReader taken (fun _ _ _ _ _ _ follows moved => ?_) fun _ _ _ => databaseView_readRow
    rw [(follows.not_reading s.row).1] at moved
    cases moved
  | deliver index =>
    refine invariant.onReader taken (fun _ _ _ _ _ _ follows moved => ?_) fun _ _ => databaseView_deliver
    rw [(follows.not_reading s.row).2] at moved
    cases moved
  | revoke index =>
    exact invariant.onReader taken (fun _ _ _ _ _ _ follows moved => follows.revoke moved) fun _ _ _ => databaseView_revoke
  | drop index =>
    exact invariant.onReader taken (fun _ _ _ _ _ _ follows moved => follows.drop moved) fun _ _ _ => databaseView_drop
  | closeSession index =>
    exact invariant.onReader taken (fun _ _ _ _ _ _ follows moved => follows.closeSession moved)
      fun _ _ => databaseView_closeSession

theorem reachable_streamInv {s : StreamState} (reachable : streams.Reachable s) : StreamInv s :=
  Machine.invariant StreamInv (fun s start => by rw [show s = StreamState.initial from start]; exact streamInv_initial)
    (fun _ _ _ invariant _ taken => step_streamInv invariant taken) reachable

/-! ## The end of a stream -/

/-- A step of the reader itself when no draft is left. -/
inductive OwnStep (row : StoredRow) (reader reader' : Reader) : Prop where
  | take : reader.take = some reader' → OwnStep row reader reader'
  | timeout : reader.timeout = some reader' → OwnStep row reader reader'
  | handle : reader.handle none = some reader' → OwnStep row reader reader'
  | readRow : reader.readRow (some row) = some reader' → OwnStep row reader reader'
  | deliver : reader.deliver = some reader' → OwnStep row reader reader'

/-- The reader, by itself, gets to the end of its stream with the row as its last frame. -/
def Finishes (row : StoredRow) (reader : Reader) : Prop :=
  ∃ last, Relation.ReflTransGen (OwnStep row) reader last ∧ last.phase = .ended .finished ∧
    last.frames.getLast? = some (.snapshot row.snapshot)

/-- No close signal is on its way to the reader. -/
def Reader.Unclosed (reader : Reader) : Prop := ∀ item ∈ reader.items, item.isClose = false

section

variable {row : StoredRow} {reader reader' : Reader}

theorem Finishes.of_step (step : OwnStep row reader reader') (finishes : Finishes row reader') : Finishes row reader := by
  obtain ⟨last, steps, ended⟩ := finishes
  exact ⟨last, .head step steps, ended⟩

theorem send_finishes (terminal : row.status.isTerminal = true) : Finishes row (reader.send row.snapshot) := by
  have isTerminal : row.snapshot.status.isTerminal = true := terminal
  exact ⟨_, .refl, by simp [Reader.send, isTerminal], by simp [Reader.send]⟩

/-- A reader at the database reads the terminal row. -/
theorem reading_finishes {first : Bool} (terminal : row.status.isTerminal = true) (reading : reader.phase = .reading first) :
    Finishes row reader := by
  have read : OwnStep row reader { reader with phase := .fetched first (some row) } := .readRow (by simp [Reader.readRow, reading])
  have isTerminal : row.snapshot.status.isTerminal = true := terminal
  have delivered : Reader.deliver { reader with phase := .fetched first (some row) } =
      some (Reader.send row.snapshot { reader with phase := .fetched first (some row) }) := by
    cases first <;> simp [Reader.deliver, Reader.settle, isTerminal]
  exact .of_step read (.of_step (.deliver delivered) (send_finishes terminal))

theorem Reader.Unclosed.fewer (unclosed : reader.Unclosed) (fewer : ∀ item ∈ reader'.items, item ∈ reader.items) :
    reader'.Unclosed := fun item listed => unclosed item (fewer item listed)

theorem refresh_finishes (terminal : row.status.isTerminal = true) (handled : reader.handle none = some (reader.refresh none)) :
    Finishes row reader :=
  .of_step (.handle handled) (reading_finishes terminal rfl)

/-- A reader that waited in vain looks at the row. -/
theorem idle_finishes (terminal : row.status.isTerminal = true) (idle : reader.phase = .holding none) :
    Finishes row reader :=
  refresh_finishes terminal (by simp [Reader.handle, idle])

/-- A reader that holds an item looks at the row, or goes on with no more items. -/
theorem holding_finishes {item : StreamItem} (terminal : row.status.isTerminal = true) (unclosed : reader.Unclosed)
    (holding : reader.phase = .holding (some item))
    (goesOn : ∀ next : Reader, next.phase = .waiting → next.Unclosed →
      next.waitingItems.length ≤ reader.waitingItems.length → Finishes row next) : Finishes row reader := by
  cases item with
  | resync => exact refresh_finishes terminal (by simp [Reader.handle, holding])
  | close =>
    have impossible := unclosed .close (by simp [Reader.items, holding, ReaderPhase.items])
    cases impossible
  | delta delta =>
    by_cases known : delta.seq ≤ reader.lastSeq
    · have handled : reader.handle none = some { reader with phase := .waiting } := by
        simp only [Reader.handle, holding, if_pos known]
      have fewer : Reader.Unclosed { reader with phase := .waiting } := unclosed.fewer fun item listed => mem_items listed
      exact .of_step (.handle handled) (goesOn _ rfl fewer (le_refl _))
    · by_cases next : delta.seq = reader.lastSeq + 1
      · cases coalesced : coalesce delta.ops delta.seq reader.queue with
        | mk ops rest =>
          obtain ⟨lastSeq, pending, queue⟩ := rest
          have suffix := coalesce_suffix coalesced
          have handled : reader.handle none = some { reader with
              phase := .waiting, queue, pending, lastSeq,
              frames := reader.frames ++ [.delta delta.seq lastSeq ops] } := by
            simp only [Reader.handle, holding, if_neg known]
            rw [if_neg (by simp [next]), coalesced]
          refine .of_step (.handle handled) (goesOn _ rfl ?_ ?_)
          · exact unclosed.fewer fun item listed => mem_items (List.mem_append_right _ (suffix.subset listed))
          · have shorter := suffix.length_le
            simp only [Reader.waitingItems, List.length_append] at shorter ⊢
            omega
      · refine refresh_finishes terminal ?_
        simp only [Reader.handle, holding, if_neg known]
        rw [if_pos next]

/-- A reader takes what waits for it, or waits in vain. -/
theorem waiting_step (waiting : reader.phase = .waiting) :
    (reader.waitingItems = [] ∧ reader.timeout = some { reader with phase := .holding none }) ∨
      ∃ (item : StreamItem) (rest : Reader), reader.waitingItems = item :: rest.waitingItems ∧
        reader.take = some (rest.receive item) := by
  cases pending : reader.pending with
  | some item =>
    refine .inr ⟨item, { reader with pending := none }, ?_, by simp [Reader.take, waiting, pending]⟩
    simp [Reader.waitingItems, pending]
  | none =>
    cases queued : reader.queue with
    | nil => exact .inl ⟨by simp [Reader.waitingItems, pending, queued], by simp [Reader.timeout, waiting, pending, queued]⟩
    | cons item queue =>
      refine .inr ⟨item, { reader with queue }, ?_, by simp [Reader.take, waiting, pending, queued]⟩
      simp [Reader.waitingItems, pending, queued]

/-- By induction on the items that wait: each step takes one of them, or reads the row. -/
theorem waiting_finishes (terminal : row.status.isTerminal = true) (count : Nat) {reader : Reader}
    (unclosed : reader.Unclosed) (waiting : reader.phase = .waiting) (few : reader.waitingItems.length ≤ count) :
    Finishes row reader := by
  induction count generalizing reader with
  | zero =>
    rcases waiting_step waiting with ⟨-, waited⟩ | ⟨item, rest, items, -⟩
    · exact .of_step (.timeout waited) (idle_finishes terminal rfl)
    · simp [items] at few
  | succ count inductionHypothesis =>
    rcases waiting_step waiting with ⟨-, waited⟩ | ⟨item, rest, items, taken⟩
    · exact .of_step (.timeout waited) (idle_finishes terminal rfl)
    · rw [items, List.length_cons] at few
      have isOpen : item.isClose = false := unclosed item (mem_items (by simp [items]))
      have holding : (rest.receive item).phase = .holding (some item) := by simp [Reader.receive, isOpen]
      have stillUnclosed : (rest.receive item).Unclosed := by
        intro other listed
        rcases List.mem_append.mp listed with held | later
        · rw [holding, ReaderPhase.items, List.mem_singleton] at held
          exact held ▸ isOpen
        · have inRest : other ∈ rest.waitingItems := later
          exact unclosed other (mem_items (by simp [items, inRest]))
      refine .of_step (.take taken) (holding_finishes terminal stillUnclosed holding ?_)
      intro next isWaiting nextUnclosed fewer
      have sameItems : (rest.receive item).waitingItems = rest.waitingItems := rfl
      rw [sameItems] at fewer
      exact inductionHypothesis nextUnclosed isWaiting (by omega)

/-- From wherever it is suspended. -/
theorem open_finishes (terminal : row.status.isTerminal = true) (isOpen : reader.isOpen = true) (unclosed : reader.Unclosed)
    (view : DatabaseView (some row) reader) : Finishes row reader := by
  cases phase : reader.phase with
  | waiting => exact waiting_finishes terminal _ unclosed phase (le_refl _)
  | holding item =>
    cases item with
    | none => exact idle_finishes terminal phase
    | some item =>
      exact holding_finishes terminal unclosed phase fun next isWaiting nextUnclosed _ =>
        waiting_finishes terminal _ nextUnclosed isWaiting (le_refl _)
  | reading first => exact reading_finishes terminal phase
  | ended how => simp [Reader.isOpen, phase] at isOpen
  | fetched first read =>
    simp only [DatabaseView, phase] at view
    cases read with
    | none => cases view
    | some read =>
      by_cases readTerminal : read.status.isTerminal = true
      · have same : read = row := by
          rcases view readTerminal with same | gone
          · exact (Option.some.inj same).symm
          · cases gone
        have isTerminal : read.snapshot.status.isTerminal = true := readTerminal
        have delivered : reader.deliver = some (reader.send read.snapshot) := by
          cases first <;> simp [Reader.deliver, phase, Reader.settle, isTerminal]
        rw [same] at delivered
        exact .of_step (.deliver delivered) (send_finishes terminal)
      · have notTerminal : read.snapshot.status.isTerminal = false := by simpa [StoredRow.snapshot] using readTerminal
        -- a row read before it became terminal: the reader goes back to its queue
        have goesBack : ∃ next, reader.deliver = some next ∧ next.phase = .waiting ∧
            next.waitingItems = reader.waitingItems := by
          have sent : (reader.send read.snapshot).phase = .waiting := by simp [Reader.send, notTerminal]
          cases first with
          | true => exact ⟨_, by simp only [Reader.deliver, phase], sent, rfl⟩
          | false =>
            refine ⟨reader.settle read.snapshot, by simp only [Reader.deliver, phase], ?_⟩
            unfold Reader.settle
            split
            next => exact ⟨sent, rfl⟩
            next => exact ⟨rfl, rfl⟩
        obtain ⟨next, delivered, waiting, items⟩ := goesBack
        refine .of_step (.deliver delivered) (waiting_finishes terminal _ ?_ waiting (le_refl _))
        refine unclosed.fewer fun item listed => ?_
        rw [items_of_waiting waiting, items] at listed
        exact mem_items listed

end

/-! ## Whole runs -/

/-- The record of drafts only grows. -/
theorem step_drafts {s s' : StreamState} {action : StreamAction} (taken : streamStep s action = some s') :
    s.drafts <+: s'.drafts := by
  have changed (change : LiveGeneration → Change) : s.drafts <+: (s.change change).drafts := by
    unfold StreamState.change
    cases s.live with
    | none => exact List.prefix_refl _
    | some live =>
      dsimp only
      split
      next => exact List.prefix_refl _
      next => exact List.prefix_append _ _
  have moved {index : Nat} {move : Reader → Option Reader} (onReader : s.onReader index move = some s') :
      s.drafts <+: s'.drafts := by
    obtain ⟨reader, -, rest⟩ := Option.bind_eq_some_iff.mp onReader
    obtain ⟨reader', -, same⟩ := Option.bind_eq_some_iff.mp rest
    cases same
    exact List.prefix_refl _
  cases action with
  | applyLiveEvents | resetDraftForRetry | setLiveStatus =>
    cases taken
    exact changed _
  | notify | taskFinished | deleteRow | subscribe =>
    cases taken
    exact List.prefix_refl _
  | storeRow row =>
    simp only [streamStep] at taken
    split at taken
    next =>
      split at taken
      next => cases taken
      next =>
        cases taken
        exact List.prefix_refl _
    next => cases taken
  | take | timeout | handle | readRow | deliver | revoke | drop | closeSession => exact moved taken

theorem steps_drafts {s later : StreamState} (steps : streams.Steps s later) : s.drafts <+: later.drafts := by
  induction steps with
  | refl => exact List.prefix_refl _
  | tail _ last inductionHypothesis =>
    obtain ⟨action, taken⟩ := last
    exact inductionHypothesis.trans (step_drafts taken)

/-- A reader's own steps are steps of the system once the task is over. -/
theorem steps_of_ownSteps {s : StreamState} {row : StoredRow} {index : Nat} {reader reader' : Reader}
    (steps : Relation.ReflTransGen (OwnStep row) reader reader') (noDraft : s.live = none) (isRow : s.row = some row)
    (found : s.readers[index]? = some reader) :
    ∃ later, streams.Steps s later ∧ later.live = none ∧ later.row = some row ∧ later.readers[index]? = some reader' := by
  induction steps with
  | refl => exact ⟨s, .refl, noDraft, isRow, found⟩
  | @tail middle last _ step inductionHypothesis =>
    obtain ⟨before, steps, noDraft, isRow, found⟩ := inductionHypothesis
    have inBounds := (List.getElem?_eq_some_iff.mp found).1
    have moved {move : Reader → Option Reader} (taken : move middle = some last) :
        before.onReader index move = some { before with readers := before.readers.set index last } := by
      simp [StreamState.onReader, found, taken]
    refine ⟨{ before with readers := before.readers.set index last }, steps.tail ?_, noDraft, isRow,
      List.getElem?_set_self inBounds⟩
    cases step with
    | take taken => exact ⟨.take index, moved taken⟩
    | timeout taken => exact ⟨.timeout index, moved taken⟩
    | handle taken => exact ⟨.handle index, moved (by rw [noDraft]; exact taken)⟩
    | readRow taken => exact ⟨.readRow index, moved (by rw [isRow]; exact taken)⟩
    | deliver taken => exact ⟨.deliver index, moved taken⟩

theorem unclosed_offered {reader : Reader} (unclosed : reader.Unclosed) : (reader.offered .resync).Unclosed := by
  unfold Reader.offered
  split
  next =>
    have noClose : reader.queue.any StreamItem.isClose = false := by
      rw [List.any_eq_false]
      intro item queued
      rw [unclosed item (mem_items (List.mem_append_right _ queued))]
      decide
    intro item listed
    rcases List.mem_append.mp listed with held | waits
    · exact unclosed item (List.mem_append_left _ held)
    rcases List.mem_append.mp waits with pending | queued
    · exact unclosed item (mem_items (List.mem_append_left _ pending))
    have fromQueue : item ∈ offer reader.queue .resync := queued
    unfold offer at fromQueue
    split at fromQueue
    next =>
      rcases List.mem_append.mp fromQueue with before | last
      · exact unclosed item (mem_items (List.mem_append_right _ before))
      · rw [List.mem_singleton.mp last]
        rfl
    next =>
      rw [noClose] at fromQueue
      rw [List.mem_singleton.mp fromQueue]
      rfl
  next => exact unclosed

/-- A stream that is open and that nobody closes gets to the snapshot of the terminal row. -/
theorem stream_finishes {s : StreamState} {row : StoredRow} {index : Nat} {reader : Reader} (reachable : streams.Reachable s)
    (isRow : s.row = some row) (terminal : row.status.isTerminal = true) (found : s.readers[index]? = some reader)
    (isOpen : reader.isOpen = true) (unclosed : reader.Unclosed) :
    ∃ later ended, streams.Steps s later ∧ later.row = some row ∧ later.readers[index]? = some ended ∧
      ended.phase = .ended .finished ∧ ended.frames.getLast? = some (.snapshot row.snapshot) := by
  let finished : StreamState := { s with live := none, readers := publish (some .resync) s.readers }
  have stepped : streams.step s .taskFinished = some finished := rfl
  have view : DatabaseView (some row) (reader.offered .resync) :=
    databaseView_offered (isRow ▸ (reachable_streamInv reachable).database reader (List.mem_of_getElem? found))
  have stillOpen : (reader.offered .resync).isOpen = true := by
    simp only [Reader.offered, isOpen, if_true]
    exact isOpen
  obtain ⟨ended, ownSteps, isEnded, last⟩ := open_finishes terminal stillOpen (unclosed_offered unclosed) view
  have noDraft : finished.live = none := rfl
  have nowRow : finished.row = some row := isRow
  have nowFound : finished.readers[index]? = some (reader.offered .resync) := by simp [finished, publish, found]
  obtain ⟨later, steps, -, sameRow, endedFound⟩ := steps_of_ownSteps ownSteps noDraft nowRow nowFound
  exact ⟨later, ended, steps.head ⟨_, stepped⟩, sameRow, endedFound, isEnded, last⟩

/-- A stream shows the draft at the number of its last frame while the draft is active, and ends
with the snapshot of the terminal row. -/
theorem live_stream_follows_draft {s : StreamState} (reachable : streams.Reachable s) :
    (∀ live, s.live = some live → live.status.isActive = true →
      s.drafts[live.seq]? = some live.snapshot ∧
      ∀ reader ∈ s.readers,
        (∀ seen frame, seen ++ [frame] <+: reader.frames →
          ∃ shown, replay (seen ++ [frame]) = some shown ∧ s.drafts[frame.seq]? = some shown) ∧
        reader.frames.Pairwise fun earlier later => earlier.seq < later.seq) ∧
    (∀ later, streams.Steps s later → s.drafts <+: later.drafts) ∧
    ∀ row, s.row = some row → ∀ (index : Nat) (reader : Reader), s.readers[index]? = some reader →
      (∀ how, reader.phase = .ended how → how ≠ .closed → how ≠ .dropped →
        row.status.isTerminal = true ∧ reader.frames.getLast? = some (.snapshot row.snapshot)) ∧
      (row.status.isTerminal = true → reader.isOpen = true → reader.Unclosed →
        ∃ later ended, streams.Steps s later ∧ later.row = some row ∧ later.readers[index]? = some ended ∧
          ended.phase = .ended .finished ∧ ended.frames.getLast? = some (.snapshot row.snapshot)) := by
  have invariant := reachable_streamInv reachable
  refine ⟨fun live isLive active => ?_, fun later => steps_drafts, fun row isRow index reader found => ⟨?_, ?_⟩⟩
  · obtain ⟨upTo, follow⟩ := invariant.active live isLive active
    exact ⟨upTo.last, fun reader listed => ⟨(follow reader listed).frames.shown, (follow reader listed).frames.increasing⟩⟩
  · intro how phase notClosed notDropped
    have view := invariant.database reader (List.mem_of_getElem? found)
    simp only [DatabaseView, phase, isRow] at view
    cases how with
    | finished =>
      obtain ⟨read, terminal, last, same | gone⟩ := view
      · cases same
        exact ⟨terminal, last⟩
      · cases gone
    | missing => cases view
    | closed => exact absurd rfl notClosed
    | dropped => exact absurd rfl notDropped
  · exact fun terminal isOpen unclosed => stream_finishes reachable isRow terminal found isOpen unclosed

/-- A browser opens the stream of a running generation, and the answer begins. -/
def greetedReader : List StreamAction :=
  [.setLiveStatus .running, .subscribe,
    .applyLiveEvents [.blockStart (str "a") .conversation, .blockDelta (str "a") .conversation (str "Hi")],
    .take 0, .handle 0]

theorem live_stream_follows_draft_greeted :
    ∃ s, streams.run StreamState.initial greetedReader = some s ∧
      ∀ reader ∈ s.readers, reader.frames.map Frame.seq = [1, 2] ∧
        replay reader.frames = s.drafts[2]? := by
  refine ⟨_, rfl, fun reader listed => ?_⟩
  have ran : streams.run StreamState.initial greetedReader = some _ := rfl
  obtain ⟨-, follow⟩ := (live_stream_follows_draft (Machine.reachable_of_run (.init rfl) ran)).1 _ rfl rfl
  rcases List.mem_singleton.mp listed with rfl
  obtain ⟨shown, replayed, found⟩ := (follow _ listed).1 _ _ (List.prefix_refl _)
  exact ⟨rfl, replayed.trans found.symm⟩

end Oveo.Stream
