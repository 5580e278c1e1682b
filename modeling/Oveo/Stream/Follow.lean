import Oveo.Stream.System

/-! # A stream shows the draft

While the draft is active, a browser that applies the frames of a stream shows the draft as it was
at the sequence number of the last one.  `Follows` is what holds of every open reader then: its
frames replay to the draft at `lastSeq`, and each delta it has yet to look at, wherever it is kept,
turns the draft before its number into the draft at it.  Dropping or repeating items keeps that. -/

namespace Oveo.Stream

open Oveo.Lib Oveo.Protocol Oveo.Store

/-! ## Frames -/

/-- After every frame the browser shows the draft as it was at the number the frame carries, and
the numbers increase. -/
structure FramesFollow (drafts : List Snapshot) (frames : List Frame) : Prop where
  shown : ∀ seen frame, seen ++ [frame] <+: frames →
    ∃ shown, replay (seen ++ [frame]) = some shown ∧ drafts[frame.seq]? = some shown
  increasing : frames.Pairwise fun earlier later => earlier.seq < later.seq

theorem FramesFollow.nil (drafts : List Snapshot) : FramesFollow drafts [] where
  shown := fun seen frame isPrefix => by simp at isPrefix
  increasing := .nil

theorem getElem?_grown {drafts later : List Snapshot} {index : Nat} {shown : Snapshot} (grown : drafts <+: later)
    (found : drafts[index]? = some shown) : later[index]? = some shown := by
  obtain ⟨rest, rfl⟩ := grown
  rw [List.getElem?_append_left (List.getElem?_eq_some_iff.mp found).1]
  exact found

theorem FramesFollow.mono {drafts later : List Snapshot} {frames : List Frame} (follow : FramesFollow drafts frames)
    (grown : drafts <+: later) : FramesFollow later frames where
  shown := fun seen frame isPrefix => by
    obtain ⟨shown, replayed, found⟩ := follow.shown seen frame isPrefix
    exact ⟨shown, replayed, getElem?_grown grown found⟩
  increasing := follow.increasing

/-- One more frame. -/
theorem FramesFollow.append {drafts : List Snapshot} {frames : List Frame} {frame : Frame} {shown : Snapshot}
    (follow : FramesFollow drafts frames) (replayed : replay (frames ++ [frame]) = some shown)
    (found : drafts[frame.seq]? = some shown) (later : ∀ earlier ∈ frames, earlier.seq < frame.seq) :
    FramesFollow drafts (frames ++ [frame]) where
  shown := fun seen next isPrefix => by
    rcases List.prefix_concat_iff.mp isPrefix with whole | earlier
    · obtain ⟨rfl, same⟩ := List.append_inj' whole rfl
      cases same
      exact ⟨shown, replayed, found⟩
    · exact follow.shown seen next earlier
  increasing := List.pairwise_append.mpr
    ⟨follow.increasing, List.pairwise_singleton _ _, fun earlier listed last isLast => by
      rw [List.mem_singleton.mp isLast]
      exact later earlier listed⟩

/-! ## Readers -/

/-- The operations turn the draft at one number into the draft at another. -/
def Turns (drafts : List Snapshot) (start finish : Nat) (ops : List DeltaOp) : Prop :=
  ∃ before after, drafts[start]? = some before ∧ drafts[finish]? = some after ∧
    applyOps before.blocks before.status ops = some (after.blocks, after.status)

/-- A queued delta belongs to the draft before its number. -/
def ItemFollows (drafts : List Snapshot) : StreamItem → Prop
  | .delta delta => 0 < delta.seq ∧ Turns drafts (delta.seq - 1) delta.seq delta.ops
  | .resync | .close => True

/-- The item a reader took. -/
def ReaderPhase.items : ReaderPhase → List StreamItem
  | .holding (some item) => [item]
  | _ => []

/-- The items it has not taken. -/
def Reader.waitingItems (reader : Reader) : List StreamItem := reader.pending.toList ++ reader.queue

/-- The items a reader has yet to look at. -/
def Reader.items (reader : Reader) : List StreamItem := reader.phase.items ++ reader.waitingItems

/-- Not at the database, and not ended by what it read there. -/
def ReaderPhase.isServed : ReaderPhase → Bool
  | .waiting | .holding _ | .ended .closed | .ended .dropped => true
  | _ => false

structure Follows (drafts : List Snapshot) (reader : Reader) : Prop where
  served : reader.phase.isServed = true
  frames : FramesFollow drafts reader.frames
  current : replay reader.frames = drafts[reader.lastSeq]?
  known : reader.lastSeq < drafts.length
  upTo : ∀ frame ∈ reader.frames, frame.seq ≤ reader.lastSeq
  items : ∀ item ∈ reader.items, ItemFollows drafts item

theorem Turns.mono {drafts later : List Snapshot} {start finish : Nat} {ops : List DeltaOp}
    (turns : Turns drafts start finish ops) (grown : drafts <+: later) : Turns later start finish ops := by
  obtain ⟨before, after, foundBefore, foundAfter, applied⟩ := turns
  exact ⟨before, after, getElem?_grown grown foundBefore, getElem?_grown grown foundAfter, applied⟩

theorem Turns.trans {drafts : List Snapshot} {start middle finish : Nat} {left right : List DeltaOp}
    (first : Turns drafts start middle left) (second : Turns drafts middle finish right) :
    Turns drafts start finish (left ++ right) := by
  obtain ⟨before, between, foundBefore, foundBetween, appliedLeft⟩ := first
  obtain ⟨_, after, foundMiddle, foundAfter, appliedRight⟩ := second
  rw [foundBetween] at foundMiddle
  cases foundMiddle
  refine ⟨before, after, foundBefore, foundAfter, ?_⟩
  rw [applyOps_append, appliedLeft]
  exact appliedRight

theorem ItemFollows.mono {drafts later : List Snapshot} {item : StreamItem} (follows : ItemFollows drafts item)
    (grown : drafts <+: later) : ItemFollows later item := by
  cases item with
  | delta delta => exact ⟨follows.1, follows.2.mono grown⟩
  | resync | close => trivial

theorem Follows.mono {drafts later : List Snapshot} {reader : Reader} (follows : Follows drafts reader)
    (grown : drafts <+: later) : Follows later reader where
  served := follows.served
  frames := follows.frames.mono grown
  current := by
    rw [follows.current, List.getElem?_eq_getElem follows.known]
    exact (getElem?_grown grown (List.getElem?_eq_getElem follows.known)).symm
  known := lt_of_lt_of_le follows.known grown.length_le
  upTo := follows.upTo
  items := fun item listed => (follows.items item listed).mono grown

/-! ## Offers -/

/-- What a queue holds after an offer was there before or is the item, or a signal. -/
theorem mem_offer {queue : List StreamItem} {item held : StreamItem} (listed : held ∈ offer queue item) :
    held ∈ queue ∨ held = item ∨ held = .close ∨ held = .resync := by
  unfold offer at listed
  split at listed
  next =>
    rcases List.mem_append.mp listed with before | last
    · exact .inl before
    · exact .inr (.inl (List.mem_singleton.mp last))
  next =>
    split at listed
    next => exact .inr (.inr (.inl (List.mem_singleton.mp listed)))
    next => exact .inr (.inr (.inr (List.mem_singleton.mp listed)))

theorem Follows.offered {drafts : List Snapshot} {reader : Reader} {item : StreamItem} (follows : Follows drafts reader)
    (itemFollows : ItemFollows drafts item) : Follows drafts (reader.offered item) := by
  unfold Reader.offered
  split
  next =>
    refine { follows with items := fun held listed => ?_ }
    rcases List.mem_append.mp listed with kept | queued
    · exact follows.items held (List.mem_append_left _ kept)
    · rcases List.mem_append.mp queued with pending | queued
      · exact follows.items held (List.mem_append_right _ (List.mem_append_left _ pending))
      · rcases mem_offer queued with before | rfl | rfl | rfl
        · exact follows.items held (List.mem_append_right _ (List.mem_append_right _ before))
        · exact itemFollows
        · trivial
        · trivial
  next => exact follows

/-! ## A reader's own steps -/

/-- The drafts so far, up to the one that is active. -/
structure DraftsTo (drafts : List Snapshot) (live : LiveGeneration) : Prop where
  length : drafts.length = live.seq + 1
  last : drafts[live.seq]? = some live.snapshot
  numbered : ∀ (index : Nat) (shown : Snapshot), drafts[index]? = some shown → shown.seq = index

section

variable {drafts : List Snapshot} {live : LiveGeneration} {reader reader' : Reader}

/-- A step that sends nothing and takes no new item. -/
theorem Follows.keep (follows : Follows drafts reader) (served : reader'.phase.isServed = true)
    (sameFrames : reader'.frames = reader.frames) (sameSeq : reader'.lastSeq = reader.lastSeq)
    (fewer : ∀ item ∈ reader'.items, item ∈ reader.items ∨ item = .close) : Follows drafts reader' where
  served := served
  frames := sameFrames ▸ follows.frames
  current := by rw [sameFrames, sameSeq]; exact follows.current
  known := sameSeq ▸ follows.known
  upTo := by rw [sameFrames, sameSeq]; exact follows.upTo
  items := fun item listed => by
    rcases fewer item listed with before | rfl
    · exact follows.items item before
    · trivial

/-- A step that sends one frame. -/
theorem Follows.sends {frame : Frame} {shown : Snapshot} (follows : Follows drafts reader)
    (served : reader'.phase.isServed = true) (sent : reader'.frames = reader.frames ++ [frame])
    (now : reader'.lastSeq = frame.seq) (later : reader.lastSeq < frame.seq)
    (consumed : consume drafts[reader.lastSeq]? frame = some shown) (found : drafts[frame.seq]? = some shown)
    (fewer : ∀ item ∈ reader'.items, item ∈ reader.items) : Follows drafts reader' := by
  have replayed : replay (reader.frames ++ [frame]) = some shown := by
    rw [replay_append, follows.current, consumed]
  refine ⟨served, ?_, ?_, ?_, ?_, fun item listed => follows.items item (fewer item listed)⟩
  · rw [sent]
    exact follows.frames.append replayed found fun earlier listed =>
      lt_of_le_of_lt (follows.upTo earlier listed) later
  · rw [sent, now, replayed, found]
  · rw [now]
    exact (List.getElem?_eq_some_iff.mp found).1
  · intro other listed
    rw [sent] at listed
    rw [now]
    rcases List.mem_append.mp listed with earlier | last
    · have := follows.upTo other earlier
      omega
    · rw [List.mem_singleton.mp last]

theorem items_of_waiting (waiting : reader.phase = .waiting) : reader.items = reader.waitingItems := by
  simp [Reader.items, waiting, ReaderPhase.items]

theorem mem_items {item : StreamItem} (listed : item ∈ reader.waitingItems) : item ∈ reader.items :=
  List.mem_append_right _ listed

theorem Follows.settle (follows : Follows drafts reader) (upTo : DraftsTo drafts live) (active : live.status.isActive = true) :
    Follows drafts (reader.settle live.snapshot) := by
  have notTerminal : live.snapshot.status.isTerminal = false := by
    rw [Status.isActive_eq_not_isTerminal] at active
    simpa [LiveGeneration.snapshot] using active
  unfold Reader.settle
  split
  next differs =>
    simp only [notTerminal, Bool.false_eq_true, false_or] at differs
    have known := follows.known
    rw [upTo.length] at known
    have later : reader.lastSeq < live.snapshot.seq := by
      have : live.snapshot.seq = live.seq := rfl
      omega
    refine follows.sends (by simp [Reader.send, notTerminal, ReaderPhase.isServed]) rfl rfl later rfl upTo.last ?_
    intro item listed
    rw [items_of_waiting (by simp [Reader.send, notTerminal])] at listed
    exact mem_items listed
  next => exact follows.keep rfl rfl rfl fun item listed => .inl (mem_items listed)

theorem Follows.refresh (follows : Follows drafts reader) (upTo : DraftsTo drafts live) (active : live.status.isActive = true) :
    Follows drafts (reader.refresh (some live)) := by
  simp only [Reader.refresh, activeDraft, Option.filter_some, active, if_true]
  exact follows.settle upTo active

/-- What coalescing leaves is the end of the queue. -/
theorem coalesce_suffix {ops ops' : List DeltaOp} {last last' : Nat} {queue queue' : List StreamItem}
    {pending : Option StreamItem} (coalesced : coalesce ops last queue = (ops', last', pending, queue')) :
    pending.toList ++ queue' <:+ queue := by
  induction queue generalizing ops last with
  | nil =>
    cases coalesced
    exact List.suffix_refl _
  | cons item queue inductionHypothesis =>
    cases item with
    | delta delta =>
      simp only [coalesce] at coalesced
      split at coalesced
      next => exact (inductionHypothesis coalesced).trans (List.suffix_cons _ _)
      next =>
        cases coalesced
        exact List.suffix_refl _
    | resync | close =>
      cases coalesced
      exact List.suffix_refl _

/-- Coalescing goes on from the draft it has reached. -/
theorem coalesce_turns {ops ops' : List DeltaOp} {start last last' : Nat} {queue queue' : List StreamItem}
    {pending : Option StreamItem} (coalesced : coalesce ops last queue = (ops', last', pending, queue'))
    (turns : Turns drafts start last ops) (items : ∀ item ∈ queue, ItemFollows drafts item) :
    Turns drafts start last' ops' ∧ last ≤ last' := by
  induction queue generalizing ops last with
  | nil =>
    cases coalesced
    exact ⟨turns, le_refl _⟩
  | cons item queue inductionHypothesis =>
    cases item with
    | delta delta =>
      simp only [coalesce] at coalesced
      split at coalesced
      next next =>
        obtain ⟨-, turnsNext⟩ := items (.delta delta) List.mem_cons_self
        rw [next, Nat.add_sub_cancel, ← next] at turnsNext
        obtain ⟨reached, further⟩ := inductionHypothesis coalesced (turns.trans turnsNext)
          fun other listed => items other (List.mem_cons_of_mem _ listed)
        exact ⟨reached, by omega⟩
      next =>
        cases coalesced
        exact ⟨turns, le_refl _⟩
    | resync | close =>
      cases coalesced
      exact ⟨turns, le_refl _⟩

/-- A delta that follows the last frame is sent with those queued right behind it. -/
theorem Follows.sendDelta {delta : Delta} (follows : Follows drafts reader) (upTo : DraftsTo drafts live)
    (held : reader.phase = .holding (some (.delta delta))) (next : delta.seq = reader.lastSeq + 1)
    (handled : reader.handle (some live) = some reader') : Follows drafts reader' := by
  simp only [Reader.handle, held] at handled
  rw [if_neg (by omega), if_neg (by omega)] at handled
  have items := follows.items
  obtain ⟨-, turns⟩ := items (.delta delta) (by simp [Reader.items, held, ReaderPhase.items])
  rw [next, Nat.add_sub_cancel, ← next] at turns
  cases coalesced : coalesce delta.ops delta.seq reader.queue with
  | mk ops rest =>
    obtain ⟨lastSeq, pending, queue⟩ := rest
    rw [coalesced] at handled
    cases handled
    obtain ⟨⟨before, after, foundBefore, foundAfter, applied⟩, further⟩ := coalesce_turns coalesced turns
      fun item listed => items item (by simp [Reader.items, Reader.waitingItems, listed])
    have beforeSeq := upTo.numbered _ _ foundBefore
    have afterSeq := upTo.numbered _ _ foundAfter
    have consumed : consume drafts[reader.lastSeq]? (.delta delta.seq lastSeq ops) = some after := by
      simp only [consume, foundBefore, Option.bind_some, applyDelta, beforeSeq, next, ne_eq, not_true, if_false, applied]
      rw [← afterSeq]
      rfl
    refine follows.sends rfl rfl rfl (show reader.lastSeq < lastSeq by omega) consumed foundAfter ?_
    intro item listed
    rw [items_of_waiting rfl] at listed
    exact mem_items (List.mem_append_right _ ((coalesce_suffix coalesced).subset listed))

theorem Follows.handle (follows : Follows drafts reader) (upTo : DraftsTo drafts live)
    (active : live.status.isActive = true) (handled : reader.handle (some live) = some reader') : Follows drafts reader' := by
  have waits : Follows drafts { reader with phase := .waiting } :=
    follows.keep rfl rfl rfl fun item listed => .inl (mem_items listed)
  cases held : reader.phase with
  | holding item =>
    cases item with
    | none =>
      simp only [Reader.handle, held, Option.isSome_some, if_true, Option.some.injEq] at handled
      exact handled ▸ waits
    | some item =>
      cases item with
      | delta delta =>
        by_cases next : delta.seq = reader.lastSeq + 1
        · exact follows.sendDelta upTo held next handled
        · simp only [Reader.handle, held] at handled
          by_cases known : delta.seq ≤ reader.lastSeq
          · rw [if_pos known] at handled
            cases handled
            exact waits
          · rw [if_neg known, if_pos next] at handled
            cases handled
            exact follows.refresh upTo active
      | resync =>
        simp only [Reader.handle, held, Option.some.injEq] at handled
        exact handled ▸ follows.refresh upTo active
      | close => simp [Reader.handle, held] at handled
  | waiting | reading _ | fetched _ _ | ended _ => simp [Reader.handle, held] at handled

/-- The item leaves the pending slot or the queue for the reader's hands. -/
theorem Follows.receive {item : StreamItem} (follows : Follows drafts reader) (sameFrames : reader'.frames = reader.frames)
    (sameSeq : reader'.lastSeq = reader.lastSeq) (itemListed : item ∈ reader.items)
    (fewer : ∀ other ∈ reader'.waitingItems, other ∈ reader.items) : Follows drafts (reader'.receive item) := by
  refine follows.keep ?_ sameFrames sameSeq fun other listed => ?_
  · unfold Reader.receive
    cases item.isClose <;> rfl
  · left
    rcases List.mem_append.mp listed with taken | waiting
    · unfold Reader.receive at taken
      cases isClose : item.isClose with
      | true => simp [isClose, ReaderPhase.items] at taken
      | false =>
        simp only [isClose, Bool.false_eq_true, if_false, ReaderPhase.items, List.mem_singleton] at taken
        exact taken ▸ itemListed
    · exact fewer other waiting

theorem Follows.take (follows : Follows drafts reader) (taken : reader.take = some reader') : Follows drafts reader' := by
  unfold Reader.take at taken
  split at taken
  next item waiting isPending =>
    cases taken
    refine follows.receive rfl rfl (mem_items ?_) fun other listed => mem_items (List.mem_append_right _ listed)
    simp [Reader.waitingItems, isPending]
  next item queue waiting noPending queued =>
    cases taken
    refine follows.receive rfl rfl (mem_items ?_) fun other listed => mem_items ?_
    · simp [Reader.waitingItems, queued]
    · rcases List.mem_append.mp listed with pending | inQueue
      · exact List.mem_append_left _ pending
      · rw [Reader.waitingItems, queued]
        exact List.mem_append_right _ (List.mem_cons_of_mem _ inQueue)
  next => cases taken

theorem Follows.timeout (follows : Follows drafts reader) (waited : reader.timeout = some reader') :
    Follows drafts reader' := by
  unfold Reader.timeout at waited
  split at waited
  next =>
    cases waited
    exact follows.keep rfl rfl rfl fun item listed => .inl (mem_items listed)
  next => cases waited

theorem Follows.revoke (follows : Follows drafts reader) (revoked : reader.revoke = some reader') :
    Follows drafts reader' := by
  unfold Reader.revoke at revoked
  split at revoked
  next =>
    cases revoked
    exact follows.keep rfl rfl rfl fun item listed => .inl (mem_items listed)
  next => cases revoked

theorem Follows.drop (follows : Follows drafts reader) (dropped : reader.drop = some reader') : Follows drafts reader' := by
  unfold Reader.drop at dropped
  split at dropped
  next =>
    cases dropped
    exact follows.keep rfl rfl rfl fun item listed => .inl (mem_items listed)
  next => cases dropped

theorem Follows.closeSession (follows : Follows drafts reader) (closed : reader.closeSession = some reader') :
    Follows drafts reader' := by
  unfold Reader.closeSession at closed
  split at closed
  next =>
    cases closed
    refine follows.keep follows.served rfl rfl fun item listed => ?_
    rcases List.mem_append.mp listed with held | waiting
    · exact .inl (List.mem_append_left _ held)
    · rcases List.mem_append.mp waiting with pending | queued
      · exact .inl (mem_items (List.mem_append_left _ pending))
      · exact .inr (List.mem_singleton.mp queued)
  next => cases closed

/-- No reader is at the database while the draft is active. -/
theorem Follows.not_reading (follows : Follows drafts reader) (row : Option StoredRow) :
    reader.readRow row = none ∧ reader.deliver = none := by
  have served := follows.served
  cases phase : reader.phase with
  | reading _ | fetched _ _ => simp [phase, ReaderPhase.isServed] at served
  | waiting | holding _ | ended _ => simp [Reader.readRow, Reader.deliver, phase]

theorem Follows.subscribe (upTo : DraftsTo drafts live) (active : live.status.isActive = true) :
    Follows drafts (subscribe (some live)) := by
  simp only [Stream.subscribe, activeDraft, Option.filter_some, active, if_true]
  refine ⟨rfl, ?_, upTo.last.symm, by simp [upTo.length], ?_, by simp [Reader.items, Reader.waitingItems, ReaderPhase.items]⟩
  · exact (FramesFollow.nil drafts).append rfl upTo.last (by simp)
  · intro frame listed
    rw [List.mem_singleton.mp listed]
    exact le_refl _

end

/-! ## Changes of the draft -/

/-- What a change of an active draft publishes and what it leaves. -/
inductive Changes (live : LiveGeneration) : Change → Prop where
  | ended {after item} : after.status.isActive = false → after.seq = live.seq → Changes live (after, item)
  | none {after} : after.seq = live.seq → after.snapshot = live.snapshot → Changes live (after, none)
  | resync {after} : after.seq = live.seq + 1 → Changes live (after, some .resync)
  | delta {after ops} : after.seq = live.seq + 1 →
      applyOps live.snapshot.blocks live.snapshot.status ops = some (after.snapshot.blocks, after.snapshot.status) →
      Changes live (after, some (.delta ⟨live.seq + 1, ops⟩))

theorem applyLiveEvents_changes (live : LiveGeneration) (events : List ProtocolEvent) :
    Changes live (applyLiveEvents live events) := by
  unfold applyLiveEvents
  split
  next => exact .none rfl rfl
  next =>
    split
    next => exact .none rfl rfl
    next blocks ops collected =>
      split
      next empty =>
        rw [List.isEmpty_iff.mp empty] at collected
        rw [collectOps_nil collected]
        exact .none rfl rfl
      next => exact .delta rfl (collectOps_applyOps collected)

theorem resetDraftForRetry_changes (live : LiveGeneration) : Changes live (resetDraftForRetry live) := by
  unfold resetDraftForRetry
  split
  next => exact .none rfl rfl
  next => exact .resync rfl

theorem setLiveStatus_changes {live : LiveGeneration} (status : Status) (active : live.status.isActive = true) :
    Changes live (setLiveStatus status live) := by
  have notTerminal : live.status.isTerminal = false := by
    rw [Status.isActive_eq_not_isTerminal] at active
    simpa using active
  unfold setLiveStatus
  rw [if_neg (by simp [notTerminal])]
  split
  next terminal => exact .ended (by simp [Status.isActive_eq_not_isTerminal, terminal]) rfl
  next => exact .delta rfl rfl

end Oveo.Stream
