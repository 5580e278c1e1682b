import Oveo.Browser.Transcript
import Oveo.Lib.Keyed

/-! # What is shown is the conversation

Every detail the browser knows is the beginning of its conversation, and the one that was set last has all
that any other knows.  The newest request of a view was made with no more than that shown, and its
response has it all.  A refresh that starts after a navigation, but before the effect that clears
`detailRef`, asks only for what is new to a conversation that is not shown any more. -/

namespace Oveo.Browser

open Oveo.Lib Oveo.Store

/-! ## Refreshes in time -/

/-- The workspace in which a step calls `refreshDetail`, and for what. -/
def refreshStart (w : Workspace) : BrowserAction → Option (Workspace × ThreadId)
  | .refreshDetail id => some (w, id)
  | .sent index thread =>
    match w.sends[index]? with
    | some (.thread id) => some (w, id)
    | some (.new _) => some (w.enter (.thread thread), thread)
    | none => none
  | .refused index _ =>
    match w.sends[index]? with
    | some (.thread id) => some (w, id)
    | _ => none
  | _ => none

/-- A refresh that starts while nothing is shown does not take `detailRef` for it. -/
def inTime (w : Workspace) (action : BrowserAction) : Bool :=
  match refreshStart w action with
  | some (start, id) => start.screen.view != .thread id || start.screen.detail.isSome || (start.after id).getD 0 == 0
  | none => true

def InTime (w : Workspace) (action : BrowserAction) : Prop := inTime w action = true

instance (w : Workspace) (action : BrowserAction) : Decidable (InTime w action) :=
  inferInstanceAs (Decidable (_ = _))

section

variable {w next : Workspace} {action : BrowserAction} {thread id : ThreadId} {messages shown whole : List Message}
  {detail older loaded : ThreadDetail} {request : Request} {after : Option Nat}

/-! ## Stored messages -/

theorem WellStored.start (wellStored : WellStored thread whole) (isPrefix : shown <+: whole) : WellStored thread shown := by
  obtain ⟨rest, rfl⟩ := isPrefix
  constructor
  · have ordinals := wellStored.ordinals
    rw [List.map_append, List.length_append, ← List.range'_append_1] at ordinals
    exact (List.append_inj ordinals (by simp)).1
  · exact fun message listed => wellStored.threads message (List.mem_append_left _ listed)
  · exact wellStored.ids.sublist ((List.sublist_append_left _ _).map _)

theorem WellStored.concat (wellStored : WellStored thread messages) {id : Nat} (fresh : id ∉ messages.map Message.id) :
    WellStored thread (messages ++ [⟨id, messages.length + 1, thread⟩]) := by
  constructor
  · rw [List.map_append, wellStored.ordinals, List.length_append, List.length_singleton, List.range'_concat]
    simp [Nat.add_comm]
  · intro message listed
    rcases List.mem_append.mp listed with before | isNew
    · exact wellStored.threads message before
    · rw [List.mem_singleton.mp isNew]
  · rw [List.map_append]
    exact wellStored.ids.append (List.nodup_singleton _) (List.disjoint_singleton.mpr fresh)

/-- The last message shown is the one with the number of those shown. -/
theorem WellStored.lastOrdinal_eq (wellStored : WellStored thread detail.messages) : lastOrdinal detail = detail.messages.length := by
  have last := congrArg List.getLast? wellStored.ordinals
  rw [List.getLast?_map, List.getLast?_range'] at last
  unfold lastOrdinal
  cases isLast : detail.messages.getLast? with
  | none =>
    rw [List.getLast?_eq_none_iff.mp isLast]
    rfl
  | some message =>
    rw [isLast] at last
    have nonempty : detail.messages.length ≠ 0 := fun isNil => by
      rw [List.length_eq_zero_iff.mp isNil] at isLast
      cases isLast
    simp only [Option.map_some, nonempty, if_false, Option.some.injEq] at last
    show message.ordinal = _
    omega

/-- Asking for what comes after some of the messages shown leaves out only messages that are shown. -/
theorem WellStored.merge (wellStored : WellStored thread whole) (isPrefix : shown <+: whole) {after : Nat} (known : after ≤ shown.length) :
    shown ++ (whole.filter fun message => decide (after < message.ordinal)).filter
      (fun message => !(shown.map Message.id).contains message.id) = whole := by
  obtain ⟨rest, rfl⟩ := isPrefix
  have ordinals := wellStored.ordinals
  have ids := wellStored.ids
  rw [List.map_append] at ordinals ids
  obtain ⟨-, -, disjoint⟩ := List.nodup_append.mp ids
  rw [List.length_append, ← List.range'_append_1] at ordinals
  have behind := (List.append_inj ordinals (by simp)).2
  refine congrArg _ ?_
  rw [List.filter_filter, List.filter_append]
  have none : shown.filter (fun message => !(shown.map Message.id).contains message.id && decide (after < message.ordinal)) = [] := by
    refine List.filter_eq_nil_iff.mpr fun message listed => ?_
    have isShown : (shown.map Message.id).contains message.id = true := List.contains_iff_mem.mpr (List.mem_map_of_mem listed)
    rw [isShown]
    exact Bool.false_ne_true
  have all : rest.filter (fun message => !(shown.map Message.id).contains message.id && decide (after < message.ordinal)) = rest := by
    refine List.filter_eq_self.mpr fun message listed => ?_
    have notShown : message.id ∉ shown.map Message.id := fun isShown =>
      disjoint _ isShown _ (List.mem_map_of_mem listed) rfl
    have later : message.ordinal ∈ List.range' (1 + shown.length) rest.length := behind ▸ List.mem_map_of_mem listed
    obtain ⟨_, later⟩ := List.mem_range'_1.mp later
    simp only [Bool.and_eq_true, Bool.not_eq_true', decide_eq_true_eq]
    constructor
    · exact Bool.eq_false_iff.mpr fun isShown => notShown (List.contains_iff_mem.mp isShown)
    · omega
  rw [none, all, List.nil_append]

theorem WellStored.filter_zero (wellStored : WellStored thread whole) :
    (whole.filter fun message => decide (0 < message.ordinal)) = whole := by
  refine List.filter_eq_self.mpr fun message listed => ?_
  have inRange : message.ordinal ∈ List.range' 1 whole.length := wellStored.ordinals ▸ List.mem_map_of_mem listed
  exact decide_eq_true (List.mem_range'_1.mp inRange).1

/-! ## The invariant -/

/-- The details the browser has: the one set last, the one rendered last, and `detailRef`. -/
def Workspace.known (w : Workspace) : List ThreadDetail :=
  w.screen.detail.toList ++ w.rendered.detail.toList ++ w.detailRef.toList

/-- Of a request that is the newest one of the open view. -/
structure NewestOk (w : Workspace) (request : Request) : Prop where
  open_ : w.screen.view = .thread request.id
  load : request.isRefresh = false → request.after = none
  after : ∀ after, request.after = some after → after = 0 ∨ ∃ detail, w.screen.detail = some detail ∧ after ≤ detail.messages.length
  /-- What the server read has all that is known of the conversation. -/
  response : ∀ loaded, request.response = some loaded →
    ∃ whole, loaded = threadDetail whole request.id request.after ∧ whole <+: w.stored request.id ∧
      ∀ detail ∈ w.known, detail.id = request.id → detail.messages <+: whole

structure BrowserInv (w : Workspace) : Prop where
  stored : ∀ thread, WellStored thread (w.stored thread)
  known : ∀ detail ∈ w.known, detail.messages <+: w.stored detail.id
  newest : ∀ detail, w.screen.detail = some detail →
    w.screen.view = .thread detail.id ∧ ∀ older ∈ w.known, older.id = detail.id → older.messages <+: detail.messages
  numbers : (w.requests.map Request.number).Nodup
  issued : ∀ request ∈ w.requests, request.number ≤ w.detailRequest ∧ request.view ≤ w.screen.number
  requests : ∀ request ∈ w.requests, request.view = w.screen.number → request.number = w.detailRequest → NewestOk w request
  rendered : w.rendered.number ≤ w.screen.number ∧ ∀ detail, w.rendered.detail = some detail → w.rendered.view = .thread detail.id
  same : w.rendered.number = w.screen.number →
    ∀ detail, w.rendered.detail = some detail → ∃ newer, w.screen.detail = some newer ∧ newer.id = detail.id

theorem IsInitial.inv (initial : IsInitial w) : BrowserInv w where
  stored := initial.stored
  known := by simp [Workspace.known, initial.screen, initial.rendered, initial.detailRef]
  newest := by simp [initial.screen]
  numbers := by simp [initial.requests]
  issued := by simp [initial.requests]
  requests := by simp [initial.requests]
  rendered := by simp [initial.rendered, initial.screen]
  same := by simp [initial.rendered, initial.screen]

/-- A response that all requests of the view may rely on stays one when less is known and more is stored. -/
theorem NewestOk.congr (ok : NewestOk w request) (view : next.screen.view = w.screen.view) (detail : next.screen.detail = w.screen.detail)
    (stored : w.stored request.id <+: next.stored request.id) (known : ∀ detail ∈ next.known, detail ∈ w.known) : NewestOk next request where
  open_ := view.trans ok.open_
  load := ok.load
  after := detail ▸ ok.after
  response := by
    intro loaded isLoaded
    obtain ⟨whole, isWhole, isPrefix, covers⟩ := ok.response loaded isLoaded
    exact ⟨whole, isWhole, isPrefix.trans stored, fun detail listed => covers detail (known detail listed)⟩

theorem BrowserInv.store (invariant : BrowserInv w) (thread : ThreadId) {id : Nat} (fresh : id ∉ (w.stored thread).map Message.id) :
    BrowserInv { w with stored := fun other => if other = thread then w.stored thread ++ [⟨id, (w.stored thread).length + 1, thread⟩] else w.stored other } := by
  have grows (other : ThreadId) : w.stored other <+:
      if other = thread then w.stored thread ++ [⟨id, (w.stored thread).length + 1, thread⟩] else w.stored other := by
    split
    next same => exact same ▸ List.prefix_append _ _
    next => exact List.prefix_rfl
  constructor
  · intro other
    show WellStored other (if other = thread then _ else _)
    split
    next same => exact same ▸ (invariant.stored thread).concat fresh
    next => exact invariant.stored other
  · exact fun detail listed => (invariant.known detail listed).trans (grows _)
  · exact invariant.newest
  · exact invariant.numbers
  · exact invariant.issued
  · exact fun request listed isView isNewest =>
      (invariant.requests request listed isView isNewest).congr rfl rfl (grows _) fun _ listed => listed
  · exact invariant.rendered
  · exact invariant.same

theorem BrowserInv.render (invariant : BrowserInv w) : BrowserInv { w with rendered := w.screen } := by
  have known : ∀ detail ∈ Workspace.known { w with rendered := w.screen }, detail ∈ w.known := by
    intro detail listed
    simp only [Workspace.known, List.mem_append] at listed ⊢
    tauto
  constructor
  · exact invariant.stored
  · exact fun detail listed => invariant.known detail (known detail listed)
  · exact fun detail isDetail => ⟨(invariant.newest detail isDetail).1, fun older listed =>
      (invariant.newest detail isDetail).2 older (known older listed)⟩
  · exact invariant.numbers
  · exact invariant.issued
  · exact fun request listed isView isNewest =>
      (invariant.requests request listed isView isNewest).congr rfl rfl List.prefix_rfl known
  · exact ⟨Nat.le_refl _, fun detail isDetail => (invariant.newest detail isDetail).1⟩
  · exact fun _ detail isDetail => ⟨detail, isDetail, rfl⟩

theorem BrowserInv.effect (invariant : BrowserInv w) : BrowserInv { w with detailRef := w.rendered.detail } := by
  have known : ∀ detail ∈ Workspace.known { w with detailRef := w.rendered.detail }, detail ∈ w.known := by
    intro detail listed
    simp only [Workspace.known, List.mem_append] at listed ⊢
    tauto
  constructor
  · exact invariant.stored
  · exact fun detail listed => invariant.known detail (known detail listed)
  · exact fun detail isDetail => ⟨(invariant.newest detail isDetail).1, fun older listed =>
      (invariant.newest detail isDetail).2 older (known older listed)⟩
  · exact invariant.numbers
  · exact invariant.issued
  · exact fun request listed isView isNewest =>
      (invariant.requests request listed isView isNewest).congr rfl rfl List.prefix_rfl known
  · exact invariant.rendered
  · exact invariant.same

theorem BrowserInv.enter (invariant : BrowserInv w) (next : View) : BrowserInv (w.enter next) := by
  have known : ∀ detail ∈ (w.enter next).known, detail ∈ w.known := by
    intro detail listed
    simp only [Workspace.known, Workspace.enter, Option.toList_none, List.nil_append, List.mem_append] at listed ⊢
    tauto
  constructor
  · exact invariant.stored
  · exact fun detail listed => invariant.known detail (known detail listed)
  · exact fun _ isDetail => nomatch isDetail
  · exact invariant.numbers
  · exact fun request listed => ⟨(invariant.issued request listed).1, Nat.le_succ_of_le (invariant.issued request listed).2⟩
  · intro request listed isView _
    have before := (invariant.issued request listed).2
    simp only [Workspace.enter] at isView
    omega
  · exact ⟨Nat.le_succ_of_le invariant.rendered.1, invariant.rendered.2⟩
  · intro same
    have before := invariant.rendered.1
    simp only [Workspace.enter] at same
    omega

/-- A new request is the newest one. -/
theorem BrowserInv.issue (invariant : BrowserInv w) {isRefresh : Bool} (isOpen : w.screen.view = .thread id)
    (load : isRefresh = false → after = none)
    (isAfter : ∀ count, after = some count → count = 0 ∨ ∃ detail, w.screen.detail = some detail ∧ count ≤ detail.messages.length) :
    BrowserInv (w.request id after isRefresh) := by
  constructor
  · exact invariant.stored
  · exact invariant.known
  · exact invariant.newest
  · simp only [Workspace.request, List.map_append, List.map_cons, List.map_nil]
    refine invariant.numbers.append (List.nodup_singleton _) (List.disjoint_singleton.mpr fun listed => ?_)
    obtain ⟨request, inRequests, isNumber⟩ := List.mem_map.mp listed
    have before := (invariant.issued request inRequests).1
    omega
  · intro request listed
    rcases List.mem_append.mp listed with before | isNew
    · exact ⟨Nat.le_succ_of_le (invariant.issued request before).1, (invariant.issued request before).2⟩
    · rw [List.mem_singleton.mp isNew]
      exact ⟨Nat.le_refl _, Nat.le_refl _⟩
  · intro request listed _ isNewest
    rcases List.mem_append.mp listed with before | isNew
    · have older := (invariant.issued request before).1
      simp only [Workspace.request] at isNewest
      omega
    · rw [List.mem_singleton.mp isNew]
      exact ⟨isOpen, load, isAfter, fun _ isLoaded => nomatch isLoaded⟩
  · exact invariant.rendered
  · exact invariant.same

theorem BrowserInv.serve (invariant : BrowserInv w) {index : Nat} (found : w.requests[index]? = some request) :
    BrowserInv { w with
      requests := w.requests.set index { request with response := some (threadDetail (w.stored request.id) request.id request.after) } } := by
  have listed := List.mem_of_getElem? found
  constructor
  · exact invariant.stored
  · exact invariant.known
  · exact invariant.newest
  · show ((w.requests.set index _).map Request.number).Nodup
    rw [map_key_set found (by rfl)]
    exact invariant.numbers
  · intro other inRequests
    rcases List.mem_or_eq_of_mem_set inRequests with kept | rfl
    · exact invariant.issued other kept
    · exact invariant.issued request listed
  · intro other inRequests isView isNewest
    rcases List.mem_or_eq_of_mem_set inRequests with kept | rfl
    · exact (invariant.requests other kept isView isNewest).congr rfl rfl List.prefix_rfl fun _ listed => listed
    · have ok := invariant.requests request listed isView isNewest
      refine ⟨ok.open_, ok.load, ok.after, ?_⟩
      rintro loaded ⟨⟩
      refine ⟨_, rfl, List.prefix_rfl, fun detail inKnown same => ?_⟩
      exact same ▸ invariant.known detail inKnown
  · exact invariant.rendered
  · exact invariant.same

theorem BrowserInv.erase (invariant : BrowserInv w) (index : Nat) : BrowserInv { w with requests := w.requests.eraseIdx index } := by
  have sublist := List.eraseIdx_sublist w.requests index
  constructor
  · exact invariant.stored
  · exact invariant.known
  · exact invariant.newest
  · exact invariant.numbers.sublist (sublist.map _)
  · exact fun request listed => invariant.issued request (sublist.subset listed)
  · exact fun request listed isView isNewest =>
      (invariant.requests request (sublist.subset listed) isView isNewest).congr rfl rfl List.prefix_rfl fun _ listed => listed
  · exact invariant.rendered
  · exact invariant.same

/-- What arrives for the newest request of the view is the conversation as the server read it. -/
theorem NewestOk.receives (ok : NewestOk w request) (newest : ∀ detail, w.screen.detail = some detail →
      w.screen.view = .thread detail.id ∧ ∀ older ∈ w.known, older.id = detail.id → older.messages <+: detail.messages)
    (stored : WellStored request.id (w.stored request.id)) (isLoaded : request.response = some loaded) :
    ∃ whole, whole <+: w.stored request.id ∧ (∀ detail ∈ w.known, detail.id = request.id → detail.messages <+: whole) ∧
      (if request.isRefresh then mergeDetail w.screen.detail loaded request.after.isSome else loaded) = ⟨request.id, whole⟩ := by
  obtain ⟨whole, rfl, isPrefix, covers⟩ := ok.response loaded isLoaded
  have wellStored := stored.start isPrefix
  refine ⟨whole, isPrefix, covers, ?_⟩
  cases isAfter : request.after with
  | none =>
    have isWhole : mergeDetail w.screen.detail (threadDetail whole request.id none) false = ⟨request.id, whole⟩ := by
      unfold mergeDetail
      split <;> rfl
    split
    · exact isWhole
    · rfl
  | some after =>
    have isRefresh : request.isRefresh = true := by
      by_contra isLoad
      rw [ok.load (by simpa using isLoad)] at isAfter
      cases isAfter
    rw [if_pos isRefresh]
    cases isShown : w.screen.detail with
    | none =>
      have isZero : after = 0 := by
        rcases ok.after after isAfter with isZero | ⟨detail, isDetail, -⟩
        · exact isZero
        · rw [isShown] at isDetail
          cases isDetail
      subst isZero
      simp only [mergeDetail, threadDetail, wellStored.filter_zero]
    | some shown =>
      have isOpen := (newest shown isShown).1
      rw [ok.open_, View.thread.injEq] at isOpen
      have inKnown : shown ∈ w.known := by simp [Workspace.known, isShown]
      have few : after ≤ shown.messages.length := by
        rcases ok.after after isAfter with rfl | ⟨detail, isDetail, few⟩
        · exact Nat.zero_le _
        · rw [isShown] at isDetail
          cases isDetail
          exact few
      simp only [mergeDetail, threadDetail, Option.isSome_some, isOpen, Bool.not_true, bne_self_eq_false, Bool.or_self, Bool.false_eq_true,
        if_false, ThreadDetail.mk.injEq, true_and]
      exact wellStored.merge (covers shown inKnown isOpen.symm) few

/-- A response is shown only where it was made for the newest request of the view that is open. -/
theorem BrowserInv.receive (invariant : BrowserInv w) {index : Nat} (found : w.requests[index]? = some request)
    (isLoaded : request.response = some loaded) : BrowserInv (Workspace.receive { w with requests := w.requests.eraseIdx index } request loaded) := by
  have erased := invariant.erase index
  unfold Workspace.receive
  split
  next => exact erased
  next isCurrent =>
    have isView : request.view = w.screen.number := by
      by_contra other
      exact isCurrent (.inl (Ne.symm other))
    have isNewest : request.number = w.detailRequest := by
      by_contra other
      exact isCurrent (.inr (Ne.symm other))
    have listed := List.mem_of_getElem? found
    have ok := invariant.requests request listed isView isNewest
    obtain ⟨whole, isPrefix, covers, isDetail⟩ := ok.receives invariant.newest (invariant.stored request.id) isLoaded
    simp only [isDetail]
    have known : ∀ detail ∈ Workspace.known { w with
        requests := w.requests.eraseIdx index, screen := { w.screen with detail := some ⟨request.id, whole⟩ } },
          detail = ⟨request.id, whole⟩ ∨ detail ∈ w.known := by
      intro detail listed
      simp only [Workspace.known, Option.toList_some, List.mem_append, List.mem_singleton] at listed ⊢
      tauto
    constructor
    · exact invariant.stored
    · intro detail listed
      rcases known detail listed with rfl | before
      · exact isPrefix
      · exact invariant.known detail before
    · rintro detail ⟨⟩
      refine ⟨ok.open_, fun older listed same => ?_⟩
      rcases known older listed with rfl | before
      · exact List.prefix_rfl
      · exact covers older before same
    · exact erased.numbers
    · exact erased.issued
    · -- No other request has its number.
      intro other inRequests _ isNumber
      exact absurd (isNumber.trans isNewest.symm) (key_ne_of_mem_eraseIdx invariant.numbers found inRequests)
    · exact invariant.rendered
    · intro same detail isRendered
      obtain ⟨newer, isShown, sameId⟩ := invariant.same same detail isRendered
      refine ⟨_, rfl, ?_⟩
      have isOpen := (invariant.newest newer isShown).1
      rw [ok.open_, View.thread.injEq] at isOpen
      exact isOpen.trans sameId

/-! ## Steps -/

/-- A refresh that is in time takes for shown what is shown. -/
theorem BrowserInv.refreshDetail (invariant : BrowserInv w)
    (fresh : (w.screen.view != .thread id || w.screen.detail.isSome || (w.after id).getD 0 == 0) = true) : BrowserInv (w.refreshDetail id) := by
  unfold Workspace.refreshDetail
  split
  next isOpen =>
    refine invariant.issue isOpen (fun isLoad => nomatch isLoad) fun count isAfter => ?_
    simp only [isOpen, bne_self_eq_false, Bool.false_or, Bool.or_eq_true, isAfter, Option.getD_some, beq_iff_eq] at fresh
    rcases fresh with isShown | isZero
    · obtain ⟨shown, isShown⟩ := Option.isSome_iff_exists.mp isShown
      obtain ⟨isView, newest⟩ := invariant.newest shown isShown
      rw [isOpen, View.thread.injEq] at isView
      obtain ⟨known, isRef, rfl⟩ := Option.map_eq_some_iff.mp isAfter
      obtain ⟨isRef, same⟩ := Option.filter_eq_some_iff.mp isRef
      have inKnown : known ∈ w.known := by simp [Workspace.known, isRef]
      have sameId : known.id = id := by simpa using same
      have wellStored := (invariant.stored known.id).start (invariant.known known inKnown)
      rw [wellStored.lastOrdinal_eq]
      exact .inr ⟨shown, isShown, (newest known inKnown (sameId.trans isView)).length_le⟩
    · exact .inl isZero
  next => exact invariant

theorem BrowserInv.openView (invariant : BrowserInv w) (next : View) : BrowserInv (w.openView next) := by
  cases next with
  | thread id => exact (invariant.enter (.thread id)).issue rfl (fun _ => rfl) fun _ isAfter => nomatch isAfter
  | new mode => exact invariant.enter (.new mode)

theorem BrowserInv.failed (invariant : BrowserInv w) (request : Request) (failure : Failure) : BrowserInv (w.failed request failure) := by
  unfold Workspace.failed
  split
  next => exact invariant
  next =>
    split
    next => exact invariant
    next => exact invariant.enter (.new none)

/-- Which turns are being sent says nothing about what is shown. -/
theorem BrowserInv.setSends (invariant : BrowserInv w) (sends : List View) : BrowserInv { w with sends } where
  stored := invariant.stored
  known := invariant.known
  newest := invariant.newest
  numbers := invariant.numbers
  issued := invariant.issued
  requests := fun request listed isView isNewest =>
    (invariant.requests request listed isView isNewest).congr rfl rfl List.prefix_rfl fun _ listed => listed
  rendered := invariant.rendered
  same := invariant.same

theorem browserInv_step (invariant : BrowserInv w) (fresh : InTime w action) (taken : browserStep w action = some next) :
    BrowserInv next := by
  unfold InTime inTime at fresh
  cases action with
  | store thread id =>
    simp only [browserStep] at taken
    split at taken
    next => cases taken
    next isNew =>
      cases taken
      refine invariant.store thread fun listed => isNew ?_
      obtain ⟨message, inStored, rfl⟩ := List.mem_map.mp listed
      exact List.any_eq_true.mpr ⟨message, inStored, beq_self_eq_true _⟩
  | openView next =>
    cases taken
    exact invariant.openView next
  | refreshDetail id =>
    cases taken
    exact invariant.refreshDetail fresh
  | render =>
    cases taken
    exact invariant.render
  | effect =>
    cases taken
    exact invariant.effect
  | serve index =>
    simp only [browserStep] at taken
    split at taken
    next request found =>
      split at taken
      next => cases taken
      next =>
        cases taken
        exact invariant.serve found
    next => cases taken
  | arrive index =>
    simp only [browserStep] at taken
    split at taken
    next request found =>
      obtain ⟨loaded, isLoaded, rfl⟩ := Option.map_eq_some_iff.mp taken
      exact invariant.receive found isLoaded
    next => cases taken
  | fail index failure =>
    simp only [browserStep] at taken
    split at taken
    next request _ =>
      cases taken
      exact (invariant.erase index).failed request failure
    next => cases taken
  | send =>
    cases taken
    exact invariant.setSends _
  | sent index thread =>
    simp only [browserStep] at taken
    split at taken
    next origin found =>
      have left := invariant.setSends (w.sends.eraseIdx index)
      split at taken
      next =>
        cases taken
        exact left
      next =>
        cases origin with
        | thread id =>
          simp only [refreshStart, found] at fresh
          obtain ⟨-, taken⟩ := Option.ite_none_right_eq_some.mp taken
          cases taken
          exact left.refreshDetail fresh
        | new mode =>
          simp only [refreshStart, found] at fresh
          cases taken
          exact (left.enter (.thread thread)).refreshDetail fresh
    next => cases taken
  | refused index conflict =>
    simp only [browserStep] at taken
    split at taken
    next origin found =>
      have left := invariant.setSends (w.sends.eraseIdx index)
      cases origin with
      | thread id =>
        simp only [refreshStart, found] at fresh
        cases taken
        split
        · exact left.refreshDetail fresh
        · exact left
      | new mode =>
        cases taken
        exact left
    next => cases taken

theorem browserInv (reachable : browser.ReachableVia InTime w) : BrowserInv w :=
  Machine.invariant BrowserInv (fun _ initial => IsInitial.inv initial)
    (fun _ _ _ invariant fresh taken => browserInv_step invariant fresh taken) reachable

@[simp] theorem rendered_openView (w : Workspace) (next : View) : (w.openView next).rendered = w.rendered := by
  cases next <;> rfl

@[simp] theorem rendered_refreshDetail (w : Workspace) (id : ThreadId) : (w.refreshDetail id).rendered = w.rendered := by
  unfold Workspace.refreshDetail
  split <;> rfl

@[simp] theorem rendered_receive (w : Workspace) (request : Request) (loaded : ThreadDetail) :
    (w.receive request loaded).rendered = w.rendered := by
  unfold Workspace.receive
  split <;> rfl

@[simp] theorem rendered_failed (w : Workspace) (request : Request) (failure : Failure) : (w.failed request failure).rendered = w.rendered := by
  unfold Workspace.failed
  split
  · rfl
  · split <;> rfl

/-- No step but a render changes what is rendered. -/
theorem rendered_step (taken : browserStep w action = some next) : next.rendered = w.rendered ∨ next.rendered = w.screen := by
  cases action with
  | openView | refreshDetail =>
    cases taken
    simp
  | effect | send =>
    cases taken
    exact .inl rfl
  | render =>
    cases taken
    exact .inr rfl
  | store thread id =>
    simp only [browserStep] at taken
    split at taken <;> cases taken
    exact .inl rfl
  | serve index =>
    simp only [browserStep] at taken
    split at taken
    · split at taken <;> cases taken
      exact .inl rfl
    · cases taken
  | arrive index =>
    simp only [browserStep] at taken
    split at taken
    · obtain ⟨loaded, -, rfl⟩ := Option.map_eq_some_iff.mp taken
      simp
    · cases taken
  | fail index failure =>
    simp only [browserStep] at taken
    split at taken <;> cases taken
    simp
  | sent index thread =>
    simp only [browserStep] at taken
    split at taken
    · split at taken
      · cases taken
        exact .inl rfl
      · split at taken
        · obtain ⟨-, taken⟩ := Option.ite_none_right_eq_some.mp taken
          cases taken
          simp
        · cases taken
          simp [Workspace.enter]
    · cases taken
  | refused index conflict =>
    simp only [browserStep] at taken
    split at taken
    · split at taken
      · cases taken
        split <;> simp
      · cases taken
        exact .inl rfl
    · cases taken

/-! ## What is shown -/

/-- A conversation's messages from the first one on, without gaps. -/
structure ShowsPrefix (w : Workspace) (detail : ThreadDetail) : Prop where
  open_ : w.rendered.view = .thread detail.id
  isPrefix : detail.messages <+: w.stored detail.id
  ordinals : detail.messages.map Message.ordinal = List.range' 1 detail.messages.length
  own : ∀ message ∈ detail.messages, message.threadId = detail.id

end

/-- The page of a new conversation, on an empty server. -/
def startPage : Workspace where
  stored := fun _ => []
  screen := ⟨.new (some .translate), 0, none⟩
  rendered := ⟨.new (some .translate), 0, none⟩
  detailRef := none
  detailRequest := 0
  requests := []
  sends := []

theorem startPage_initial : IsInitial startPage :=
  ⟨fun _ => ⟨rfl, fun _ listed => (nomatch listed), List.nodup_nil⟩, rfl, rfl, rfl, rfl⟩

end Oveo.Browser
