import Oveo.Lifecycle.Safety

/-! # Idempotent submission

Submissions, handoffs and retries that carry one key agree on one generation, and a call that
loses leaves nothing behind: whatever it inserted was rolled back, and its staged file is gone. -/

namespace Oveo.Lifecycle

open Oveo.Lib Oveo.Docx Oveo.Protocol Oveo.Store Oveo.Work

section

variable {settings : Settings} {s : System}

def Call.sameKey (first second : Call) : Prop :=
  first.requesterId = second.requesterId ∧ first.clientRequestId = second.clientRequestId

/-- Rows of one key are one row. -/
theorem SystemInv.soleRow (invariant : SystemInv s) {first second : Generation} (firstMember : first ∈ s.db.generations)
    (secondMember : second ∈ s.db.generations) (same : SameKey first second) : first = second := by
  have symmetric : Std.Symm fun first second : Generation => ¬ SameKey first second :=
    ⟨fun _ _ apart same => apart ⟨same.1.symm, same.2.symm⟩⟩
  exact Classical.byContradiction fun different =>
    invariant.db.keys.forall firstMember secondMember different same

theorem sameKey_rows {first second : Call} {firstRow secondRow : Generation} (same : first.sameKey second)
    (firstKey : first.hasKey firstRow) (secondKey : second.hasKey secondRow) : SameKey firstRow secondRow :=
  ⟨firstKey.1.trans (same.1.trans secondKey.1.symm), firstKey.2.trans (same.2.trans secondKey.2.symm)⟩

theorem SystemInv.returned_agree (invariant : SystemInv s) {first second : Call} (firstMember : first ∈ s.calls)
    (secondMember : second ∈ s.calls) (same : first.sameKey second) {firstId secondId : Id}
    (firstReturned : first.phase = .returned firstId) (secondReturned : second.phase = .returned secondId) :
    firstId = secondId := by
  have firstInv := (invariant.calls first firstMember).phase
  have secondInv := (invariant.calls second secondMember).phase
  rw [firstReturned] at firstInv
  rw [secondReturned] at secondInv
  obtain ⟨firstRow, firstRowMember, rfl, firstKey⟩ := firstInv
  obtain ⟨secondRow, secondRowMember, rfl, secondKey⟩ := secondInv
  rw [invariant.soleRow firstRowMember secondRowMember (sameKey_rows same firstKey secondKey)]

/-- Did the call commit its rows? -/
def Call.committedRows (s : System) (call : Call) : Prop := call.ids.generationId ∈ generationIds s.db

/-- Of the calls with one key at most one has committed rows. -/
theorem SystemInv.soleCommitted (invariant : SystemInv s) {first second : Call} (firstMember : first ∈ s.calls)
    (secondMember : second ∈ s.calls) (same : first.sameKey second) (firstRows : first.committedRows s)
    (secondRows : second.committedRows s) : first = second := by
  obtain ⟨firstRow, firstRowMember, firstId⟩ := List.mem_map.mp firstRows
  obtain ⟨secondRow, secondRowMember, secondId⟩ := List.mem_map.mp secondRows
  have firstKey := (invariant.calls first firstMember).ownKey firstRow firstRowMember firstId
  have secondKey := (invariant.calls second secondMember).ownKey secondRow secondRowMember secondId
  have sameRow := invariant.soleRow firstRowMember secondRowMember (sameKey_rows same firstKey secondKey)
  refine Classical.byContradiction fun different => ?_
  refine invariant.disjoint firstMember secondMember different (a := first.ids.generationId) ?_ ?_
  · simp [SubmissionIds.toList]
  · simp [SubmissionIds.toList, ← firstId, ← secondId, sameRow]

/-- Whatever row of its own a call committed came with its generation row. -/
theorem CallInv.committed_of_row {call : Call} (invariant : CallInv s call)
    (row : call.ids.threadId ∈ threadIds s.db ∨ call.ids.messageId ∈ messageIds s.db ∨
      call.ids.attachmentId ∈ attachmentIds s.db) : call.committedRows s := by
  refine Classical.byContradiction fun absent => ?_
  obtain ⟨thread, message, attachment⟩ := invariant.allOrNothing absent
  rcases row with present | present | present
  · exact thread present
  · exact message present
  · exact attachment present

/-- A call that answered with another generation, or raised an error of its own, lost. -/
def Call.lost (call : Call) : Prop :=
  (∃ generationId, call.phase = .returned generationId ∧ generationId ≠ call.ids.generationId) ∨
    ∃ error, call.phase = .raised error ∧ error ≠ .interrupted

theorem CallInv.lost_rowless {call : Call} (invariant : CallInv s call) (lost : call.lost) :
    ¬ call.committedRows s := by
  refine invariant.noRows ?_
  rcases lost with ⟨generationId, returned, other⟩ | ⟨error, raised, other⟩
  · simp [returned, Phase.mayHaveRows, other]
  · rw [raised]
    cases error <;> first | rfl | exact absurd rfl other

/-- Nothing a call would have inserted or stored is there. -/
structure LeftNothing (s : System) (call : Call) : Prop where
  generation : call.ids.generationId ∉ generationIds s.db
  thread : call.ids.threadId ∉ threadIds s.db
  message : call.ids.messageId ∉ messageIds s.db
  attachment : call.ids.attachmentId ∉ attachmentIds s.db
  file : call.ids.attachmentId ∉ s.files

theorem CallInv.leftNothing {call : Call} (invariant : CallInv s call) (finished : call.phase.isFinished = true)
    (rowless : ¬ call.committedRows s) : LeftNothing s call :=
  have ⟨thread, message, attachment⟩ := invariant.allOrNothing rowless
  ⟨rowless, thread, message, attachment, fun present => rowless (invariant.file finished present)⟩

theorem Call.lost_finished {call : Call} (lost : call.lost) : call.phase.isFinished = true := by
  rcases lost with ⟨generationId, returned, -⟩ | ⟨error, raised, -⟩
  · rw [returned]; rfl
  · rw [raised]; rfl

/-! ## Main result -/

def Call.carries (call : Call) (requesterId clientRequestId : Id) : Bool :=
  call.requesterId == requesterId && call.clientRequestId == clientRequestId

theorem sameKey_of_carries {requesterId clientRequestId : Id} {first second : Call}
    (left : first.carries requesterId clientRequestId = true)
    (right : second.carries requesterId clientRequestId = true) : first.sameKey second := by
  simp only [Call.carries, Bool.and_eq_true, beq_iff_eq] at left right
  exact ⟨left.1.trans right.1.symm, left.2.trans right.2.symm⟩

/-- A test no two entries of a list pass together is passed by at most one. -/
theorem length_filter_le_one {α : Type} {test : α → Bool} {entries : List α}
    (sole : entries.Pairwise fun first second => ¬ (test first = true ∧ test second = true)) :
    (entries.filter test).length ≤ 1 := by
  induction entries with
  | nil => simp
  | cons entry entries inductionHypothesis =>
    obtain ⟨head, tail⟩ := List.pairwise_cons.mp sole
    cases passed : test entry with
    | false => simpa [passed] using inductionHypothesis tail
    | true =>
      have others : entries.filter test = [] :=
        List.filter_eq_nil_iff.mpr fun other member otherPassed => head other member ⟨passed, otherPassed⟩
      simp [passed, others]

/-- What holds of all calls that carry one key. -/
structure Idempotent (s : System) (requesterId clientRequestId : Id) : Prop where
  returned : ∀ first ∈ s.calls, ∀ second ∈ s.calls, first.carries requesterId clientRequestId = true →
    second.carries requesterId clientRequestId = true → ∀ firstId secondId, first.phase = .returned firstId →
    second.phase = .returned secondId → firstId = secondId
  generations : (s.db.generations.filter fun row =>
    row.requesterId == requesterId && row.clientRequestId == clientRequestId).length ≤ 1
  messages : (s.calls.filter fun call =>
    call.carries requesterId clientRequestId && (messageIds s.db).contains call.ids.messageId).length ≤ 1
  attachments : (s.calls.filter fun call =>
    call.carries requesterId clientRequestId && (attachmentIds s.db).contains call.ids.attachmentId).length ≤ 1
  losers : ∀ call ∈ s.calls, call.carries requesterId clientRequestId = true →
    call.lost ∨ call.phase.isFinished = true ∧ call.ids.generationId ∉ generationIds s.db → LeftNothing s call

/-- Of the calls that carry one key at most one has a row `owned` picks. -/
theorem SystemInv.soleOwner (invariant : SystemInv s) (requesterId clientRequestId : Id) {owned : Call → Bool}
    (committed : ∀ call ∈ s.calls, owned call = true → call.committedRows s) :
    (s.calls.filter fun call => call.carries requesterId clientRequestId && owned call).length ≤ 1 := by
  refine length_filter_le_one (invariant.apart.imp_of_mem ?_)
  rintro first second firstMember secondMember apart ⟨firstOwner, secondOwner⟩
  simp only [Bool.and_eq_true] at firstOwner secondOwner
  have same := sameKey_of_carries firstOwner.1 secondOwner.1
  obtain rfl := invariant.soleCommitted firstMember secondMember same
    (committed first firstMember firstOwner.2) (committed second secondMember secondOwner.2)
  exact apart (a := first.ids.generationId) (by simp [SubmissionIds.toList]) (by simp [SubmissionIds.toList])

theorem submission_idempotent (reachable : (machine settings).Reachable s) (requesterId clientRequestId : Id) :
    Idempotent s requesterId clientRequestId := by
  have invariant := reachable_systemInv reachable
  constructor
  case returned =>
    intro first firstMember second secondMember firstCarries secondCarries firstId secondId firstReturned secondReturned
    exact invariant.returned_agree firstMember secondMember (sameKey_of_carries firstCarries secondCarries)
      firstReturned secondReturned
  case generations =>
    refine length_filter_le_one (invariant.db.keys.imp ?_)
    rintro first second apart ⟨firstKey, secondKey⟩
    simp only [Bool.and_eq_true, beq_iff_eq] at firstKey secondKey
    exact apart ⟨firstKey.1.trans secondKey.1.symm, firstKey.2.trans secondKey.2.symm⟩
  case messages =>
    refine invariant.soleOwner requesterId clientRequestId fun call member owned => ?_
    exact (invariant.calls call member).committed_of_row (.inr (.inl (by simpa using owned)))
  case attachments =>
    refine invariant.soleOwner requesterId clientRequestId fun call member owned => ?_
    exact (invariant.calls call member).committed_of_row (.inr (.inr (by simpa using owned)))
  case losers =>
    intro call member _ lost
    have callInv := invariant.calls call member
    rcases lost with lost | ⟨finished, rowless⟩
    · exact callInv.leftNothing (Call.lost_finished lost) (callInv.lost_rowless lost)
    · exact callInv.leftNothing finished rowless

end

/-- The same request posted again before the first post has inserted anything. -/
def repeatedCall : Call :=
  { firstCall with ids := { generationId := 11, threadId := 12, messageId := 13, attachmentId := 14 } }

/-- Both posts reach their transaction; the second loses. -/
def racingPosts : List Action :=
  [.enter firstCall, .enter repeatedCall] ++ List.replicate 5 (.advance 1 0 .applied) ++
    List.replicate 5 (.advance 11 0 .applied) ++ [.advance 1 0 .applied, .advance 11 0 .applied,
      .advance 1 0 .applied, .advance 11 0 .applied, .advance 1 0 .applied]

theorem submission_idempotent_racingPosts :
    ∃ s, (machine {}).run System.empty racingPosts = some s ∧ generationIds s.db = [1] ∧ Idempotent s 0 0 := by
  obtain ⟨s, ran⟩ := Option.isSome_iff_exists.mp
    (by decide : ((machine {}).run System.empty racingPosts).isSome = true)
  refine ⟨s, ran, ?_, submission_idempotent (Machine.reachable_of_run (.init rfl) ran) 0 0⟩
  have ids : ((machine {}).run System.empty racingPosts).map (fun s => generationIds s.db) = some [1] := by decide
  rw [ran] at ids
  exact Option.some.inj ids

end Oveo.Lifecycle
