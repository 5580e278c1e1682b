import Oveo.Context.Instructions
import Oveo.Lib.Window

/-! # The chunks partition what the users wrote

Where the planning of a handoff succeeds, its chunks are the requests of consecutive runs of user
messages.  The cursor that bounds the next request from below is the last ordinal of the run before. -/

namespace Oveo.Context

open Oveo.Lib Oveo.Docx Oveo.Protocol Oveo.Store Oveo.Work Oveo.Lifecycle

/-! ## Runs of user messages -/

/-- The messages of a thread, in order. -/
def threadMessages (db : Db) (threadId : Id) : List Message :=
  byOrdinal (db.messages.filter fun message => message.threadId == threadId)

/-- The unique index on the ordinals of a thread. -/
def OrdinalsUnique (db : Db) (threadId : Id) : Prop := ((threadMessages db threadId).map Message.ordinal).Nodup

/-- In every reachable state the ordinals of a thread increase. -/
theorem ordinalsUnique_of_inv {db : Db} (ordinals : OrdinalsInv db) (threadId : Id) : OrdinalsUnique db threadId := by
  rw [OrdinalsUnique, threadMessages, byOrdinal_filter ordinals fun message ofThread => by simpa using ofThread]
  refine List.pairwise_map.mpr (List.pairwise_filter.mpr (ordinals.increasing.imp fun increasing isFirst isSecond => ?_))
  exact Nat.ne_of_lt (increasing ((beq_iff_eq.mp isFirst).trans (beq_iff_eq.mp isSecond).symm))

/-- The request for some user messages. -/
def requestOf (db : Db) (thread : Thread) (messages : List Message) : HandoffSnapshot :=
  ⟨thread.mode, messages.map (instructionOf db)⟩

/-- Some user messages from one index up to another. -/
def run (db : Db) (threadId : Id) (start stop : Nat) : List Message := ((userMessages db threadId).take stop).drop start

section

variable {db : Db} {threadId : Id}

instance : IsTrans Message fun first second => first.ordinal ≤ second.ordinal := ⟨fun _ _ _ => Nat.le_trans⟩

instance : Std.Total fun first second : Message => first.ordinal ≤ second.ordinal := ⟨fun _ _ => Nat.le_total _ _⟩

theorem byOrdinal_selected (messages : List Message) (wanted : Message → Bool) :
    byOrdinal (messages.filter wanted) = (byOrdinal messages).filter wanted := insertionSort_filter messages

theorem selectMessages_eq (afterOrdinal throughOrdinal : Option Nat) :
    selectMessages db threadId afterOrdinal throughOrdinal =
      (threadMessages db threadId).filter fun message => isWithin afterOrdinal throughOrdinal message.ordinal := by
  rw [selectMessages, threadMessages, ← byOrdinal_selected, List.filter_filter]
  exact congrArg byOrdinal (List.filter_congr fun message _ => Bool.and_comm _ _)

theorem userMessages_eq : userMessages db threadId = (threadMessages db threadId).filter fun message => message.role == .user := by
  rw [userMessages, threadMessages, ← byOrdinal_selected, List.filter_filter]
  exact congrArg byOrdinal (List.filter_congr fun message _ => Bool.and_comm _ _)

theorem increasing_threadMessages (unique : OrdinalsUnique db threadId) :
    (threadMessages db threadId).Pairwise fun first second => first.ordinal < second.ordinal := by
  have sorted := List.pairwise_insertionSort (fun first second : Message => first.ordinal ≤ second.ordinal)
    (db.messages.filter fun message => message.threadId == threadId)
  exact (sorted.and (List.pairwise_map.mp unique)).imp fun both => Nat.lt_of_le_of_ne both.1 both.2

theorem increasing_userMessages (unique : OrdinalsUnique db threadId) :
    (userMessages db threadId).Pairwise fun first second => first.ordinal < second.ordinal := by
  rw [userMessages_eq]
  exact (increasing_threadMessages unique).filter _

/-- A list in order, cut at two of its indices. -/
theorem filter_eq_drop_take {α : Type} {entries : List α} {wanted : α → Bool} {start stop : Nat}
    (wantedIff : ∀ index entry, entries[index]? = some entry → (wanted entry = true ↔ start ≤ index ∧ index < stop)) :
    entries.filter wanted = (entries.take stop).drop start := by
  induction entries generalizing start stop with
  | nil => simp
  | cons first rest inductionHypothesis =>
    have isFirst := wantedIff 0 first rfl
    have others (index : Nat) (entry : α) (found : rest[index]? = some entry) :
        wanted entry = true ↔ start - 1 ≤ index ∧ index < stop - 1 := by
      rw [wantedIff (index + 1) entry (by simpa using found)]
      omega
    rw [List.filter_cons, inductionHypothesis others]
    cases stop with
    | zero => simp [isFirst]
    | succ stop =>
      cases start with
      | zero => simp [isFirst]
      | succ start => simp [isFirst]

/-- In order of their ordinals, the earlier message has the smaller ordinal. -/
theorem ordinal_lt_iff (unique : OrdinalsUnique db threadId) {index other : Nat} {first second : Message}
    (isFirst : (userMessages db threadId)[index]? = some first) (isSecond : (userMessages db threadId)[other]? = some second) :
    first.ordinal < second.ordinal ↔ index < other := by
  have increasing := List.pairwise_iff_getElem.mp (increasing_userMessages unique)
  obtain ⟨inRange, rfl⟩ := List.getElem?_eq_some_iff.mp isFirst
  obtain ⟨otherInRange, rfl⟩ := List.getElem?_eq_some_iff.mp isSecond
  constructor
  · intro smaller
    by_contra notBefore
    rcases Nat.eq_or_lt_of_le (Nat.le_of_not_lt notBefore) with rfl | after
    · omega
    · have := increasing other index otherInRange inRange after
      omega
  · exact increasing index other inRange otherInRange

/-- The cursor of the outer loop: the user messages above it are those from `start` on. -/
def IsCursor (db : Db) (threadId : Id) (start : Nat) (afterOrdinal : Option Nat) : Prop :=
  ∀ index message, (userMessages db threadId)[index]? = some message →
    ((afterOrdinal.all fun after => decide (after < message.ordinal)) = true ↔ start ≤ index)

theorem isCursor_none : IsCursor db threadId 0 none := fun _ _ _ => by simp

theorem isCursor_some (unique : OrdinalsUnique db threadId) {bestEnd : Nat} {last : Message}
    (isLast : (userMessages db threadId)[bestEnd]? = some last) : IsCursor db threadId (bestEnd + 1) (some last.ordinal) := by
  intro index message found
  rw [Option.all_some, decide_eq_true_eq, ordinal_lt_iff unique isLast found]
  exact Iff.rfl

/-- Between the cursor and one of the user messages lies a run. -/
theorem selected_run (unique : OrdinalsUnique db threadId) {start bestEnd : Nat} {afterOrdinal : Option Nat} {last : Message}
    (cursor : IsCursor db threadId start afterOrdinal) (isLast : (userMessages db threadId)[bestEnd]? = some last) :
    (selectMessages db threadId afterOrdinal (some last.ordinal)).filter (fun message => message.role == .user) =
      run db threadId start (bestEnd + 1) := by
  have cut : (userMessages db threadId).filter (fun message => isWithin afterOrdinal (some last.ordinal) message.ordinal) =
      run db threadId start (bestEnd + 1) := by
    refine filter_eq_drop_take fun index message found => ?_
    have notAfter := ordinal_lt_iff unique isLast found
    rw [isWithin, Bool.and_eq_true, cursor index message found, Option.all_some, decide_eq_true_eq]
    omega
  rw [selectMessages_eq, ← cut, userMessages_eq, List.filter_filter, List.filter_filter]
  exact List.filter_congr fun message _ => Bool.and_comm _ _

end

/-! ## Requests that can be built -/

section

variable {surroundings : Surroundings} {db : Db} {thread : Thread}

/-- Nothing about the message keeps a request from being built. -/
structure Buildable (surroundings : Surroundings) (db : Db) (message : Message) : Prop where
  document : ∀ attachment, db.attachmentOf? message.id = some attachment →
    ∃ document, attachmentDocument surroundings attachment = .ok document
  entry : message.role = .user → ∃ content actor,
    transcriptBlocks message = .ok content ∧ transcriptActor surroundings message = .ok actor

theorem documentsBy_isOk_iff {attachmentOf : Id → Option Attachment} {messages : List Message} :
    (∃ documents, documentsBy surroundings attachmentOf messages = .ok documents) ↔
      ∀ message ∈ messages, ∀ attachment, attachmentOf message.id = some attachment →
        ∃ document, attachmentDocument surroundings attachment = .ok document := by
  induction messages with
  | nil => exact ⟨fun _ => List.forall_mem_nil _, fun _ => ⟨[], rfl⟩⟩
  | cons message messages inductionHypothesis =>
    rw [List.forall_mem_cons, ← inductionHypothesis]
    cases found : attachmentOf message.id with
    | none =>
      simp only [documentsBy, found]
      exact (and_iff_right fun attachment isSome => absurd isSome.symm (Option.some_ne_none attachment)).symm
    | some attachment =>
      simp only [documentsBy, found, ok_bind_iff, pure_eq_ok, Except.ok.injEq, Option.some.injEq, forall_eq']
      constructor
      · rintro ⟨_, document, isDocument, documents, isDocuments, -⟩
        exact ⟨⟨document, isDocument⟩, documents, isDocuments⟩
      · rintro ⟨⟨document, isDocument⟩, documents, isDocuments⟩
        exact ⟨_, document, isDocument, documents, isDocuments, rfl⟩

theorem collectInstructions_isOk_iff {threadId : Id} {attachments : Id → Option AttachmentDocument} {seen : List Nat}
    {messages : List Message} (ofThread : ∀ message ∈ messages, message.threadId = threadId)
    (distinct : (seen ++ messages.map Message.ordinal).Nodup) :
    (∃ entries, collectInstructions surroundings threadId attachments seen messages = .ok entries) ↔
      ∀ message ∈ messages, message.role = .user → ∃ content actor,
        transcriptBlocks message = .ok content ∧ transcriptActor surroundings message = .ok actor := by
  induction messages generalizing seen with
  | nil => exact ⟨fun _ _ listed => (nomatch listed), fun _ => ⟨[], rfl⟩⟩
  | cons message messages inductionHypothesis =>
    obtain ⟨isThread, ofThread⟩ := List.forall_mem_cons.mp ofThread
    have distinctRest : (message.ordinal :: seen ++ messages.map Message.ordinal).Nodup := by
      rw [List.map_cons] at distinct
      exact List.perm_middle.nodup_iff.mp distinct
    have rest := inductionHypothesis ofThread distinctRest
    have unseen : message.ordinal ∉ seen := fun inSeen =>
      (List.nodup_append.mp distinct).2.2 _ inSeen _ (by simp) rfl
    rw [List.forall_mem_cons, ← rest]
    simp only [collectInstructions, isThread, unseen, ne_eq, not_true_eq_false, if_false]
    split
    next assistant => exact (and_iff_right fun user => absurd user assistant).symm
    next user =>
      rw [not_not] at user
      simp only [user, transcriptEntry, ok_bind_iff, pure_eq_ok, Except.ok.injEq, forall_const]
      constructor
      · rintro ⟨_, _, ⟨content, isContent, actor, isActor, -⟩, entries, isEntries, -⟩
        exact ⟨⟨content, actor, isContent, isActor⟩, entries, isEntries⟩
      · rintro ⟨⟨content, actor, isContent, isActor⟩, entries, isEntries⟩
        exact ⟨_, _, ⟨content, isContent, actor, isActor, rfl⟩, entries, isEntries, rfl⟩

/-- A request can be built when nothing is wrong with the messages between its bounds. -/
theorem handoffSnapshot_isOk_iff (unique : OrdinalsUnique db thread.id) {afterOrdinal throughOrdinal : Option Nat} :
    (∃ snapshot, handoffSnapshot surroundings db thread afterOrdinal throughOrdinal = .ok snapshot) ↔
      ∀ message ∈ selectMessages db thread.id afterOrdinal throughOrdinal, Buildable surroundings db message := by
  have ofThread : ∀ message ∈ selectMessages db thread.id afterOrdinal throughOrdinal, message.threadId = thread.id := by
    intro message listed
    rw [selectMessages, byOrdinal, List.mem_insertionSort] at listed
    simpa using (Bool.and_eq_true_iff.mp (List.mem_filter.mp listed).2).1
  have distinct : ((selectMessages db thread.id afterOrdinal throughOrdinal).map Message.ordinal).Nodup := by
    rw [selectMessages_eq]
    exact unique.sublist (List.filter_sublist.map _)
  have collected (attachments : Id → Option AttachmentDocument) :=
    @collectInstructions_isOk_iff surroundings thread.id attachments [] _ ofThread distinct
  constructor
  · rintro ⟨_, built⟩
    simp only [handoffSnapshot, ok_bind_iff] at built
    obtain ⟨documents, isDocuments, entries, isEntries, -⟩ := built
    have document := documentsBy_isOk_iff.mp ⟨documents, isDocuments⟩
    have entry := (collected _).mp ⟨entries, isEntries⟩
    exact fun message listed => ⟨document message listed, entry message listed⟩
  · intro buildable
    obtain ⟨documents, isDocuments⟩ := documentsBy_isOk_iff.mpr fun message listed => (buildable message listed).document
    obtain ⟨entries, isEntries⟩ := (collected fun id => (documents.find? fun entry => entry.1 == id).map Prod.snd).mpr
      fun message listed => (buildable message listed).entry
    exact ⟨⟨thread.mode, entries⟩, by simp only [handoffSnapshot, isDocuments, ok_bind_eq, isEntries]; rfl⟩

end

/-! ## One chunk -/

section

variable {surroundings : Surroundings} {db : Db} {thread : Thread} {fits : HandoffSnapshot → Bool}
  {start middle : Nat} {afterOrdinal : Option Nat}

theorem userOrdinal_eq (inRange : middle < (userMessages db thread.id).length) :
    ((userMessages db thread.id).map Message.ordinal)[middle]? = some ((userMessages db thread.id)[middle]).ordinal := by
  rw [List.getElem?_map, List.getElem?_eq_getElem inRange, Option.map_some]

/-- A request between the cursor and a user message holds a run. -/
theorem handoffSnapshot_run (unique : OrdinalsUnique db thread.id) (cursor : IsCursor db thread.id start afterOrdinal)
    (inRange : middle < (userMessages db thread.id).length) {snapshot : HandoffSnapshot}
    (built : handoffSnapshot surroundings db thread afterOrdinal (some ((userMessages db thread.id)[middle]).ordinal) = .ok snapshot) :
    snapshot = requestOf db thread (run db thread.id start (middle + 1)) := by
  rw [handoffSnapshot_eq built, selected_run unique cursor (List.getElem?_eq_getElem inRange), requestOf]

variable (unique : OrdinalsUnique db thread.id) (cursor : IsCursor db thread.id start afterOrdinal)
  (inRange : middle < (userMessages db thread.id).length)

include unique cursor inRange in
theorem probeChunk_eq_some {snapshot : HandoffSnapshot}
    (probed : probeChunk surroundings db thread fits ((userMessages db thread.id).map Message.ordinal) afterOrdinal middle =
      .ok (some snapshot)) :
    snapshot = requestOf db thread (run db thread.id start (middle + 1)) ∧ fits snapshot = true := by
  rw [probeChunk, userOrdinal_eq inRange] at probed
  obtain ⟨candidate, built, chosen⟩ := map_eq_ok_iff.mp probed
  rw [Option.ite_none_right_eq_some] at chosen
  obtain ⟨fitting, isCandidate⟩ := chosen
  cases isCandidate
  exact ⟨handoffSnapshot_run unique cursor inRange built, fitting⟩

include unique cursor inRange in
theorem probeChunk_eq_none
    (probed : probeChunk surroundings db thread fits ((userMessages db thread.id).map Message.ordinal) afterOrdinal middle = .ok none) :
    fits (requestOf db thread (run db thread.id start (middle + 1))) = false := by
  rw [probeChunk, userOrdinal_eq inRange] at probed
  obtain ⟨candidate, built, chosen⟩ := map_eq_ok_iff.mp probed
  rw [← handoffSnapshot_run unique cursor inRange built]
  simpa using chosen

include unique inRange in
theorem probeChunk_eq_error {error : ContextError}
    (probed : probeChunk surroundings db thread fits ((userMessages db thread.id).map Message.ordinal) afterOrdinal middle =
      .error error) :
    ∃ message ∈ threadMessages db thread.id, ¬ Buildable surroundings db message := by
  by_contra noneWrong
  have buildable (message : Message) (listed : message ∈ threadMessages db thread.id) : Buildable surroundings db message :=
    by_contra fun wrong => noneWrong ⟨message, listed, wrong⟩
  obtain ⟨snapshot, built⟩ : ∃ snapshot, handoffSnapshot surroundings db thread afterOrdinal
      (some ((userMessages db thread.id)[middle]).ordinal) = .ok snapshot :=
    (handoffSnapshot_isOk_iff unique).mpr fun message listed =>
      buildable message (List.mem_of_mem_filter (selectMessages_eq _ _ ▸ listed))
  rw [probeChunk, userOrdinal_eq inRange] at probed
  simp only [built] at probed
  cases probed

end

/-! ## The whole plan -/

/-- Chunks of some user messages.  With the user message that follows it, a chunk does not fit. -/
inductive Planned (db : Db) (thread : Thread) (fits : HandoffSnapshot → Bool) : List Message → List (List Message) → Prop where
  | done : Planned db thread fits [] []
  | chunk {part rest : List Message} {parts : List (List Message)} (isNonempty : part ≠ [])
      (isFitting : fits (requestOf db thread part) = true)
      (isFull : ∀ next ∈ rest.head?, fits (requestOf db thread (part ++ [next])) = false)
      (isPlanned : Planned db thread fits rest parts) : Planned db thread fits (part ++ rest) (part :: parts)

/-- What the planning of some user messages comes to. -/
def Outcome (surroundings : Surroundings) (db : Db) (thread : Thread) (fits : HandoffSnapshot → Bool) (messages : List Message) :
    Except HandoffError (List HandoffSnapshot) → Prop
  | .ok chunks => ∃ parts, chunks = parts.map (requestOf db thread) ∧ Planned db thread fits messages parts
  | .error .turnTooLarge => ∃ message ∈ messages, fits (requestOf db thread [message]) = false
  | .error (.context _) => ∃ message ∈ threadMessages db thread.id, ¬ Buildable surroundings db message

section

variable {surroundings : Surroundings} {db : Db} {thread : Thread} {fits : HandoffSnapshot → Bool} {start : Nat}

theorem run_succ {stop : Nat} (inRange : stop < (userMessages db thread.id).length) (ordered : start ≤ stop) :
    run db thread.id start (stop + 1) = run db thread.id start stop ++ [(userMessages db thread.id)[stop]] := by
  rw [run, run, List.take_succ_eq_append_getElem inRange, List.drop_append_of_le_length (by rw [List.length_take]; omega)]

theorem run_drop {stop : Nat} (ordered : start ≤ stop) :
    run db thread.id start stop ++ (userMessages db thread.id).drop stop = (userMessages db thread.id).drop start := by
  rw [run, List.drop_take, ← Nat.add_sub_of_le ordered, ← List.drop_drop, Nat.add_sub_cancel_left, List.take_append_drop]

/-- The first turn of a chunk that was not found is too large. -/
theorem run_one (inRange : start < (userMessages db thread.id).length) :
    run db thread.id start (start + 1) = [(userMessages db thread.id)[start]] := by
  rw [run_succ inRange (Nat.le_refl _), run, List.drop_eq_nil_of_le (by simp), List.nil_append]

/-- One more chunk before what is planned. -/
theorem outcome_cons {part rest : List Message} {planned : Except HandoffError (List HandoffSnapshot)} (isNonempty : part ≠ [])
    (isFitting : fits (requestOf db thread part) = true)
    (isFull : ∀ next ∈ rest.head?, fits (requestOf db thread (part ++ [next])) = false)
    (outcome : Outcome surroundings db thread fits rest planned) :
    Outcome surroundings db thread fits (part ++ rest) (planned.map fun chunks => requestOf db thread part :: chunks) := by
  cases planned with
  | ok chunks =>
    obtain ⟨parts, rfl, isPlanned⟩ := outcome
    exact ⟨part :: parts, rfl, .chunk isNonempty isFitting isFull isPlanned⟩
  | error error =>
    cases error with
    | turnTooLarge =>
      obtain ⟨message, listed, tooLarge⟩ := outcome
      exact ⟨message, List.mem_append_right _ listed, tooLarge⟩
    | context => exact outcome

/-- The outer loop: the chunks planned from a cursor on are those of the user messages from there on. -/
theorem planChunks_outcome (unique : OrdinalsUnique db thread.id) {fuel : Nat} {afterOrdinal : Option Nat}
    (cursor : IsCursor db thread.id start afterOrdinal) (enough : (userMessages db thread.id).length - start ≤ fuel) :
    ∃ planned, planChunks surroundings db thread fits ((userMessages db thread.id).map Message.ordinal) fuel start afterOrdinal =
        some planned ∧ Outcome surroundings db thread fits ((userMessages db thread.id).drop start) planned := by
  have ended (passedEnd : (userMessages db thread.id).length ≤ start) :
      Outcome surroundings db thread fits ((userMessages db thread.id).drop start) (.ok []) := by
    rw [List.drop_eq_nil_of_le passedEnd]
    exact ⟨[], rfl, .done⟩
  induction fuel generalizing start afterOrdinal with
  | zero =>
    have passedEnd : (userMessages db thread.id).length ≤ start := by omega
    exact ⟨.ok [], by rw [planChunks, if_neg (by simpa using passedEnd)], ended passedEnd⟩
  | succ fuel inductionHypothesis =>
    rw [planChunks, List.length_map]
    by_cases inRange : start < (userMessages db thread.id).length
    · rw [if_pos inRange]
      split
      next error raised =>
        obtain ⟨index, -, below, probed⟩ := bisect_error raised
        exact ⟨_, rfl, probeChunk_eq_error unique below probed⟩
      next missing =>
        refine ⟨_, rfl, (userMessages db thread.id)[start], ?_, ?_⟩
        · rw [List.mem_iff_getElem?]
          exact ⟨0, by simp [inRange]⟩
        · rw [← run_one inRange]
          exact probeChunk_eq_none unique cursor inRange (bisect_none inRange missing)
      next bestEnd bestSnapshot found =>
        obtain ⟨above, below, probed⟩ := bisect_found found
        obtain ⟨isBest, isFitting⟩ := probeChunk_eq_some unique cursor below probed
        rw [userOrdinal_eq below]
        obtain ⟨planned, isRest, outcome⟩ := inductionHypothesis (isCursor_some unique (List.getElem?_eq_getElem below)) (by omega)
          fun passedEnd => by rw [List.drop_eq_nil_of_le passedEnd]; exact ⟨[], rfl, .done⟩
        refine ⟨_, by rw [isRest]; rfl, ?_⟩
        rw [← run_drop (show start ≤ bestEnd + 1 by omega), isBest]
        refine outcome_cons ?_ (isBest ▸ isFitting) (fun next isNext => ?_) outcome
        · rw [run_succ below above]
          simp
        · rw [List.head?_drop, Option.mem_def] at isNext
          obtain ⟨nextInRange, rfl⟩ := List.getElem?_eq_some_iff.mp isNext
          rw [← run_succ nextInRange (by omega)]
          exact probeChunk_eq_none unique cursor nextInRange ((bisect_next inRange found).resolve_left (by omega))
    · rw [if_neg inRange]
      exact ⟨_, rfl, ended (Nat.le_of_not_lt inRange)⟩

theorem Planned.flatten {messages : List Message} {parts : List (List Message)} (planned : Planned db thread fits messages parts) :
    parts.flatten = messages := by
  induction planned with
  | done => rfl
  | chunk _ _ _ _ inductionHypothesis => rw [List.flatten_cons, inductionHypothesis]

theorem Planned.each {messages : List Message} {parts : List (List Message)} (planned : Planned db thread fits messages parts) :
    ∀ part ∈ parts, part ≠ [] ∧ fits (requestOf db thread part) = true := by
  induction planned with
  | done => exact fun _ listed => nomatch listed
  | chunk isNonempty isFitting _ _ inductionHypothesis => exact List.forall_mem_cons.mpr ⟨⟨isNonempty, isFitting⟩, inductionHypothesis⟩

/-- Fitting is downward closed in the number of messages. -/
def DownwardClosed (db : Db) (thread : Thread) (fits : HandoffSnapshot → Bool) : Prop :=
  ∀ part whole, part <:+: whole → fits (requestOf db thread whole) = true → fits (requestOf db thread part) = true

theorem Planned.longest (closed : DownwardClosed db thread fits) {messages part : List Message} {before after : List (List Message)}
    (planned : Planned db thread fits messages (before ++ part :: after)) {more : List Message} (isMore : more ≠ [])
    (follows : more <+: after.flatten) : fits (requestOf db thread (part ++ more)) = false := by
  generalize isParts : before ++ part :: after = parts at planned
  induction planned generalizing before with
  | done => simp at isParts
  | @chunk first rest parts _ _ isFull isPlanned inductionHypothesis =>
    cases before with
    | cons other before => exact inductionHypothesis (List.cons.inj isParts).2
    | nil =>
      obtain ⟨rfl, rfl⟩ := List.cons.inj isParts
      rw [isPlanned.flatten] at follows
      obtain ⟨next, others, rfl⟩ := List.exists_cons_of_ne_nil isMore
      obtain ⟨remaining, rfl⟩ := follows
      refine Bool.eq_false_iff.mpr fun isFitting => ?_
      have isShorter : part ++ [next] <:+: part ++ next :: others := ⟨[], others, by simp⟩
      have tooLarge := isFull next rfl
      rw [closed _ _ isShorter isFitting] at tooLarge
      cases tooLarge

theorem Planned.one (closed : DownwardClosed db thread fits) {messages : List Message} {parts : List (List Message)}
    (planned : Planned db thread fits messages parts) : ∀ message ∈ messages, fits (requestOf db thread [message]) = true := by
  intro message listed
  rw [← planned.flatten, List.mem_flatten] at listed
  obtain ⟨part, isPart, listed⟩ := listed
  obtain ⟨before, after, rfl⟩ := List.append_of_mem listed
  exact closed _ _ ⟨before, after, by simp⟩ (planned.each _ isPart).2

/-- Planning ends.  Its chunks partition the user messages, and only a turn that is too large stops it. -/
theorem chunks_partition_messages (unique : OrdinalsUnique db thread.id) :
    ∃ planned, sourceChunks surroundings db thread fits = some planned ∧
      (∀ chunks, planned = .ok chunks → ∃ parts : List (List Message),
        parts.flatten = userMessages db thread.id ∧ chunks = parts.map (requestOf db thread) ∧
        (∀ part ∈ parts, part ≠ [] ∧ fits (requestOf db thread part) = true) ∧
        (DownwardClosed db thread fits →
          (∀ message ∈ userMessages db thread.id, fits (requestOf db thread [message]) = true) ∧
          ∀ before part after more, parts = before ++ part :: after → more ≠ [] → more <+: after.flatten →
            fits (requestOf db thread (part ++ more)) = false)) ∧
      (planned = .error .turnTooLarge → ∃ message ∈ userMessages db thread.id, fits (requestOf db thread [message]) = false) ∧
      ∀ error, planned = .error (.context error) → ∃ message ∈ threadMessages db thread.id, ¬ Buildable surroundings db message := by
  obtain ⟨planned, isPlanned, outcome⟩ := @planChunks_outcome surroundings db thread fits 0 unique _ none isCursor_none (Nat.le_refl _)
  rw [List.drop_zero] at outcome
  refine ⟨planned, isPlanned, ?_, ?_, ?_⟩
  · rintro chunks rfl
    obtain ⟨parts, isParts, planned⟩ := outcome
    refine ⟨parts, planned.flatten, isParts, planned.each, fun closed => ⟨planned.one closed, ?_⟩⟩
    rintro before part after more rfl isMore follows
    exact planned.longest closed isMore follows
  · rintro rfl
    exact outcome
  · rintro error rfl
    exact outcome

end

/-- A thread of three turns, where a request has room for two of them. -/
theorem chunks_partition_messages_threeTurns :
    let turn (ordinal : Nat) (role : Role) : Message :=
      { id := ordinal, threadId := 1, ordinal := ordinal, role := role, actorUserId := some 1, content := [⟨.conversation, str "Hi"⟩] }
    let db : Db := { Db.empty with messages := [turn 1 .user, turn 2 .assistant, turn 3 .user, turn 4 .assistant, turn 5 .user] }
    let thread : Thread := { id := 1, ownerId := 1, mode := .revision }
    ∃ planned, sourceChunks ⟨fun _ => some (str "Ann"), fun _ => true⟩ db thread
      (fun snapshot => decide (snapshot.userMessages.length ≤ 2)) = some planned ∧ planned ≠ .error .turnTooLarge := by
  intro turn db thread
  obtain ⟨planned, isPlanned, -, tooLarge, -⟩ := @chunks_partition_messages ⟨fun _ => some (str "Ann"), fun _ => true⟩ db thread
    (fun snapshot => decide (snapshot.userMessages.length ≤ 2)) (by unfold OrdinalsUnique; decide)
  refine ⟨planned, isPlanned, fun isTooLarge => ?_⟩
  obtain ⟨message, listed, notFitting⟩ := tooLarge isTooLarge
  simp [requestOf] at notFitting

end Oveo.Context
