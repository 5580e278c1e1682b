import Oveo.Context.Envelope
import Oveo.Lifecycle.Calls
import Oveo.Lifecycle.Submission
import Oveo.Protocol.Cuts

/-! # Stored content is read back

A later turn reads the messages of its conversation through `validate_content_blocks` with its default
limits.  What the decoder accepted passes them.  A user's text is stored as it was given, while what
bounds it is measured without the spaces around it, or not at all, so a long text does not pass. -/

namespace Oveo.Context

open Oveo.Lib Oveo.Protocol Oveo.Store Oveo.Work Oveo.Lifecycle

/-- A later turn can read the content of the message. -/
def Readable (message : Message) : Prop := ∃ blocks, transcriptBlocks message = .ok blocks

/-- The text stays within the limit of the reader, or is not stored at all. -/
def FitsReader (text : Str) : Prop := isBlank text = true ∨ text.length ≤ defaultMaxTextChars

/-- The steps insert turns whose texts fit the reader, and commit what a decoder accepted. -/
def storesReadable (s : System) : Action → Prop
  | .advance id _ _ =>
    ∀ call plan orphans, s.call? id = some call → call.phase = .measured plan orphans → ∀ content ∈ plan.turn, FitsReader content.text
  | .commitSuccess _ document _ => ∃ runtime chunks events, decodeChunks runtime {} chunks = .ok (document, events)
  | _ => True

section

variable {surroundings : Surroundings} {settings : Settings} {s s' : System} {db : Db} {message : Message} {document : ProtocolDocument}

/-! ## What is readable -/

theorem transcriptBlocks_eq_ok {blocks : List ContentBlock} :
    transcriptBlocks message = .ok blocks ↔
      blocks = message.content ∧
        (message.content = [] ∧ message.role = .user ∨ ValidBlocks defaultMaxBlocks defaultMaxTextChars message.content) := by
  constructor
  · intro read
    obtain rfl := transcriptBlocks_eq read
    refine ⟨rfl, ?_⟩
    unfold transcriptBlocks at read
    split at read
    next empty => exact .inl ⟨List.isEmpty_iff.mp empty.1, empty.2⟩
    next =>
      split at read
      next validated =>
        cases read
        exact .inr (validateContentBlocks_eq_ok.mp validated).2
      next => cases read
  · rintro ⟨rfl, empty | valid⟩
    · rw [transcriptBlocks, if_pos ⟨List.isEmpty_iff.mpr empty.1, empty.2⟩, empty.1]
    · have accepted : validateContentBlocks (storedCandidates message.content) defaultMaxBlocks defaultMaxTextChars = .ok message.content := by
        rw [validateContentBlocks_eq_ok, storedCandidates, List.forall₂_map_left_iff, List.forall₂_same]
        exact ⟨fun block listed => toBlock_toStorage (valid.filled block listed), valid⟩
      rw [transcriptBlocks, if_neg (fun empty => valid.nonempty (List.isEmpty_iff.mp empty.1)), accepted]

theorem readable_iff :
    Readable message ↔
      message.content = [] ∧ message.role = .user ∨ ValidBlocks defaultMaxBlocks defaultMaxTextChars message.content := by
  simp [Readable, transcriptBlocks_eq_ok]

/-- A user's text is readable where it fits. -/
theorem readable_turnMessage {requesterId threadId : Id} {ids : SubmissionIds} {content : TurnContent} :
    Readable (turnMessage db requesterId ids threadId content) ↔ FitsReader content.text := by
  rw [readable_iff]
  by_cases blank : isBlank content.text = true
  · simp [turnMessage, userContent, FitsReader, blank]
  · have shown : userContent content.text = [⟨.conversation, content.text⟩] := by simp [userContent, blank]
    simp only [turnMessage, shown, FitsReader, blank]
    constructor
    · rintro (⟨impossible, -⟩ | valid)
      · cases impossible
      · exact .inr (by simpa using valid.size)
    · rintro (impossible | small)
      · cases impossible
      · refine .inr ⟨Nat.le_of_ble_eq_true rfl, ?_, by simpa using small, .conversation⟩
        simpa using blank

/-- What a decoder accepted is readable once it is stored. -/
theorem readable_answerMessage {threadId messageId : Id} {runtime : Json.Runtime} {chunks : List (List UInt8)}
    {events : List ProtocolEvent} (accepted : decodeChunks runtime {} chunks = .ok (document, events)) :
    Readable (answerMessage db threadId messageId document) := by
  obtain ⟨d, -, finished⟩ := decodeChunks_eq_ok_iff.mp accepted
  obtain ⟨-, response, -, -, -, checked⟩ := finish_eq_ok.mp finished
  obtain ⟨blocks, valid⟩ := checkBlocks_eq_ok.mp checked
  rw [← blocks] at valid
  exact readable_iff.mpr (.inr valid)

/-! ## Runs -/

theorem Committed.readable {db' : Db} {id : Id} {templates : Templates} {ids : AnswerIds} {answer : Option Answer}
    (committed : Committed settings db id document templates ids db' answer) (readable : ∀ message ∈ db.messages, Readable message)
    {runtime : Json.Runtime} {chunks : List (List UInt8)} {events : List ProtocolEvent}
    (accepted : decodeChunks runtime {} chunks = .ok (document, events)) : ∀ message ∈ db'.messages, Readable message := by
  cases committed with
  | chat _ _ _ _ _ messages _ _ _ _ _ messages' =>
    rw [messages', messages]
    intro message member
    rcases List.mem_append.mp member with old | new
    · exact readable message old
    · rw [List.mem_singleton.mp new]
      exact readable_answerMessage accepted
  | handoff => exact readable

theorem readable_step (system : SystemInv s) (readable : ∀ message ∈ s.db.messages, Readable message) {action : Action}
    (allowed : storesReadable s action) (taken : step settings s action = some s') : ∀ message ∈ s'.db.messages, Readable message := by
  cases step_tableStep system taken with
  | update updates =>
    rw [updates.tables]
    exact readable
  | commit isCommit _ committed =>
    subst isCommit
    obtain ⟨runtime, chunks, events, accepted⟩ := allowed
    exact Committed.readable committed readable accepted
  | @insert id now createdAt call plan orphans isAdvance found phase committed =>
    subst isAdvance
    obtain ⟨change, finalized⟩ := finalizeOrphans_updates orphans s.db
    rw [(submissionTransaction_inserted committed).messages, finalized.tables]
    intro message member
    rcases List.mem_append.mp member with old | new
    · exact readable message old
    · obtain ⟨content, isTurn, rfl⟩ := Option.map_eq_some_iff.mp (Option.mem_toList.mp new)
      exact readable_turnMessage.mpr (allowed call plan orphans found phase content isTurn)

theorem readable_of_reachable (reachable : (machine settings).ReachableVia storesReadable s) :
    ∀ message ∈ s.db.messages, Readable message := by
  have invariants : SystemInv s ∧ ∀ message ∈ s.db.messages, Readable message := by
    refine Machine.invariant (fun s => SystemInv s ∧ ∀ message ∈ s.db.messages, Readable message) ?_ ?_ reachable
    · rintro _ rfl
      exact ⟨systemInv_empty, fun _ member => (nomatch member)⟩
    · exact fun _ _ _ invariants allowed taken =>
        ⟨step_systemInv invariants.1 taken, readable_step invariants.1 invariants.2 allowed taken⟩
  exact invariants.2

/-! ## Requests -/

theorem collectTranscript_readable {threadId : Id} {through : Nat} {attachments : Id → Option AttachmentDocument} {seen : List Nat}
    {messages : List Message} {entries : List TranscriptEntry}
    (collected : collectTranscript surroundings threadId through attachments seen messages = .ok entries) :
    ∀ message ∈ messages, through < message.ordinal → Readable message := by
  induction messages generalizing seen entries with
  | nil => exact fun _ member => (nomatch member)
  | cons first rest inductionHypothesis =>
    simp only [collectTranscript, ite_error_eq_ok] at collected
    obtain ⟨-, -, collected⟩ := collected
    intro message member later
    split at collected
    next covered =>
      rcases List.mem_cons.mp member with rfl | inRest
      · exact absurd covered (by omega)
      · exact inductionHypothesis collected message inRest later
    next =>
      simp only [ok_bind_iff, pure_eq_ok, Except.ok.injEq] at collected
      obtain ⟨entry, isEntry, others, isOthers, -⟩ := collected
      rcases List.mem_cons.mp member with rfl | inRest
      · simp only [transcriptEntry, ok_bind_iff] at isEntry
        obtain ⟨content, isContent, -⟩ := isEntry
        exact ⟨content, isContent⟩
      · exact inductionHypothesis isOthers message inRest later

/-- Where one message cannot be read, no request and no summary it is part of can be made. -/
theorem requestSnapshot_readable {thread : Thread} {summary : Summary} {purpose : ContextPurpose} {throughOrdinal : Option Nat}
    {snapshot : RequestSnapshot} (built : requestSnapshot surroundings db thread summary purpose none throughOrdinal = .ok snapshot)
    (member : message ∈ messagesWithin db thread.id summary.through throughOrdinal) : Readable message := by
  simp only [requestSnapshot, ok_bind_iff, pure_eq_ok, Except.ok.injEq] at built
  obtain ⟨documents, -, reference, -, entries, isEntries, -⟩ := built
  obtain ⟨inTable, within⟩ := List.mem_filter.mp member
  rw [← isWithin_after] at within
  obtain ⟨later, selected⟩ := Bool.and_eq_true_iff.mp within
  refine collectTranscript_readable isEntries message ?_ (of_decide_eq_true later)
  rw [selectMessages, byOrdinal, List.mem_insertionSort]
  exact List.mem_filter.mpr ⟨inTable, selected⟩

/-! ## Turns and answers -/

theorem submitTurn_of_checks {settings : TurnSettings} {countPair : Str → Str → Option (Nat × Nat)} {key : Id} {ids : SubmissionIds}
    {turn : Turn} {plan : Plan} (checked : checkTurn settings countPair turn = .ok ())
    (planned : turnPlan db (turn.call key ids) turn.threadId turn.ownerId turn.mode turn.content = .ok plan)
    (words : checkWords settings.toSettings db plan.threadId turn.content = .ok ()) :
    submitTurn settings countPair db key ids turn = .ok (turnMessage db turn.requesterId ids plan.threadId turn.content) := by
  simp [submitTurn, checked, planned, words, Except.mapError, ok_bind_eq]

theorem submitTurn_eq_ok {settings : TurnSettings} {countPair : Str → Str → Option (Nat × Nat)} {key : Id} {ids : SubmissionIds}
    {turn : Turn} (accepted : submitTurn settings countPair db key ids turn = .ok message) :
    ∃ threadId, message = turnMessage db turn.requesterId ids threadId turn.content := by
  simp only [submitTurn, ok_bind_iff, pure_eq_ok, Except.ok.injEq] at accepted
  obtain ⟨_, -, plan, -, _, -, rfl⟩ := accepted
  exact ⟨plan.threadId, rfl⟩

end

/-- An accepted turn can be read back exactly if its text, with the spaces around it, is within the limit
of the reader; an answer that was decoded always can; and so can all messages of a run of such turns. -/
theorem stored_content_readable (turnSettings : TurnSettings) (countPair : Str → Str → Option (Nat × Nat)) (db : Db) (key : Id)
    (ids : SubmissionIds) (turn : Turn) :
    (∀ message, submitTurn turnSettings countPair db key ids turn = .ok message → (Readable message ↔ FitsReader turn.text)) ∧
    (∀ runtime chunks document events db threadId messageId, decodeChunks runtime {} chunks = .ok (document, events) →
      Readable (answerMessage db threadId messageId document)) ∧
    ∀ settings s, (machine settings).ReachableVia storesReadable s → ∀ message ∈ s.db.messages, Readable message := by
  refine ⟨fun message accepted => ?_, ?_, fun settings s => readable_of_reachable⟩
  · obtain ⟨threadId, rfl⟩ := submitTurn_eq_ok accepted
    exact readable_turnMessage
  · exact fun runtime chunks document events db threadId messageId accepted => readable_answerMessage accepted

/-- A first message. -/
def turnOf (text : Str) : Turn where
  requesterId := 0
  clientRequestId := str "1"
  text
  attachment := none
  attachmentRole := .source
  threadId := none
  ownerId := some 0
  mode := some .translate

def turnIds : SubmissionIds := { generationId := 1, threadId := 2, messageId := 3, attachmentId := 4 }

theorem turnPlan_turnOf (text : Str) :
    turnPlan Db.empty ((turnOf text).call 0 turnIds) none (some 0) (some .translate) (turnOf text).content =
      .ok { newThread := some { id := 2, ownerId := 0, mode := .translate }, threadId := 2, turn := some (turnOf text).content,
            sourceMessageId := none, retryOfGenerationId := none, purpose := .chat } := rfl

theorem stored_content_readable_greeting :
    ∃ message, submitTurn {} (fun _ _ => none) Db.empty 0 turnIds (turnOf (str "Hi")) = .ok message ∧ Readable message := by
  obtain ⟨message, accepted⟩ := exists_of_isOk
    (by decide : (submitTurn {} (fun _ _ => none) Db.empty 0 turnIds (turnOf (str "Hi"))).isOk = true)
  exact ⟨message, accepted, ((stored_content_readable {} (fun _ _ => none) Db.empty 0 turnIds (turnOf (str "Hi"))).1 message accepted).mpr (.inr (by decide))⟩

/-- One letter, and then spaces up to where the text does not fit any more. -/
def paddedText : Str := codePoint 'x' :: List.replicate defaultMaxTextChars (codePoint ' ')

theorem strip_paddedText : strip paddedText = str "x" := by
  have letter : isSpace (codePoint 'x') = false := by decide
  have space : isSpace (codePoint ' ') = true := by decide
  rw [paddedText, strip, List.dropWhile_cons_of_neg (by simp [letter]), List.reverse_cons, List.reverse_replicate,
    List.dropWhile_append_of_pos fun c member => by rw [List.eq_of_mem_replicate member, space],
    List.dropWhile_cons_of_neg (by simp [letter])]
  rfl

theorem paddedText_too_long : ¬ FitsReader paddedText := by
  rintro (blank | small)
  · rw [isBlank_iff_strip, strip_paddedText] at blank
    cases blank
  · rw [paddedText, List.length_cons, List.length_replicate] at small
    exact Nat.lt_irrefl _ small

/-- What is measured of a text is what is left when the spaces around it are gone. -/
theorem submitTurn_of_strip {text : Str} (short : strip text = str "x") :
    submitTurn {} (fun _ _ => none) Db.empty 0 turnIds (turnOf text) = .ok (turnMessage Db.empty 0 turnIds 2 (turnOf text).content) := by
  have checked : checkTurn {} (fun _ _ => none) (turnOf text) = .ok () := by
    rw [checkTurn, turnOf, short]
    rfl
  have words : checkWords ({} : TurnSettings).toSettings Db.empty 2 (turnOf text).content = .ok () := by
    simp only [checkWords, Turn.content, turnOf, Option.map_none, short]
    rfl
  exact submitTurn_of_checks checked (turnPlan_turnOf text) words

/-- The padded text is accepted and stored, and then no request that has its message can be made. -/
theorem paddedText_blocks_conversation :
    ∃ message, submitTurn {} (fun _ _ => none) Db.empty 0 turnIds (turnOf paddedText) = .ok message ∧ ¬ Readable message ∧
      ∀ surroundings db thread summary purpose throughOrdinal snapshot,
        message ∈ messagesWithin db thread.id summary.through throughOrdinal →
        requestSnapshot surroundings db thread summary purpose none throughOrdinal ≠ .ok snapshot := by
  have unreadable : ¬ Readable (turnMessage Db.empty 0 turnIds 2 (turnOf paddedText).content) :=
    fun readable => paddedText_too_long (readable_turnMessage.mp readable)
  exact ⟨_, submitTurn_of_strip strip_paddedText, unreadable,
    fun _ _ _ _ _ _ _ member built => unreadable (requestSnapshot_readable built member)⟩

end Oveo.Context
