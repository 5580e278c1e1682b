import Oveo.Context.Snapshot
import Oveo.Lifecycle.Messages

/-! # What an envelope holds

A snapshot that was built holds one entry for each message it selects, with the content the message
was stored with and its source document. -/

namespace Oveo.Context

open Oveo.Lib Oveo.Docx Oveo.Protocol Oveo.Store Oveo.Work Oveo.Lifecycle

/-! ## Entries -/

/-- The source document of a message. -/
def sourceDocument? (db : Db) (messageId : Id) : Option AttachmentDocument :=
  ((db.attachmentOf? messageId).filter fun attachment => attachment.role == .source).bind fun attachment =>
    match docxBlocksFromStorage attachment.documentBlocks with
    | .ok documentBlocks => some { wordCount := attachment.wordCount, documentBlocks, role := attachment.role }
    | .error _ => none

/-- The entry has the whole message. -/
structure IsEntry (db : Db) (message : Message) (entry : TranscriptEntry) : Prop where
  ordinal : entry.ordinal = message.ordinal
  role : entry.role = message.role
  content : entry.content = message.content
  attachment : entry.attachment = sourceDocument? db message.id

section

variable {surroundings : Surroundings} {db : Db} {message : Message} {messages : List Message}

theorem toBlock_mapping_eq {block read : ContentBlock}
    (isRead : (BlockCandidate.mapping [(str "type", .str block.type.name), (str "text", .str block.text)]).toBlock = .ok read) :
    read = block := by
  by_cases blank : isBlank block.text = true
  · have keys : Json.hasExactKeys [(str "type", Json.str block.type.name), (str "text", Json.str block.text)]
        [str "type", str "text"] = true := rfl
    have type : Json.get? [(str "type", Json.str block.type.name), (str "text", Json.str block.text)] (str "type") =
        some (.str block.type.name) := rfl
    have text : Json.get? [(str "type", Json.str block.type.name), (str "text", Json.str block.text)] (str "text") =
        some (.str block.text) := rfl
    simp [BlockCandidate.toBlock, keys, type, text, blank] at isRead
  · rw [toBlock_toStorage (Bool.eq_false_iff.mpr blank), Except.ok.injEq] at isRead
    exact isRead.symm

/-- What `validate_content_blocks` returns of a stored content is the content. -/
theorem blocks_of_stored {content blocks : List ContentBlock} {maxBlocks maxTextChars : Nat}
    (validated : validateContentBlocks (storedCandidates content) maxBlocks maxTextChars = .ok blocks) : blocks = content := by
  obtain ⟨each, -⟩ := validateContentBlocks_eq_ok.mp validated
  rw [storedCandidates, List.forall₂_map_left_iff] at each
  have same : List.Forall₂ (· = ·) content blocks := each.imp fun _ _ isRead => (toBlock_mapping_eq isRead).symm
  rw [List.forall₂_eq_eq_eq] at same
  exact same.symm

theorem transcriptBlocks_eq {blocks : List ContentBlock} (read : transcriptBlocks message = .ok blocks) : blocks = message.content := by
  unfold transcriptBlocks at read
  split at read
  next empty =>
    cases read
    exact (List.isEmpty_iff.mp empty.1).symm
  next =>
    split at read
    next validated =>
      cases read
      exact blocks_of_stored validated
    next => cases read

/-! ## Documents -/

/-- The document of an attachment, if there is one. -/
def documentOf? (attachment : Option Attachment) : Option AttachmentDocument :=
  attachment.bind fun attachment =>
    match docxBlocksFromStorage attachment.documentBlocks with
    | .ok documentBlocks => some { wordCount := attachment.wordCount, documentBlocks, role := attachment.role }
    | .error _ => none

/-- The documents of some messages, by message id. -/
def documentsBy (surroundings : Surroundings) (attachmentOf : Id → Option Attachment) :
    List Message → Except ContextError (List (Id × AttachmentDocument))
  | [] => .ok []
  | message :: messages =>
    match attachmentOf message.id with
    | none => documentsBy surroundings attachmentOf messages
    | some attachment => do
      let document ← attachmentDocument surroundings attachment
      let documents ← documentsBy surroundings attachmentOf messages
      return (message.id, document) :: documents

theorem sourceDocuments_eq_documentsBy (messages : List Message) :
    sourceDocuments surroundings db messages =
      documentsBy surroundings (fun id => (db.attachmentOf? id).filter fun attachment => attachment.role == .source) messages := by
  induction messages with
  | nil => rfl
  | cons message messages inductionHypothesis =>
    cases isSource : (db.attachmentOf? message.id).filter fun attachment => attachment.role == .source <;>
      simp only [sourceDocuments, documentsBy, inductionHypothesis, isSource]

theorem attachmentDocument_eq {attachment : Attachment} {document : AttachmentDocument}
    (read : attachmentDocument surroundings attachment = .ok document) : documentOf? (some attachment) = some document := by
  unfold attachmentDocument at read
  rw [documentOf?, Option.bind_some]
  split at read
  next =>
    split at read
    next blocks isBlocks =>
      cases read
      simp only [isBlocks]
    next => cases read
  next => cases read

/-- The documents that were read are those of their messages, and none is missing. -/
theorem documentsBy_eq {attachmentOf : Id → Option Attachment} {documents : List (Id × AttachmentDocument)}
    (read : documentsBy surroundings attachmentOf messages = .ok documents) :
    (∀ entry ∈ documents, documentOf? (attachmentOf entry.1) = some entry.2) ∧
      ∀ message ∈ messages, ∀ document, documentOf? (attachmentOf message.id) = some document → (message.id, document) ∈ documents := by
  induction messages generalizing documents with
  | nil =>
    cases read
    exact ⟨fun _ member => (nomatch member), fun _ member => (nomatch member)⟩
  | cons message messages inductionHypothesis =>
    unfold documentsBy at read
    split at read
    next missing =>
      obtain ⟨own, all⟩ := inductionHypothesis read
      refine ⟨own, fun other member document isDocument => ?_⟩
      rcases List.mem_cons.mp member with rfl | later
      · rw [missing] at isDocument
        cases isDocument
      · exact all other later document isDocument
    next attachment found =>
      simp only [ok_bind_iff, pure_eq_ok, Except.ok.injEq] at read
      obtain ⟨document, isDocument, rest, isRest, rfl⟩ := read
      obtain ⟨own, all⟩ := inductionHypothesis isRest
      have first : documentOf? (attachmentOf message.id) = some document := found ▸ attachmentDocument_eq isDocument
      refine ⟨List.forall_mem_cons.mpr ⟨first, own⟩, fun other member given isGiven => ?_⟩
      rcases List.mem_cons.mp member with rfl | later
      · rw [Option.some.inj (first.symm.trans isGiven)]
        exact List.mem_cons_self
      · exact List.mem_cons_of_mem _ (all other later given isGiven)

theorem findDocument_eq {attachmentOf : Id → Option Attachment} {documents : List (Id × AttachmentDocument)}
    (read : documentsBy surroundings attachmentOf messages = .ok documents) (member : message ∈ messages) :
    (documents.find? fun entry => entry.1 == message.id).map Prod.snd = documentOf? (attachmentOf message.id) := by
  obtain ⟨own, all⟩ := documentsBy_eq read
  cases found : documents.find? fun entry => entry.1 == message.id with
  | some entry =>
    have same : entry.1 = message.id := by simpa using List.find?_some found
    rw [Option.map_some, ← same]
    exact (own entry (List.mem_of_find?_eq_some found)).symm
  | none =>
    cases isDocument : documentOf? (attachmentOf message.id) with
    | none => rfl
    | some document =>
      have missing := List.find?_eq_none.mp found _ (all message member document isDocument)
      exact absurd (beq_self_eq_true message.id) missing

/-! ## Transcripts -/

theorem collectTranscript_eq {threadId : Id} {through : Nat} {attachments : Id → Option AttachmentDocument} {seen : List Nat}
    {entries : List TranscriptEntry} (collected : collectTranscript surroundings threadId through attachments seen messages = .ok entries)
    (own : ∀ message ∈ messages, attachments message.id = sourceDocument? db message.id) :
    List.Forall₂ (IsEntry db) (messages.filter fun message => decide (through < message.ordinal)) entries := by
  induction messages generalizing seen entries with
  | nil =>
    cases collected
    exact .nil
  | cons message messages inductionHypothesis =>
    have ownRest : ∀ other ∈ messages, attachments other.id = sourceDocument? db other.id :=
      fun other member => own other (List.mem_cons_of_mem _ member)
    simp only [collectTranscript, ite_error_eq_ok] at collected
    obtain ⟨-, -, collected⟩ := collected
    split at collected
    next covered =>
      rw [List.filter_cons_of_neg (by simpa using covered)]
      exact inductionHypothesis collected ownRest
    next later =>
      simp only [ok_bind_iff, pure_eq_ok, Except.ok.injEq] at collected
      obtain ⟨entry, isEntry, rest, isRest, rfl⟩ := collected
      rw [List.filter_cons_of_pos (by simpa using later)]
      refine .cons ?_ (inductionHypothesis isRest ownRest)
      simp only [transcriptEntry, ok_bind_iff, pure_eq_ok, Except.ok.injEq] at isEntry
      obtain ⟨content, isContent, actor, -, rfl⟩ := isEntry
      exact ⟨rfl, rfl, transcriptBlocks_eq isContent, own message List.mem_cons_self⟩

/-- The messages of a thread that some bounds select, in the order of the table. -/
def messagesWithin (db : Db) (threadId : Id) (through : Nat) (throughOrdinal : Option Nat) : List Message :=
  db.messages.filter fun message =>
    message.threadId == threadId && (decide (through < message.ordinal) && throughOrdinal.all fun last => decide (message.ordinal ≤ last))

theorem byOrdinal_filter (ordinals : OrdinalsInv db) {select : Message → Bool} {threadId : Id}
    (ofThread : ∀ message, select message = true → message.threadId = threadId) :
    byOrdinal (db.messages.filter select) = db.messages.filter select := by
  refine List.Pairwise.insertionSort_eq (List.pairwise_filter.mpr (ordinals.increasing.imp fun increasing isFirst isSecond => ?_))
  exact Nat.le_of_lt (increasing ((ofThread _ isFirst).trans (ofThread _ isSecond).symm))

theorem isWithin_after (summary : Summary) (ordinal : Nat) (ofThread : Bool) (throughOrdinal : Option Nat) :
    (decide (summary.through < ordinal) && (ofThread && isWithin (summary.after none) throughOrdinal ordinal)) =
      (ofThread && (decide (summary.through < ordinal) && throughOrdinal.all fun last => decide (ordinal ≤ last))) := by
  cases isThrough : summary.throughOrdinal with
  | none =>
    simp only [isWithin, Summary.after, isThrough, Option.all_none, Bool.true_and]
    cases ofThread <;> simp
  | some through =>
    simp only [isWithin, Summary.after, Summary.through, isThrough, Option.getD_none, Option.getD_some, Option.all_some, Nat.zero_max]
    cases ofThread <;> cases decide (through < ordinal) <;> simp

/-- A request without a lower bound of its own selects what no summary covers, up to its upper bound. -/
theorem requestSnapshot_eq {thread : Thread} {summary : Summary} {purpose : ContextPurpose} {throughOrdinal : Option Nat}
    {snapshot : RequestSnapshot} (ordinals : OrdinalsInv db)
    (built : requestSnapshot surroundings db thread summary purpose none throughOrdinal = .ok snapshot) :
    snapshot.envelope.summary = summary ∧
      List.Forall₂ (IsEntry db) (messagesWithin db thread.id summary.through throughOrdinal) snapshot.envelope.recentTranscript := by
  simp only [requestSnapshot, ok_bind_iff, pure_eq_ok, Except.ok.injEq] at built
  obtain ⟨documents, isDocuments, reference, -, entries, isEntries, rfl⟩ := built
  refine ⟨rfl, ?_⟩
  rw [sourceDocuments_eq_documentsBy] at isDocuments
  have collected := collectTranscript_eq isEntries fun message member => findDocument_eq isDocuments member
  have selected : selectMessages db thread.id (summary.after none) throughOrdinal = db.messages.filter fun message =>
      message.threadId == thread.id && isWithin (summary.after none) throughOrdinal message.ordinal :=
    byOrdinal_filter ordinals fun message chosen => by simpa using (Bool.and_eq_true_iff.mp chosen).1
  rw [selected, List.filter_filter] at collected
  rwa [messagesWithin, ← List.filter_congr fun message _ => isWithin_after summary message.ordinal (message.threadId == thread.id) throughOrdinal]

end

end Oveo.Context
