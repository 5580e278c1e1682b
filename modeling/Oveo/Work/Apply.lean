import Oveo.Store.Rows

/-! # Applying a state operation

`GenerationManager._apply_state_operation` and the functions of `generation.py` it calls:
one hidden canonical mutation, validated and persisted inside the response's commit. -/

namespace Oveo.Work

open Oveo.Lib Oveo.Docx Oveo.Protocol Oveo.Store

/-! ## Text edits -/

/-- `_APPEND_SEPARATORS`. -/
def appendSeparator : AppendSeparator → Str
  | .none => []
  | .space => str " "
  | .line => str "\n"
  | .paragraph => str "\n\n"

/-- `_append_text`; the closed enumeration has no unknown separator. -/
def appendText (base addition : Str) (separator : AppendSeparator) : Str :=
  base ++ appendSeparator separator ++ addition

/-- `text.find(anchor, start)`. -/
def find? (anchor text : Str) (start : Nat) : Option Nat :=
  (splitAtFirst anchor (text.drop start)).map fun (before, _) => start + before.length

def replacementSpan (text anchor : Str) (label : AnchorLabel) : Except ProtocolCode (Nat × Nat) :=
  match find? anchor text 0 with
  | none => .error (.stateMissingAnchor label)
  | some first =>
    -- Search from the next character: an anchor can overlap its own second occurrence.
    match if first + 1 ≤ text.length then find? anchor text (first + 1) else none with
    | some _ => .error (.stateAmbiguousAnchor label)
    | none => .ok (first, first + anchor.length)

structure Edit where
  start : Nat
  stop : Nat
  replacement : Str
deriving DecidableEq, Repr

/-- `any(left[1] > right[0] for left, right in pairwise(ordered))`. -/
def hasOverlap : List Edit → Bool
  | left :: right :: rest => right.start < left.stop || hasOverlap (right :: rest)
  | _ => false

/-- Rewrite one span of the text. -/
def Edit.rewrite (edit : Edit) (text : Str) : Str :=
  text.take edit.start ++ edit.replacement ++ text.drop edit.stop

def applyBaseReplacements (text : Str) (replacements : List (Str × Str)) (label : AnchorLabel) :
    Except ProtocolCode Str := do
  let edits ← replacements.mapM fun (anchor, replacement) => do
    let (start, stop) ← replacementSpan text anchor label
    return ({ start, stop, replacement } : Edit)
  let ordered := edits.mergeSort fun left right => left.start ≤ right.start
  if hasOverlap ordered then throw (.stateOverlappingAnchors label)
  return ordered.reverse.foldl (fun result edit => edit.rewrite result) text

/-! ## Reading the conversation -/

/-- `_single_deliverable`. -/
def singleDeliverable (document : ProtocolDocument) : Except ProtocolCode Str :=
  match document.blocks.filter fun block => block.type == .deliverable with
  | [block] => .ok block.text
  | _ => .error .stateDeliverableCountMismatch

/-- `_own_source_docx`. -/
def ownSourceDocx (db : Db) (generation : Generation) : Option Attachment :=
  match generation.sourceMessageId with
  | none => none
  | some messageId =>
    match db.attachmentOf? messageId with
    | some attachment => if attachment.role = .source then some attachment else none
    | none => none

/-- The row with the largest key; the first of several. -/
def latestBy {Row : Type} (key : Row → Nat) : List Row → Option Row
  | [] => none
  | row :: rows =>
    match latestBy key rows with
    | some other => if key row < key other then some other else some row
    | none => some row

/-- `_latest_source_docx`: the conversation's most recent source document. -/
def latestSourceDocx (db : Db) (threadId : Id) : Option Attachment :=
  let candidates := db.attachments.filterMap fun attachment =>
    match db.message? attachment.messageId with
    | some message =>
      if message.threadId = threadId ∧ attachment.role = .source then some (message.ordinal, attachment)
      else none
    | none => none
  (latestBy Prod.fst candidates).map Prod.snd

/-- The thread's active work item. -/
def activeItem? (db : Db) (threadId : Id) : Option WorkItem :=
  db.workItems.find? fun item => item.threadId == threadId && item.active

/-- The versions of one work item, in insertion order. -/
def versionsOf (db : Db) (itemId : Id) : List WorkVersion :=
  db.workVersions.filter fun version => version.workItemId == itemId

def latestVersionOf? (db : Db) (itemId : Id) : Option WorkVersion :=
  latestBy WorkVersion.versionNo (versionsOf db itemId)

/-- `latest_work_version`: the newest version of the conversation's active work item. -/
def latestWorkVersion? (db : Db) (threadId : Id) : Option WorkVersion :=
  match activeItem? db threadId with
  | some item => latestVersionOf? db item.id
  | none => none

/-- The DOCX templates already parsed for this response, by attachment. -/
abbrev Templates := Id → Option ExtractedDocx

/-- `_prepared_template`. -/
def preparedTemplate (templates : Templates) (attachmentId : Id) : Except ProtocolCode ExtractedDocx :=
  match templates attachmentId with
  | some extracted => .ok extracted
  | none => .error .stateDocxTemplateMissing

/-- `_template_attachment`: the document a state mutation is checked against, if any. -/
def templateAttachment (db : Db) (generation : Generation) (state : StateOperation) :
    Except ProtocolCode (Option Attachment) :=
  match generation.threadId with
  | none => .ok none
  | some threadId =>
    match state with
    | .none => .ok none
    | .establish establish =>
      match ownSourceDocx db generation with
      | some attachment => .ok (some attachment)
      | none => .ok (if establish.docxBlocks.isSome then latestSourceDocx db threadId else none)
    | _ =>
      match (latestWorkVersion? db threadId).bind WorkVersion.docxTemplateAttachmentId with
      | none => .ok none
      | some attachmentId =>
        match db.attachment? attachmentId with
        | none => .error .stateDocxTemplateMissing
        | some attachment => .ok (some attachment)

/-- `_load_docx_template`, from the blocks the stored file parses to, or the code the read
failed with.  The blocks must still be the map stored with the attachment. -/
def loadDocxTemplate (parsed : Except ProtocolCode (List DocxBlock)) (attachment : Attachment) :
    Except ProtocolCode ExtractedDocx := do
  let blocks ← parsed
  match extractedDocx blocks with
  | .error _ => throw .stateDocxTemplateInvalid
  | .ok extracted =>
    match requireMatchingBlocks extracted.blocks attachment.documentBlocks with
    | .ok _ => return extracted
    | .error error =>
      if error.code = .docxTemplateOutdated then throw .stateDocxTemplateOutdated
      else throw .stateDocxTemplateInvalid

/-- `_prepare_docx_templates`: the template a mutation needs, read before its transaction. -/
def prepareDocxTemplates (parsed : Except ProtocolCode (List DocxBlock)) (db : Db) (generationId : Id)
    (state : StateOperation) : Except ProtocolCode Templates :=
  match db.generation? generationId with
  | none => .ok fun _ => none
  | some generation =>
    if generation.purpose ≠ .chat ∨ generation.threadId.isNone then .ok fun _ => none
    else do
      match ← templateAttachment db generation state with
      | none => return fun _ => none
      | some attachment =>
        let extracted ← loadDocxTemplate parsed attachment
        return fun id => if id = attachment.id then some extracted else none

/-! ## The operation -/

/-- What an operation derives before the document and canonical checks. -/
structure Draft where
  operation : Operation
  versionNo : Nat
  parentVersionId : Option Id
  source : Str
  output : Str
  brief : Brief
  docxTemplateAttachmentId : Option Id
  templateBlocks : Option (List DocxBlock)

/-- The `establish` branch. -/
def establishDraft (db : Db) (generation : Generation) (threadId : Id) (templates : Templates)
    (visible : Str) (state : EstablishState) : Except ProtocolCode Draft :=
  let establishDocx :=
    match ownSourceDocx db generation with
    | some attachment => some attachment
    | none => if state.docxBlocks.isSome then latestSourceDocx db threadId else none
  match establishDocx with
  | some attachment => do
    if state.docxBlocks.isNone then throw .stateDocxBlocksMissing
    let extracted ← preparedTemplate templates attachment.id
    -- The upload is the source. A redundant copy is accepted only if exact.
    if state.source.isSome && state.source != some extracted.plainText then
      throw .stateDocxSourceMismatch
    return { operation := .establish, versionNo := 1, parentVersionId := none,
             source := extracted.plainText, output := visible, brief := state.brief,
             docxTemplateAttachmentId := some attachment.id, templateBlocks := some extracted.blocks }
  | none => do
    -- A block map with no Word document in the conversation.
    if state.docxBlocks.isSome then throw .stateDocxBlocksUnexpected
    match state.source with
    | none => throw .stateSourceMissing
    | some source =>
      return { operation := .establish, versionNo := 1, parentVersionId := none,
               source, output := visible, brief := state.brief,
               docxTemplateAttachmentId := none, templateBlocks := none }

/-- The checks every later operation makes on its base, with the template it keeps. -/
def baseTemplate (db : Db) (generation : Generation) (templates : Templates) (current : WorkVersion)
    (isAppend : Bool) (docxBlocks : Option (List DocxBlockReplacement)) :
    Except ProtocolCode (Option Id × Option (List DocxBlock)) := do
  let currentHasDocx := current.docxTemplateAttachmentId.isSome
  if currentHasDocx != current.docxBlocks.isSome then throw .stateDocxBaseInvalid
  -- A new uploaded Word document establishes a new immutable template.
  if (ownSourceDocx db generation).isSome then throw .stateDocxRequiresEstablish
  match current.docxTemplateAttachmentId with
  | some attachmentId =>
    if isAppend then throw .stateDocxAppendUnsupported
    if docxBlocks.isNone then throw .stateDocxBlocksMissing
    let extracted ← preparedTemplate templates attachmentId
    return (some attachmentId, some extracted.blocks)
  | none =>
    if docxBlocks.isSome then throw .stateDocxBlocksUnexpected
    return (none, none)

/-- The texts of an `append`: the joined source and the joined output. -/
def appendTexts (current : WorkVersion) (visible : Str) (state : AppendState) :
    Except ProtocolCode (Str × Str) := do
  let source := appendText current.sourceText state.sourceAddition state.sourceSeparator
  let addition ←
    match state.outputAddition with
    | some addition => pure addition
    | none =>
      -- A complete joined document without the named addition would be appended to itself.
      if (appendText current.outputText [] state.outputSeparator).isPrefixOf visible then
        throw .stateOutputAdditionMissing
      else pure visible
  let output := appendText current.outputText addition state.outputSeparator
  if visible != addition && visible != output then throw .stateDeliverableMismatch
  return (source, output)

/-- The source pairs and the output pairs of a `replace`. -/
def replacementPairs (replacements : List ExactReplacement) : List (Str × Str) × List (Str × Str) :=
  (replacements.filterMap fun
      | .sourceOutput sourceAnchor sourceReplacement _ _ => some (sourceAnchor, sourceReplacement)
      | .output _ _ => none,
    replacements.map fun
      | .sourceOutput _ _ outputAnchor outputReplacement => (outputAnchor, outputReplacement)
      | .output outputAnchor outputReplacement => (outputAnchor, outputReplacement))

def replaceTexts (current : WorkVersion) (visible : Str) (state : ReplaceState) :
    Except ProtocolCode (Str × Str) := do
  let (sourceReplacements, outputReplacements) := replacementPairs state.replacements
  let source ← applyBaseReplacements current.sourceText sourceReplacements .source
  let output ← applyBaseReplacements current.outputText outputReplacements .output
  if visible != output then throw .stateDeliverableMismatch
  return (source, output)

/-- An operation on a base version. -/
structure BaseOperation where
  operation : Operation
  baseVersion : Nat
  isAppend : Bool
  brief : Option Brief
  docxBlocks : Option (List DocxBlockReplacement)
  /-- Derives source and output from the current version and the visible deliverable. -/
  texts : WorkVersion → Str → Except ProtocolCode (Str × Str)

/-- What the three operations on a base hand to the common part of the function. -/
def baseOperation? : StateOperation → Option BaseOperation
  | .none | .establish _ => none
  | .append state => some
    { operation := .append, baseVersion := state.baseVersion, isAppend := true, brief := state.brief,
      docxBlocks := none, texts := fun current visible => appendTexts current visible state }
  | .replace state => some
    { operation := .replace, baseVersion := state.baseVersion, isAppend := false, brief := state.brief,
      docxBlocks := state.docxBlocks, texts := fun current visible => replaceTexts current visible state }
  | .full state => some
    { operation := .full, baseVersion := state.baseVersion, isAppend := false, brief := state.brief,
      docxBlocks := state.docxBlocks,
      texts := fun current visible => .ok (state.source.getD current.sourceText, visible) }

/-- The branch of `append`, `replace` and `full`. -/
def baseDraft (db : Db) (generation : Generation) (templates : Templates) (current : WorkVersion)
    (visible : Str) (operation : BaseOperation) : Except ProtocolCode Draft := do
  if operation.baseVersion ≠ current.versionNo then throw .stateBaseMismatch
  let (attachmentId, templateBlocks) ←
    baseTemplate db generation templates current operation.isAppend operation.docxBlocks
  let (source, output) ← operation.texts current visible
  return { operation := operation.operation, versionNo := current.versionNo + 1,
           parentVersionId := some current.id, source, output,
           brief := operation.brief.getD current.brief,
           docxTemplateAttachmentId := attachmentId, templateBlocks }

/-- The stored block map of a draft, checked against its template. -/
def draftBlocks (draft : Draft) (docxBlocks : Option (List DocxBlockReplacement)) :
    Except ProtocolCode (Option (List DocxReplacement)) :=
  match draft.templateBlocks with
  | none => .ok none
  | some templateBlocks =>
    let replacements := (docxBlocks.getD []).map fun block => (⟨block.id, block.text⟩ : DocxReplacement)
    match plainTextFromReplacements templateBlocks (replacements.map .replacement) with
    | .error error => .error (.docx error.code)
    | .ok docxOutput =>
      if draft.output ≠ docxOutput then .error .stateDocxOutputMismatch else .ok (some replacements)

/-- The settings the work history depends on. -/
structure Settings where
  maxSourceWords : Nat := 25000
  maxReferenceWords : Nat := 25000

/-- The checks on the canonical state and the row they allow. -/
def versionOfDraft (settings : Settings) (generation : Generation) (itemId versionId : Id) (draft : Draft)
    (docxBlocks : Option (List DocxBlockReplacement)) : Except ProtocolCode WorkVersion := do
  let stored ← draftBlocks draft docxBlocks
  if isBlank draft.source || isBlank draft.output || draft.brief.isEmpty then
    throw .invalidCanonicalState
  let sourceWordCount := countWords draft.source
  if settings.maxSourceWords < sourceWordCount then throw .stateSourceWordLimit
  return { id := versionId, workItemId := itemId, versionNo := draft.versionNo,
           parentVersionId := draft.parentVersionId, causeMessageId := generation.sourceMessageId,
           operation := draft.operation, sourceText := draft.source, outputText := draft.output,
           sourceWordCount, brief := draft.brief,
           docxTemplateAttachmentId := draft.docxTemplateAttachmentId, docxBlocks := stored }

/-- `item.active = False` for the active item that was found, then the new active one. -/
def replaceActiveItem (db : Db) (item : WorkItem) : Db :=
  let others :=
    match activeItem? db item.threadId with
    | some found =>
      db.workItems.map fun other => if other.id = found.id then { other with active := false } else other
    | none => db.workItems
  { db with workItems := others ++ [item] }

def addVersion (db : Db) (version : WorkVersion) : Db :=
  { db with workVersions := db.workVersions ++ [version] }

/-- The ids `new_id()` gives the rows of one operation. -/
structure FreshIds where
  workItemId : Id
  versionId : Id

def applyStateOperation (settings : Settings) (db : Db) (generation : Generation) (thread : Thread)
    (document : ProtocolDocument) (templates : Templates) (ids : FreshIds) : Except ProtocolCode Db :=
  match document.state with
  | .none => .ok db
  | .establish state => do
    let visible ← singleDeliverable document
    let item : WorkItem :=
      { id := ids.workItemId, threadId := thread.id, kind := workKinds thread.mode, active := true }
    let draft ← establishDraft db generation thread.id templates visible state
    let version ← versionOfDraft settings generation item.id ids.versionId draft state.docxBlocks
    return addVersion (replaceActiveItem db item) version
  | state => do
    let visible ← singleDeliverable document
    match activeItem? db thread.id with
    | none => throw .stateBaseMissing
    | some item =>
      match latestVersionOf? db item.id, baseOperation? state with
      | some current, some operation =>
        let draft ← baseDraft db generation templates current visible operation
        let version ← versionOfDraft settings generation item.id ids.versionId draft operation.docxBlocks
        return addVersion db version
      | _, _ => throw .stateBaseMissing

end Oveo.Work
