import Oveo.Work.History

/-! # What is stored is what was shown

The output of a new version is the text of the visible deliverable, or the old output continued by it. -/

namespace Oveo.Work

open Oveo.Lib Oveo.Docx Oveo.Protocol Oveo.Store

section

variable {settings : Settings} {db db' : Db} {generation : Generation} {thread : Thread}
  {document : ProtocolDocument} {templates : Templates} {ids : FreshIds} {visible : Str} {current : WorkVersion}

/-! ## Texts -/

/-- The text is the response's only deliverable. -/
def IsDeliverable (document : ProtocolDocument) (visible : Str) : Prop :=
  ∃ block, (document.blocks.filter fun block => block.type == .deliverable) = [block] ∧ block.text = visible

theorem singleDeliverable_eq_ok : singleDeliverable document = .ok visible ↔ IsDeliverable document visible := by
  unfold singleDeliverable IsDeliverable
  split
  next block sole =>
    rw [Except.ok.injEq, sole]
    constructor
    · intro same
      exact ⟨block, rfl, same⟩
    · rintro ⟨other, same, isText⟩
      cases same
      exact isText
  next notSole =>
    constructor
    · intro impossible
      cases impossible
    · rintro ⟨block, sole, -⟩
      exact absurd sole (notSole block)

/-- What an `append` stores, of what it shows. -/
structure Appended (state : AppendState) (current : WorkVersion) (visible source output : Str) : Prop where
  source : source = current.sourceText ++ appendSeparator state.sourceSeparator ++ state.sourceAddition
  output : ∃ addition, output = current.outputText ++ appendSeparator state.outputSeparator ++ addition ∧
    (visible = addition ∨ visible = output) ∧ ∀ named, state.outputAddition = some named → addition = named
  unnamed : state.outputAddition = none → ¬ (current.outputText ++ appendSeparator state.outputSeparator) <+: visible

theorem appendTexts_eq_ok {state : AppendState} {source output : Str} (texts : appendTexts current visible state = .ok (source, output)) :
    Appended state current visible source output := by
  have joined {addition : Str}
      (done : (if visible != addition && visible != appendText current.outputText addition state.outputSeparator then
          .error .stateDeliverableMismatch
        else .ok (appendText current.sourceText state.sourceAddition state.sourceSeparator,
          appendText current.outputText addition state.outputSeparator) : Except ProtocolCode (Str × Str)) = .ok (source, output)) :
      source = appendText current.sourceText state.sourceAddition state.sourceSeparator ∧
        output = appendText current.outputText addition state.outputSeparator ∧ (visible = addition ∨ visible = output) := by
    simp only [ite_error_eq_ok, Except.ok.injEq, Prod.mk.injEq, Bool.and_eq_true, bne_iff_ne, not_and_or, ne_eq, not_not] at done
    obtain ⟨shown, rfl, rfl⟩ := done
    exact ⟨rfl, rfl, shown⟩
  simp only [appendTexts, throw_eq_error, pure_eq_ok, error_bind_eq, ok_bind_eq] at texts
  split at texts
  next text named =>
    obtain ⟨isSource, isOutput, shown⟩ := joined texts
    refine { source := isSource, output := ⟨text, isOutput, shown, fun other same => ?_⟩, unnamed := fun impossible => ?_ }
    · exact Option.some.inj (named.symm.trans same)
    · cases named.symm.trans impossible
  next unnamed =>
    rw [ite_error_eq_ok] at texts
    obtain ⟨notPrefix, texts⟩ := texts
    obtain ⟨isSource, isOutput, shown⟩ := joined texts
    refine { source := isSource, output := ⟨visible, isOutput, shown, fun other same => ?_⟩, unnamed := fun _ => ?_ }
    · cases unnamed.symm.trans same
    · rw [← List.isPrefixOf_iff_prefix]
      simpa [appendText] using notPrefix

theorem replaceTexts_eq_ok {state : ReplaceState} {source output : Str} (texts : replaceTexts current visible state = .ok (source, output)) :
    output = visible := by
  simp only [replaceTexts, ok_bind_iff, throw_bind, ite_error_eq_ok, pure_eq_ok, Except.ok.injEq, Prod.mk.injEq] at texts
  obtain ⟨_, -, _, -, same, -, rfl⟩ := texts
  simp only [bne_iff_ne, ne_eq, not_not] at same
  exact same.symm

/-! ## Versions -/

theorem versionOfDraft_texts {itemId versionId : Store.Id} {draft : Draft} {docxBlocks : Option (List DocxBlockReplacement)}
    {version : WorkVersion} (built : versionOfDraft settings generation itemId versionId draft docxBlocks = .ok version) :
    version.sourceText = draft.source ∧ version.outputText = draft.output := by
  simp only [versionOfDraft, ok_bind_iff, throw_bind, ite_error_eq_ok, pure_eq_ok, Except.ok.injEq] at built
  obtain ⟨_, _, _, _, rfl⟩ := built
  exact ⟨rfl, rfl⟩

theorem establishDraft_output {threadId : Store.Id} {state : EstablishState} {draft : Draft}
    (drafted : establishDraft db generation threadId templates visible state = .ok draft) : draft.output = visible := by
  unfold establishDraft at drafted
  dsimp only at drafted
  split at drafted
  next attachment _ =>
    simp only [throw_bind, ite_error_eq_ok, ok_bind_iff, pure_eq_ok, Except.ok.injEq] at drafted
    obtain ⟨-, extracted, -, -, rfl⟩ := drafted
    rfl
  next =>
    simp only [throw_bind, ite_error_eq_ok] at drafted
    obtain ⟨-, drafted⟩ := drafted
    split at drafted
    next => cases drafted
    next =>
      cases drafted
      rfl

theorem baseDraft_texts {operation : BaseOperation} {draft : Draft}
    (drafted : baseDraft db generation templates current visible operation = .ok draft) :
    operation.texts current visible = .ok (draft.source, draft.output) := by
  simp only [baseDraft, throw_bind, ite_error_eq_ok, ok_bind_iff, pure_eq_ok, Except.ok.injEq, Prod.exists] at drafted
  obtain ⟨-, _, _, -, source, output, texts, rfl⟩ := drafted
  exact texts

/-- The version an operation adds, and what it stores of the visible deliverable. -/
def Stored (db : Db) (thread : Thread) (visible : Str) (version : WorkVersion) : StateOperation → Prop
  | .none => False
  | .establish _ | .replace _ | .full _ => version.outputText = visible
  | .append state => ∃ current, latestWorkVersion? db thread.id = some current ∧
      Appended state current visible version.sourceText version.outputText

theorem visible_is_stored (applied : applyStateOperation settings db generation thread document templates ids = .ok db')
    (mutates : document.state.isNone = false) :
    ∃ visible version, IsDeliverable document visible ∧ db'.workVersions = db.workVersions ++ [version] ∧
      Stored db thread visible version document.state := by
  cases applyStateOperation_applied applied with
  | none isNone =>
    rw [isNone] at mutates
    cases mutates
  | @establish state visible draft version item isEstablish shown isItem drafted built =>
    refine ⟨visible, version, singleDeliverable_eq_ok.mp shown, rfl, ?_⟩
    rw [isEstablish]
    exact (versionOfDraft_texts built).2.trans (establishDraft_output drafted)
  | @base visible item current operation draft version shown active latest isBase drafted built =>
    refine ⟨visible, version, singleDeliverable_eq_ok.mp shown, rfl, ?_⟩
    obtain ⟨isSource, isOutput⟩ := versionOfDraft_texts built
    have texts := baseDraft_texts drafted
    cases isState : document.state with
    | none | establish =>
      rw [isState] at isBase
      cases isBase
    | append state =>
      rw [isState] at isBase
      cases isBase
      have isCurrent : latestWorkVersion? db thread.id = some current := by
        simp only [latestWorkVersion?, active, latest]
      have appended := appendTexts_eq_ok texts
      rw [← isSource, ← isOutput] at appended
      exact ⟨current, isCurrent, appended⟩
    | replace state =>
      rw [isState] at isBase
      cases isBase
      exact isOutput.trans (replaceTexts_eq_ok texts)
    | full state =>
      rw [isState] at isBase
      cases isBase
      have same : visible = draft.output := congrArg Prod.snd (Except.ok.inj texts)
      exact isOutput.trans same.symm

def firstVersion : WorkVersion where
  id := 3
  workItemId := 2
  versionNo := 1
  parentVersionId := none
  causeMessageId := none
  operation := .establish
  sourceText := str "a"
  outputText := str "b"
  sourceWordCount := 1
  brief := [(str "k", .null)]
  docxTemplateAttachmentId := none
  docxBlocks := none

/-- A conversation with a work item that has one version. -/
def oneVersion : Db :=
  { Db.empty with
    threads := [⟨1, 1, .translate⟩], workItems := [⟨2, 1, .translation, true⟩], workVersions := [firstVersion] }

def continuing : Generation :=
  { id := 4, threadId := some 1, requesterId := 1, sourceMessageId := some 5, resultMessageId := none, retryOfGenerationId := none,
    clientRequestId := 6, purpose := .chat, status := .running, partialBlocks := [], streamRevision := 0, errorCode := none,
    createdAt := 0 }

/-- The whole work is shown, and the addition is named. -/
def continuation : ProtocolDocument where
  blocks := [⟨.deliverable, str "b\nd"⟩]
  state := .append { baseVersion := 1, sourceAddition := str "c", outputAddition := some (str "d"), sourceSeparator := .space,
                     outputSeparator := .line, brief := none }

theorem visible_is_stored_continuation : ∃ db' visible version,
    applyStateOperation {} oneVersion continuing ⟨1, 1, .translate⟩ continuation (fun _ => none) ⟨7, 8⟩ = .ok db' ∧
      IsDeliverable continuation visible ∧ db'.workVersions = oneVersion.workVersions ++ [version] ∧
      Stored oneVersion ⟨1, 1, .translate⟩ visible version continuation.state := by
  have isOk : (applyStateOperation {} oneVersion continuing ⟨1, 1, .translate⟩ continuation (fun _ => none) ⟨7, 8⟩).isOk = true := by
    decide +kernel
  obtain ⟨db', applied⟩ := exists_of_isOk isOk
  obtain ⟨visible, version, stored⟩ := visible_is_stored applied rfl
  exact ⟨db', visible, version, applied, stored⟩

end

end Oveo.Work
