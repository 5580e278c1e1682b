import Oveo.Docx.Storage
import Oveo.Work.Frame

/-! # The history of work versions

`WorkInv` is what the work tables satisfy after any sequence of state operations: the newest
item of a conversation is its only active one, the versions of an item form a chain, and every
version is canonical on its own. -/

namespace Oveo.Work

open Oveo.Lib Oveo.Docx Oveo.Protocol Oveo.Store

/-! ## The invariant -/

/-- The work items of a conversation, in the order they were established. -/
def itemsOf (db : Db) (threadId : Store.Id) : List WorkItem :=
  db.workItems.filter fun item => item.threadId == threadId

/-- The versions of one item: numbered from 1, each after the one that is its parent, all with
one template. -/
structure Chain (versions : List WorkVersion) : Prop where
  numbered : ∀ i version, versions[i]? = some version → version.versionNo = i + 1
  first : ∀ version, versions[0]? = some version → version.parentVersionId = none
  parents : ∀ i version parent, versions[i + 1]? = some version → versions[i]? = some parent →
    version.parentVersionId = some parent.id
  template : ∀ first ∈ versions, ∀ second ∈ versions,
    first.docxTemplateAttachmentId = second.docxTemplateAttachmentId

/-- The stored blocks are the template's, in order, with its links, and read as the output. -/
structure DocumentKept (db : Db) (attachmentId : Store.Id) (stored : List DocxReplacement) (output : Str) : Prop where
  blocks : ∃ attachment ∈ db.attachments, attachment.id = attachmentId ∧
    ∃ template, docxBlocksFromStorage attachment.documentBlocks = .ok template ∧
      stored.map DocxReplacement.id = template.map DocxBlock.id ∧
      ∃ linkIds, linkIdsOf (template.map DocxBlock.text) = .ok linkIds ∧
        linkIdsOf (stored.map DocxReplacement.text) = .ok linkIds ∧ linkIds.Nodup
  once : (stored.map DocxReplacement.id).Nodup
  output : plainTextFromValidated stored = .ok output

structure VersionInv (settings : Settings) (db : Db) (version : WorkVersion) : Prop where
  source : isBlank version.sourceText = false
  output : isBlank version.outputText = false
  brief : version.brief ≠ []
  words : version.sourceWordCount = countWords version.sourceText
  limit : version.sourceWordCount ≤ settings.maxSourceWords
  paired : version.docxTemplateAttachmentId.isSome = version.docxBlocks.isSome
  document : ∀ attachmentId stored, version.docxTemplateAttachmentId = some attachmentId →
    version.docxBlocks = some stored → DocumentKept db attachmentId stored version.outputText

structure WorkInv (settings : Settings) (db : Db) : Prop where
  lastActive : ∀ threadId, (itemsOf db threadId).filter WorkItem.active = (itemsOf db threadId).getLast?.toList
  established : ∀ item ∈ db.workItems, versionsOf db item.id ≠ []
  items : ∀ version ∈ db.workVersions, version.workItemId ∈ db.workItems.map WorkItem.id
  chains : ∀ itemId, Chain (versionsOf db itemId)
  versions : ∀ version ∈ db.workVersions, VersionInv settings db version

theorem chain_nil : Chain [] := by
  constructor <;> simp

theorem workInv_empty (settings : Settings) : WorkInv settings Db.empty := by
  constructor <;> simp [Db.empty, itemsOf, versionsOf, chain_nil]

/-! ## Chains -/

/-- A version that names the last one as its parent continues the chain. -/
theorem Chain.append {versions : List WorkVersion} {version : WorkVersion} (chain : Chain versions)
    (number : version.versionNo = versions.length + 1)
    (parent : version.parentVersionId = versions.getLast?.map WorkVersion.id)
    (template : ∀ current ∈ versions, version.docxTemplateAttachmentId = current.docxTemplateAttachmentId) :
    Chain (versions ++ [version]) := by
  constructor
  case numbered =>
    intro i other found
    rcases Nat.lt_trichotomy i versions.length with inside | rfl | outside
    · rw [List.getElem?_append_left inside] at found
      exact chain.numbered i other found
    · simp only [List.getElem?_concat_length, Option.some.injEq] at found
      exact found ▸ number
    · rw [List.getElem?_eq_none (by simp only [List.length_append, List.length_singleton]; omega)] at found
      cases found
  case first =>
    intro other found
    cases versions with
    | nil =>
      simp only [List.nil_append, List.getElem?_cons_zero, Option.some.injEq] at found
      exact found ▸ parent
    | cons head tail => exact chain.first other (by simpa using found)
  case parents =>
    intro i other before found foundBefore
    rcases Nat.lt_trichotomy (i + 1) versions.length with inside | last | outside
    · rw [List.getElem?_append_left inside] at found
      rw [List.getElem?_append_left (by omega)] at foundBefore
      exact chain.parents i other before found foundBefore
    · rw [last, List.getElem?_concat_length, Option.some.injEq] at found
      rw [List.getElem?_append_left (by omega)] at foundBefore
      have isLast : versions.getLast? = some before := by
        rw [List.getLast?_eq_getElem?, ← last]
        exact foundBefore
      rw [← found, parent, isLast, Option.map_some]
    · rw [List.getElem?_eq_none (by simp only [List.length_append, List.length_singleton]; omega)] at found
      cases found
  case template =>
    intro left leftMember right rightMember
    rcases List.mem_append.mp leftMember with leftOld | leftNew <;>
      rcases List.mem_append.mp rightMember with rightOld | rightNew
    · exact chain.template left leftOld right rightOld
    · rw [List.mem_singleton.mp rightNew]
      exact (template left leftOld).symm
    · rw [List.mem_singleton.mp leftNew]
      exact template right rightOld
    · rw [List.mem_singleton.mp leftNew, List.mem_singleton.mp rightNew]

theorem chain_singleton {version : WorkVersion} (number : version.versionNo = 1)
    (parent : version.parentVersionId = none) : Chain [version] :=
  chain_nil.append number parent fun _ member => nomatch member

theorem latestBy_mem {Row : Type} {key : Row → Nat} {rows : List Row} {row : Row}
    (latest : latestBy key rows = some row) : row ∈ rows := by
  induction rows generalizing row with
  | nil => cases latest
  | cons head rows inductionHypothesis =>
    simp only [latestBy] at latest
    split at latest
    next other found =>
      split at latest <;> cases latest
      · exact List.mem_cons_of_mem _ (inductionHypothesis found)
      · exact List.mem_cons_self
    next =>
      cases latest
      exact List.mem_cons_self

theorem latestBy_isSome {Row : Type} (key : Row → Nat) {rows : List Row} (nonempty : rows ≠ []) :
    (latestBy key rows).isSome = true := by
  cases rows with
  | nil => exact absurd rfl nonempty
  | cons head rows =>
    simp only [latestBy]
    split
    · split <;> rfl
    · rfl

theorem le_latestBy {Row : Type} {key : Row → Nat} {rows : List Row} {latest row : Row}
    (found : latestBy key rows = some latest) (member : row ∈ rows) : key row ≤ key latest := by
  induction rows generalizing latest row with
  | nil => cases member
  | cons head rows inductionHypothesis =>
    simp only [latestBy] at found
    split at found
    next other foundTail =>
      split at found
      next older =>
        cases found
        rcases List.mem_cons.mp member with rfl | member
        · exact Nat.le_of_lt older
        · exact inductionHypothesis foundTail member
      next notOlder =>
        cases found
        rcases List.mem_cons.mp member with rfl | member
        · exact Nat.le_refl _
        · exact Nat.le_trans (inductionHypothesis foundTail member) (Nat.le_of_not_lt notOlder)
    next missing =>
      cases found
      cases rows with
      | nil => rw [List.mem_singleton.mp member]
      | cons second rows => simp [Option.isSome_iff_ne_none.mp (latestBy_isSome key (List.cons_ne_nil second rows))] at missing

/-- In a chain the highest version number is the last version. -/
theorem Chain.latest {versions : List WorkVersion} (chain : Chain versions) :
    latestBy WorkVersion.versionNo versions = versions.getLast? := by
  cases versions with
  | nil => rfl
  | cons head tail =>
    obtain ⟨latest, found⟩ := Option.isSome_iff_exists.mp
      (latestBy_isSome WorkVersion.versionNo (List.cons_ne_nil head tail))
    rw [found]
    obtain ⟨i, bound, atIndex⟩ := List.mem_iff_getElem.mp (latestBy_mem found)
    have number := chain.numbered i latest (by rw [List.getElem?_eq_getElem bound, atIndex])
    -- The last version has the largest number there is, so it is the latest one.
    obtain ⟨last, lastEq⟩ : ∃ last, (head :: tail)[tail.length]? = some last :=
      ⟨_, List.getElem?_eq_getElem (by simp)⟩
    have lastNumber := chain.numbered tail.length last lastEq
    have bounded := le_latestBy found (List.mem_of_getElem? lastEq)
    simp only [List.length_cons] at bound
    have atLast : i = tail.length := by omega
    subst atLast
    rw [List.getLast?_eq_getElem?]
    simp only [List.length_cons, Nat.add_sub_cancel]
    rw [List.getElem?_eq_getElem bound, atIndex]

/-! ## Drafts -/

section

variable {settings : Settings} {db db' : Db} {generation : Generation} {templates : Templates}

/-- Every prepared template is the stored block map of an attachment. -/
def TemplatesInv (db : Db) (templates : Templates) : Prop :=
  ∀ attachmentId extracted, templates attachmentId = some extracted →
    ∃ attachment ∈ db.attachments, attachment.id = attachmentId ∧
      docxBlocksFromStorage attachment.documentBlocks = .ok extracted.blocks

/-- A draft either has no template or the blocks of a stored one. -/
def DraftInv (db : Db) (attachmentId : Option Store.Id) (templateBlocks : Option (List DocxBlock)) : Prop :=
  (attachmentId = none ∧ templateBlocks = none) ∨
    ∃ id blocks, attachmentId = some id ∧ templateBlocks = some blocks ∧
      ∃ attachment ∈ db.attachments, attachment.id = id ∧ docxBlocksFromStorage attachment.documentBlocks = .ok blocks

theorem preparedTemplate_ok {attachmentId : Store.Id} {extracted : ExtractedDocx} (prepared : TemplatesInv db templates)
    (found : preparedTemplate templates attachmentId = .ok extracted) :
    DraftInv db (some attachmentId) (some extracted.blocks) := by
  unfold preparedTemplate at found
  split at found
  next held =>
    cases found
    exact .inr ⟨attachmentId, extracted.blocks, rfl, rfl, prepared attachmentId extracted held⟩
  next => cases found

theorem establishDraft_ok {threadId : Store.Id} {visible : Str} {state : EstablishState} {draft : Draft}
    (prepared : TemplatesInv db templates)
    (drafted : establishDraft db generation threadId templates visible state = .ok draft) :
    draft.versionNo = 1 ∧ draft.parentVersionId = none ∧
      DraftInv db draft.docxTemplateAttachmentId draft.templateBlocks := by
  unfold establishDraft at drafted
  dsimp only at drafted
  split at drafted
  next attachment _ =>
    simp only [throw_bind, ite_error_eq_ok, ok_bind_iff, pure_eq_ok, Except.ok.injEq] at drafted
    obtain ⟨-, extracted, found, -, rfl⟩ := drafted
    exact ⟨rfl, rfl, preparedTemplate_ok prepared found⟩
  next =>
    simp only [throw_bind, ite_error_eq_ok] at drafted
    obtain ⟨-, drafted⟩ := drafted
    split at drafted
    next => cases drafted
    next =>
      cases drafted
      exact ⟨rfl, rfl, .inl ⟨rfl, rfl⟩⟩

theorem baseTemplate_ok {current : WorkVersion} {isAppend : Bool} {docxBlocks : Option (List DocxBlockReplacement)}
    {attachmentId : Option Store.Id} {templateBlocks : Option (List DocxBlock)} (prepared : TemplatesInv db templates)
    (kept : baseTemplate db generation templates current isAppend docxBlocks = .ok (attachmentId, templateBlocks)) :
    attachmentId = current.docxTemplateAttachmentId ∧ DraftInv db attachmentId templateBlocks := by
  unfold baseTemplate at kept
  simp only [throw_bind, ite_error_eq_ok] at kept
  obtain ⟨-, -, kept⟩ := kept
  split at kept
  next id held =>
    simp only [ite_error_eq_ok, ok_bind_iff, pure_eq_ok, Except.ok.injEq, Prod.mk.injEq] at kept
    obtain ⟨-, -, extracted, found, rfl, rfl⟩ := kept
    exact ⟨held.symm, preparedTemplate_ok prepared found⟩
  next held =>
    simp only [ite_error_eq_ok, pure_eq_ok, Except.ok.injEq, Prod.mk.injEq] at kept
    obtain ⟨-, rfl, rfl⟩ := kept
    exact ⟨held.symm, .inl ⟨rfl, rfl⟩⟩

theorem baseDraft_ok {current : WorkVersion} {visible : Str} {operation : BaseOperation} {draft : Draft}
    (prepared : TemplatesInv db templates)
    (drafted : baseDraft db generation templates current visible operation = .ok draft) :
    operation.baseVersion = current.versionNo ∧ draft.versionNo = current.versionNo + 1 ∧
      draft.parentVersionId = some current.id ∧
      draft.docxTemplateAttachmentId = current.docxTemplateAttachmentId ∧
      DraftInv db draft.docxTemplateAttachmentId draft.templateBlocks := by
  simp only [baseDraft, throw_bind, ite_error_eq_ok, ok_bind_iff, pure_eq_ok, Except.ok.injEq, Prod.exists, ne_eq,
    not_not] at drafted
  obtain ⟨sameBase, attachmentId, templateBlocks, kept, source, output, _, rfl⟩ := drafted
  obtain ⟨sameTemplate, draftInv⟩ := baseTemplate_ok prepared kept
  exact ⟨sameBase, rfl, rfl, sameTemplate, draftInv⟩

theorem draftBlocks_ok {draft : Draft} {docxBlocks : Option (List DocxBlockReplacement)}
    {stored : Option (List DocxReplacement)}
    (draftInv : DraftInv db draft.docxTemplateAttachmentId draft.templateBlocks)
    (built : draftBlocks draft docxBlocks = .ok stored) :
    draft.docxTemplateAttachmentId.isSome = stored.isSome ∧
      ∀ attachmentId blocks, draft.docxTemplateAttachmentId = some attachmentId → stored = some blocks →
        DocumentKept db attachmentId blocks draft.output := by
  unfold draftBlocks at built
  rcases draftInv with ⟨noId, noBlocks⟩ | ⟨id, template, isId, isTemplate, attachment, member, sameId, restored⟩
  · simp only [noBlocks, Except.ok.injEq] at built
    subst built
    simp [noId]
  · simp only [isTemplate] at built
    split at built
    next => cases built
    next docxOutput accepted =>
      simp only [ite_error_eq_ok, Except.ok.injEq, ne_eq, not_not] at built
      obtain ⟨sameOutput, rfl⟩ := built
      refine ⟨by simp [isId], fun attachmentId blocks isAttachment isStored => ?_⟩
      rw [isId, Option.some.injEq] at isAttachment
      simp only [Option.some.injEq] at isStored
      obtain ⟨sameIds, ⟨linkIds, templateLinks, storedLinks⟩, plain⟩ := plainTextFromReplacements_ok accepted
      obtain ⟨templateOnce, linkIds', templateLinks', linksOnce⟩ := docxBlocksFromStorage_ok restored
      rw [templateLinks, Except.ok.injEq] at templateLinks'
      subst isAttachment isStored templateLinks'
      exact
        { blocks := ⟨attachment, member, sameId, template, restored, sameIds, linkIds, templateLinks, storedLinks, linksOnce⟩
          once := sameIds ▸ templateOnce
          output := sameOutput ▸ plain }

/-- The row a draft becomes is canonical and keeps the draft's place in the history. -/
theorem versionOfDraft_ok {itemId versionId : Store.Id} {draft : Draft}
    {docxBlocks : Option (List DocxBlockReplacement)} {version : WorkVersion}
    (draftInv : DraftInv db draft.docxTemplateAttachmentId draft.templateBlocks)
    (built : versionOfDraft settings generation itemId versionId draft docxBlocks = .ok version) :
    VersionInv settings db version ∧ version.versionNo = draft.versionNo ∧
      version.parentVersionId = draft.parentVersionId ∧
      version.docxTemplateAttachmentId = draft.docxTemplateAttachmentId := by
  simp only [versionOfDraft, throw_bind, ite_error_eq_ok, ok_bind_iff, pure_eq_ok, Except.ok.injEq] at built
  obtain ⟨stored, blocks, canonical, limit, rfl⟩ := built
  obtain ⟨paired, document⟩ := draftBlocks_ok draftInv blocks
  simp only [Bool.or_eq_true, not_or, Bool.not_eq_true, List.isEmpty_eq_false_iff] at canonical
  exact ⟨⟨canonical.1.1, canonical.1.2, canonical.2, rfl, Nat.le_of_not_lt limit, paired, document⟩, rfl, rfl, rfl⟩

/-! ## Items -/

theorem VersionInv.mono {version : WorkVersion} (invariant : VersionInv settings db version)
    (attachments : ∀ attachment ∈ db.attachments, attachment ∈ db'.attachments) : VersionInv settings db' version := by
  refine { invariant with document := fun attachmentId stored isTemplate isStored => ?_ }
  have kept := invariant.document attachmentId stored isTemplate isStored
  obtain ⟨attachment, member, rest⟩ := kept.blocks
  exact { kept with blocks := ⟨attachment, attachments attachment member, rest⟩ }

/-- The active item of a conversation is the one established last. -/
theorem WorkInv.activeItem (invariant : WorkInv settings db) (threadId : Store.Id) :
    activeItem? db threadId = (itemsOf db threadId).getLast? := by
  have sole := invariant.lastActive threadId
  rw [itemsOf, List.filter_filter] at sole
  have swap : db.workItems.filter (fun item => item.active && item.threadId == threadId) =
      db.workItems.filter fun item => item.threadId == threadId && item.active :=
    List.filter_congr fun item _ => Bool.and_comm _ _
  rw [activeItem?, ← List.head?_filter, ← swap, sole, itemsOf]
  cases ((db.workItems.filter fun item => item.threadId == threadId).getLast?) <;> rfl

/-- Only the item found active is changed when a new one takes its place. -/
theorem replaceActiveItem_items (itemIds : (db.workItems.map WorkItem.id).Nodup) (item : WorkItem) :
    ∃ change : WorkItem → WorkItem,
      (replaceActiveItem db item).workItems = db.workItems.map change ++ [item] ∧
        (∀ other, (change other).id = other.id ∧ (change other).threadId = other.threadId) ∧
        (∀ other ∈ db.workItems, other.threadId ≠ item.threadId → change other = other) ∧
        ∀ found, activeItem? db item.threadId = some found → (change found).active = false ∧
          ∀ other ∈ db.workItems, other ≠ found → change other = other := by
  cases search : activeItem? db item.threadId with
  | none =>
    refine ⟨id, by simp [replaceActiveItem, search], fun _ => ⟨rfl, rfl⟩, fun _ _ _ => rfl, ?_⟩
    rintro found impossible
    cases impossible
  | some found =>
    have foundMember : found ∈ db.workItems := List.mem_of_find?_eq_some search
    have foundThread : found.threadId = item.threadId := by
      have held := List.find?_some search
      simp only [Bool.and_eq_true, beq_iff_eq] at held
      exact held.1
    have unchanged : ∀ other ∈ db.workItems, other ≠ found →
        (if other.id = found.id then { other with active := false } else other) = other := by
      intro other member different
      rw [if_neg]
      exact fun sameId => different (List.inj_on_of_nodup_map itemIds member foundMember sameId)
    refine ⟨fun other => if other.id = found.id then { other with active := false } else other,
      by simp [replaceActiveItem, search], ?_, ?_, ?_⟩
    · intro other
      by_cases same : other.id = found.id <;> simp [same]
    · exact fun other member different => unchanged other member fun same => different (same ▸ foundThread)
    · intro other equal
      obtain rfl := Option.some.inj equal
      exact ⟨by simp, unchanged⟩

theorem WorkInv.replaceActiveItem_lastActive (invariant : WorkInv settings db)
    (itemIds : (db.workItems.map WorkItem.id).Nodup) {item : WorkItem} (active : item.active = true)
    (threadId : Store.Id) : (itemsOf (replaceActiveItem db item) threadId).filter WorkItem.active =
      (itemsOf (replaceActiveItem db item) threadId).getLast?.toList := by
  obtain ⟨change, items, sameKeys, otherThreads, deactivated⟩ := replaceActiveItem_items itemIds item
  have sameItems : itemsOf (replaceActiveItem db item) threadId =
      (itemsOf db threadId).map change ++ [item].filter fun item => item.threadId == threadId := by
    rw [itemsOf, items, List.filter_append, List.filter_map]
    congr 2
    exact List.filter_congr fun other _ => by simp [(sameKeys other).2]
  have old := invariant.lastActive threadId
  by_cases here : item.threadId = threadId
  · -- The item found active was the only one of this conversation.
    subst here
    have inactive : ((itemsOf db item.threadId).map change).filter WorkItem.active = [] := by
      rw [List.filter_eq_nil_iff]
      rintro changed changedMember
      obtain ⟨other, member, rfl⟩ := List.mem_map.mp changedMember
      have inDb := (List.mem_filter.mp member).1
      cases search : activeItem? db item.threadId with
      | none =>
        rw [← invariant.activeItem, search] at old
        have noItems : itemsOf db item.threadId = [] := by
          rw [invariant.activeItem, List.getLast?_eq_none_iff] at search
          exact search
        rw [noItems] at member
        cases member
      | some found =>
        obtain ⟨foundInactive, others⟩ := deactivated found search
        by_cases same : other = found
        · simp [same, foundInactive]
        · rw [others other inDb same]
          intro otherActive
          have alsoActive : other ∈ (itemsOf db item.threadId).filter WorkItem.active :=
            List.mem_filter.mpr ⟨member, otherActive⟩
          rw [old, ← invariant.activeItem, search] at alsoActive
          exact same (by simpa using alsoActive)
    rw [sameItems, List.filter_append, inactive]
    simp [active]
  · have unchanged : (itemsOf db threadId).map change = itemsOf db threadId := by
      conv => rhs; rw [← List.map_id (itemsOf db threadId)]
      apply List.map_congr_left
      intro other member
      obtain ⟨inDb, inThread⟩ := List.mem_filter.mp member
      refine otherThreads other inDb fun sameThread => here ?_
      rw [← sameThread]
      simpa using inThread
    have noItem : [item].filter (fun item => item.threadId == threadId) = [] := by simp [here]
    rw [sameItems, unchanged, noItem, List.append_nil]
    exact old

/-- Only the work tables and the attachments matter. -/
theorem WorkInv.mono (invariant : WorkInv settings db) (items : db'.workItems = db.workItems)
    (versions : db'.workVersions = db.workVersions)
    (attachments : ∀ attachment ∈ db.attachments, attachment ∈ db'.attachments) : WorkInv settings db' := by
  have sameItems : itemsOf db' = itemsOf db := by
    funext threadId
    rw [itemsOf, items, itemsOf]
  have sameVersions : versionsOf db' = versionsOf db := by
    funext itemId
    rw [versionsOf, versions, versionsOf]
  constructor
  case lastActive => rw [sameItems]; exact invariant.lastActive
  case established => rw [items, sameVersions]; exact invariant.established
  case items => rw [items, versions]; exact invariant.items
  case chains => rw [sameVersions]; exact invariant.chains
  case versions =>
    rw [versions]
    exact fun version member => (invariant.versions version member).mono attachments

/-! ## Operations -/

/-- Adding a version leaves the versions of every other item alone. -/
theorem versionsOf_addVersion (db : Db) (version : WorkVersion) (itemId : Store.Id) :
    versionsOf (addVersion db version) itemId =
      versionsOf db itemId ++ if version.workItemId = itemId then [version] else [] := by
  unfold versionsOf addVersion
  rw [List.filter_append]
  by_cases same : version.workItemId = itemId <;> simp [same]

theorem versionsOf_unknown (invariant : WorkInv settings db) {itemId : Store.Id}
    (unknown : itemId ∉ db.workItems.map WorkItem.id) : versionsOf db itemId = [] := by
  rw [versionsOf, List.filter_eq_nil_iff]
  intro version member same
  exact unknown ((beq_iff_eq.mp same) ▸ invariant.items version member)

/-- One state operation keeps the whole history. -/
theorem WorkInv.apply {thread : Thread} {document : ProtocolDocument} {ids : FreshIds}
    (invariant : WorkInv settings db) (itemIds : (db.workItems.map WorkItem.id).Nodup)
    (prepared : TemplatesInv db templates) (fresh : ids.workItemId ∉ db.workItems.map WorkItem.id)
    (applied : Applied settings db generation thread document templates ids db') : WorkInv settings db' := by
  cases applied with
  | none => exact invariant
  | @establish state visible draft version item _ _ isItem drafted built =>
    obtain ⟨number, parent, draftInv⟩ := establishDraft_ok prepared drafted
    obtain ⟨versionInv, sameNumber, sameParent, -⟩ := versionOfDraft_ok draftInv built
    have ownItem : version.workItemId = item.id := (versionOfDraft_id built).2
    have freshItem : item.id ∉ db.workItems.map WorkItem.id := by rw [isItem]; exact fresh
    have active : item.active = true := by rw [isItem]
    have noVersions : versionsOf (replaceActiveItem db item) item.id = [] := versionsOf_unknown invariant freshItem
    constructor
    case lastActive => exact invariant.replaceActiveItem_lastActive itemIds active
    case established =>
      intro other member
      rw [versionsOf_addVersion]
      have memberId : other.id ∈ (replaceActiveItem db item).workItems.map WorkItem.id := List.mem_map_of_mem member
      rw [replaceActiveItem_ids, List.mem_append, List.mem_singleton] at memberId
      rcases memberId with old | new
      · obtain ⟨before, beforeMember, sameId⟩ := List.mem_map.mp old
        have nonempty := invariant.established before beforeMember
        rw [sameId] at nonempty
        exact fun empty => nonempty (List.append_eq_nil_iff.mp empty).1
      · simp [new, ownItem]
    case items =>
      intro other member
      show other.workItemId ∈ (replaceActiveItem db item).workItems.map WorkItem.id
      rw [replaceActiveItem_ids]
      rcases List.mem_append.mp member with old | new
      · exact List.mem_append_left _ (invariant.items other old)
      · rw [List.mem_singleton.mp new, ownItem]
        simp
    case chains =>
      intro itemId
      rw [versionsOf_addVersion]
      by_cases own : version.workItemId = itemId
      · subst own
        rw [ownItem, noVersions]
        simpa using chain_singleton (sameNumber.trans number) (sameParent.trans parent)
      · rw [if_neg own, List.append_nil]
        exact invariant.chains itemId
    case versions =>
      intro other member
      rcases List.mem_append.mp member with old | new
      · exact (invariant.versions other old).mono fun _ present => present
      · rw [List.mem_singleton.mp new]
        exact versionInv.mono fun _ present => present
  | @base visible item current operation draft version _ found latest _ drafted built =>
    obtain ⟨_, number, parent, template, draftInv⟩ := baseDraft_ok prepared drafted
    obtain ⟨versionInv, sameNumber, sameParent, sameTemplate⟩ := versionOfDraft_ok draftInv built
    have ownItem : version.workItemId = item.id := (versionOfDraft_id built).2
    have itemMember : item ∈ db.workItems := List.mem_of_find?_eq_some found
    have chain := invariant.chains item.id
    have isLast : (versionsOf db item.id).getLast? = some current := by
      rw [← chain.latest]
      exact latest
    have currentMember : current ∈ versionsOf db item.id := List.mem_of_getLast? isLast
    have currentNumber : current.versionNo = (versionsOf db item.id).length := by
      have nonempty := List.length_pos_of_mem currentMember
      rw [List.getLast?_eq_getElem?] at isLast
      rw [chain.numbered _ current isLast]
      omega
    constructor
    case lastActive => exact invariant.lastActive
    case established =>
      intro other member empty
      rw [versionsOf_addVersion] at empty
      exact invariant.established other member (List.append_eq_nil_iff.mp empty).1
    case items =>
      intro other member
      rcases List.mem_append.mp member with old | new
      · exact invariant.items other old
      · rw [List.mem_singleton.mp new, ownItem]
        exact List.mem_map_of_mem itemMember
    case chains =>
      intro itemId
      rw [versionsOf_addVersion]
      by_cases own : version.workItemId = itemId
      · subst own
        rw [ownItem, if_pos rfl]
        refine chain.append ?_ ?_ fun other otherMember => ?_
        · rw [sameNumber, number, currentNumber]
        · rw [sameParent, parent, isLast, Option.map_some]
        · rw [sameTemplate, template]
          exact chain.template current currentMember other otherMember
      · simpa [own] using invariant.chains itemId
    case versions =>
      intro other member
      rcases List.mem_append.mp member with old | new
      · exact (invariant.versions other old).mono fun _ present => present
      · rw [List.mem_singleton.mp new]
        exact versionInv.mono fun _ present => present

end

end Oveo.Work
