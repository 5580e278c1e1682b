import Oveo.Lib.Fallible
import Oveo.Work.Apply

/-! # What a state operation leaves alone

`applyStateOperation` only touches the work tables: it adds one version for every operation
but `none`, with the id it was given. -/

namespace Oveo.Work

open Oveo.Lib Oveo.Docx Oveo.Protocol Oveo.Store

/-- The tables other than `work_items` and `work_versions` agree. -/
structure SameConversation (db db' : Db) : Prop where
  threads : db'.threads = db.threads
  messages : db'.messages = db.messages
  attachments : db'.attachments = db.attachments
  generations : db'.generations = db.generations

theorem replaceActiveItem_conversation (db : Db) (item : WorkItem) :
    SameConversation db (replaceActiveItem db item) := ⟨rfl, rfl, rfl, rfl⟩

theorem addVersion_conversation {db db' : Db} (same : SameConversation db db') (version : WorkVersion) :
    SameConversation db (addVersion db' version) :=
  ⟨same.threads, same.messages, same.attachments, same.generations⟩

theorem versionOfDraft_id {settings : Settings} {generation : Generation} {itemId versionId : Store.Id}
    {draft : Draft} {docxBlocks : Option (List DocxBlockReplacement)} {version : WorkVersion}
    (built : versionOfDraft settings generation itemId versionId draft docxBlocks = .ok version) :
    version.id = versionId ∧ version.workItemId = itemId := by
  simp only [versionOfDraft, ok_bind_iff, throw_bind, ite_error_eq_ok, pure_eq_ok, Except.ok.injEq] at built
  obtain ⟨_, _, _, _, rfl⟩ := built
  exact ⟨rfl, rfl⟩

/-- How an operation that succeeded changed the work tables. -/
inductive Applied (settings : Settings) (db : Db) (generation : Generation) (thread : Thread)
    (document : ProtocolDocument) (templates : Templates) (ids : FreshIds) : Db → Prop where
  | none : document.state = .none → Applied settings db generation thread document templates ids db
  | establish {state : EstablishState} {visible : Str} {draft : Draft} {version : WorkVersion} {item : WorkItem} :
      document.state = .establish state → singleDeliverable document = .ok visible →
      item = { id := ids.workItemId, threadId := thread.id, kind := workKinds thread.mode, active := true } →
      establishDraft db generation thread.id templates visible state = .ok draft →
      versionOfDraft settings generation item.id ids.versionId draft state.docxBlocks = .ok version →
      Applied settings db generation thread document templates ids (addVersion (replaceActiveItem db item) version)
  | base {visible : Str} {item : WorkItem} {current : WorkVersion} {operation : BaseOperation}
      {draft : Draft} {version : WorkVersion} :
      singleDeliverable document = .ok visible → activeItem? db thread.id = some item →
      latestVersionOf? db item.id = some current → baseOperation? document.state = some operation →
      baseDraft db generation templates current visible operation = .ok draft →
      versionOfDraft settings generation item.id ids.versionId draft operation.docxBlocks = .ok version →
      Applied settings db generation thread document templates ids (addVersion db version)

theorem applyStateOperation_applied {settings : Settings} {db db' : Db} {generation : Generation}
    {thread : Thread} {document : ProtocolDocument} {templates : Templates} {ids : FreshIds}
    (applied : applyStateOperation settings db generation thread document templates ids = .ok db') :
    Applied settings db generation thread document templates ids db' := by
  unfold applyStateOperation at applied
  split at applied
  next isNone =>
    cases applied
    exact .none isNone
  next state isEstablish =>
    simp only [ok_bind_iff, pure_eq_ok, Except.ok.injEq] at applied
    obtain ⟨visible, shown, draft, drafted, version, built, rfl⟩ := applied
    exact .establish isEstablish shown rfl drafted built
  next state =>
    simp only [ok_bind_iff] at applied
    obtain ⟨visible, shown, applied⟩ := applied
    split at applied
    next => cases applied
    next item found =>
      split at applied
      next current operation latest isBase =>
        simp only [ok_bind_iff, pure_eq_ok, Except.ok.injEq] at applied
        obtain ⟨draft, drafted, version, built, rfl⟩ := applied
        exact .base shown found latest isBase drafted built
      next => cases applied

section

variable {settings : Settings} {db db' : Db} {generation : Generation} {thread : Thread}
  {document : ProtocolDocument} {templates : Templates} {ids : FreshIds}

theorem Applied.conversation (applied : Applied settings db generation thread document templates ids db') :
    SameConversation db db' := by
  cases applied with
  | none => exact ⟨rfl, rfl, rfl, rfl⟩
  | establish => exact addVersion_conversation (replaceActiveItem_conversation db _) _
  | base => exact addVersion_conversation ⟨rfl, rfl, rfl, rfl⟩ _

theorem baseOperation?_isNone {state : StateOperation} {operation : BaseOperation}
    (isBase : baseOperation? state = some operation) : state.isNone = false := by
  cases state <;> simp_all [baseOperation?, StateOperation.isNone]

/-- Every operation but `none` adds exactly one version, with its own id. -/
theorem Applied.versionIds (applied : Applied settings db generation thread document templates ids db') :
    db'.workVersions.map WorkVersion.id = db.workVersions.map WorkVersion.id ++
      (if document.state.isNone then [] else [ids.versionId]) := by
  cases applied with
  | none isNone => simp [isNone, StateOperation.isNone]
  | establish isEstablish _ _ _ built =>
    simp [isEstablish, StateOperation.isNone, addVersion, replaceActiveItem, (versionOfDraft_id built).1]
  | base _ _ _ isBase _ built =>
    simp [baseOperation?_isNone isBase, addVersion, (versionOfDraft_id built).1]

theorem replaceActiveItem_ids (db : Db) (item : WorkItem) :
    (replaceActiveItem db item).workItems.map WorkItem.id = db.workItems.map WorkItem.id ++ [item.id] := by
  unfold replaceActiveItem
  dsimp only
  split
  next found _ =>
    rw [List.map_append, List.map_map]
    congr 1
    apply List.map_congr_left
    intro other _
    by_cases same : other.id = found.id <;> simp [same]
  next => simp

/-- Only `establish` adds a work item. -/
theorem Applied.itemIds (applied : Applied settings db generation thread document templates ids db') :
    db'.workItems.map WorkItem.id = db.workItems.map WorkItem.id ∨
      db'.workItems.map WorkItem.id = db.workItems.map WorkItem.id ++ [ids.workItemId] := by
  cases applied with
  | none => exact .inl rfl
  | establish _ _ isItem =>
    refine .inr ?_
    rw [addVersion, replaceActiveItem_ids, isItem]
  | base => exact .inl rfl

end

end Oveo.Work
