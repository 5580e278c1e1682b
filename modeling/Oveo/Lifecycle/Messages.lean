import Oveo.Lifecycle.Turns

/-! # A conversation only continues

What a step of the system adds to the messages: each new one has the next ordinal of its thread, and
no message is added to a thread with a running generation. -/

namespace Oveo.Lifecycle

open Oveo.Lib Oveo.Docx Oveo.Protocol Oveo.Store Oveo.Work

/-- What became of the tables while some messages were added. -/
structure Continues (db db' : Db) (new : List Message) : Prop where
  messages : db'.messages = db.messages ++ new
  next : new.Pairwise (fun _ _ => False) ∧ ∀ message ∈ new, message.ordinal = db.maxOrdinal message.threadId + 1
  attachments : ∀ message ∈ db.messages, db'.attachmentOf? message.id = db.attachmentOf? message.id
  rows : ∀ row ∈ db.generations, ∃ row' ∈ db'.generations, SameRow row row' ∧ row.status.follows row'.status = true
  quiet : ∀ row' ∈ db'.generations, row'.status = .running → ∀ message ∈ new, row'.threadId ≠ some message.threadId

section

variable {settings : Settings} {s s' : System} {db db' : Db} {new : List Message}

theorem Updates.continues {change} (updates : Updates db db' change) : Continues db db' [] := by
  constructor
  case messages => rw [updates.tables, List.append_nil]
  case next => exact ⟨.nil, fun _ member => nomatch member⟩
  case attachments =>
    intro message _
    rw [updates.tables]
    rfl
  case rows =>
    intro row member
    have evolves := updates.evolves row member
    exact ⟨change row, updates.generations ▸ List.mem_map_of_mem member, evolves.same, evolves.follows⟩
  case quiet => exact fun _ _ _ _ member => nomatch member

theorem Committed.continues {answers : List Answer} {id : Id} {document : ProtocolDocument} {templates : Templates} {ids : AnswerIds}
    {answer : Option Answer} (tables : DbInvariant db answers)
    (committed : Committed settings db id document templates ids db' answer) : ∃ new, Continues db db' new := by
  cases committed with
  | @chat claimed _ thread _ _ _ found running _ thread' _ messages _ _ _ _ generations messages' _ attachments =>
    obtain ⟨member, rfl⟩ := generation?_mem found
    rw [messages] at messages'
    refine ⟨[answerMessage db thread.id ids.messageId document], messages', ⟨List.pairwise_singleton _ _, ?_⟩, ?_, ?_, ?_⟩
    · intro message new
      obtain rfl := List.mem_singleton.mp new
      rfl
    · intro message _
      rw [Db.attachmentOf?, attachments, Db.attachmentOf?]
    · intro row rowMember
      exact ⟨_, generations ▸ List.mem_map_of_mem rowMember, completeRow_same _ row,
        completeRow_follows tables.generationIds found running _ rowMember⟩
    · intro row' member' running' message new sameThread
      obtain rfl := List.mem_singleton.mp new
      rw [generations] at member'
      obtain ⟨row, rowMember, rfl⟩ := List.mem_map.mp member'
      have different : row ≠ claimed := by
        rintro rfl
        simp [completeRow, completedRow, setStatus] at running'
      have active : row.status.isActive = true :=
        Status.follows_active (completeRow_follows tables.generationIds found running _ rowMember) (by rw [running']; rfl)
      have claimedActive : claimed.status.isActive = true := by rw [running]; rfl
      have symmetric : Std.Symm fun first second : Generation => ¬ BothActive first second :=
        ⟨fun _ _ apart both => apart ⟨both.2.1, both.1, both.2.2.symm⟩⟩
      rw [(completeRow_same _ row).threadId] at sameThread
      -- The claimed row was the only active one of its thread.
      exact tables.oneActive.forall rowMember member different ⟨active, claimedActive, sameThread.trans thread'.symm⟩
  | @handoff claimed found running =>
    obtain ⟨member, rfl⟩ := generation?_mem found
    refine ⟨[], (List.append_nil _).symm, ⟨.nil, List.forall_mem_nil _⟩, fun _ _ => rfl, fun row rowMember => ?_,
      fun _ _ _ => List.forall_mem_nil _⟩
    exact ⟨_, List.mem_map_of_mem rowMember, completeRow_same none row,
      completeRow_follows tables.generationIds found running none rowMember⟩

theorem Inserted.continues {requesterId clientRequestId now : Id} {ids : SubmissionIds} {plan : Plan}
    (inserted : Inserted db requesterId clientRequestId ids plan now db') (fresh : ids.messageId ∉ db.messages.map Message.id) :
    Continues db db' (plan.turn.map (turnMessage db requesterId ids plan.threadId)).toList := by
  have newThread : ∀ message ∈ (plan.turn.map (turnMessage db requesterId ids plan.threadId)).toList,
      message.threadId = plan.threadId ∧ message.ordinal = db.maxOrdinal plan.threadId + 1 := by
    intro message new
    cases turn : plan.turn <;> simp [turn] at new
    rw [new]
    exact ⟨rfl, rfl⟩
  constructor
  case messages => exact inserted.messages
  case next =>
    refine ⟨?_, fun message new => ?_⟩
    · cases plan.turn
      · exact .nil
      · exact List.pairwise_singleton _ _
    · rw [(newThread message new).1, (newThread message new).2]
  case attachments =>
    intro message member
    have other : ids.messageId ≠ message.id := fun same => fresh (same ▸ List.mem_map_of_mem member)
    rw [Db.attachmentOf?, inserted.attachments, List.find?_append, Db.attachmentOf?]
    cases plan.turn.bind TurnContent.attachment <;> simp [other]
  case rows =>
    intro row member
    exact ⟨row, inserted.generations ▸ List.mem_append_left _ member, .refl row, Status.follows_refl _⟩
  case quiet =>
    intro row' member' running message new sameThread
    rw [inserted.generations, List.mem_append, List.mem_singleton] at member'
    rcases member' with old | rfl
    · refine inserted.soleActive row' old ⟨by rw [running]; rfl, rfl, ?_⟩
      exact sameThread.trans (congrArg some (newThread message new).1)
    · cases running

theorem Continues.after_updates {middle : Db} {change} (updates : Updates db middle change) (continues : Continues middle db' new) :
    Continues db db' new := by
  have messages : middle.messages = db.messages := by rw [updates.tables]
  have ordinals (threadId : Id) : middle.maxOrdinal threadId = db.maxOrdinal threadId := by rw [Db.maxOrdinal, messages, Db.maxOrdinal]
  constructor
  case messages => rw [continues.messages, messages]
  case next => exact ⟨continues.next.1, fun message member => (continues.next.2 message member).trans (by rw [ordinals])⟩
  case attachments =>
    intro message member
    rw [continues.attachments message (messages ▸ member), Db.attachmentOf?, updates.tables, Db.attachmentOf?]
  case rows =>
    intro row member
    have evolves := updates.evolves row member
    obtain ⟨row', member', same, follows⟩ := continues.rows (change row) (updates.generations ▸ List.mem_map_of_mem member)
    exact ⟨row', member', evolves.same.trans same, Status.follows_trans evolves.follows follows⟩
  case quiet => exact continues.quiet

theorem step_continues {action : Action} (invariant : SystemInv s) (taken : step settings s action = some s') :
    ∃ new, Continues s.db s'.db new := by
  cases step_tableStep invariant taken with
  | update updates => exact ⟨[], updates.continues⟩
  | commit _ _ committed => exact committed.continues invariant.db
  | @insert _ _ _ call _ orphans _ found phase committed =>
    obtain ⟨change, finalized⟩ := finalizeOrphans_updates orphans s.db
    have held := invariant.calls call (call?_mem found)
    have fresh := (held.allOrNothing (held.noRows (by rw [phase]; rfl))).2.1
    have unused : call.ids.messageId ∉ (finalizeOrphans s.db orphans).messages.map Message.id := by
      rw [finalized.tables]
      exact fresh
    exact ⟨_, ((submissionTransaction_inserted committed).continues unused).after_updates finalized.toUpdates⟩

/-! ## Ordinals -/

/-- The messages of a thread stand in the order of their ordinals, which are positive. -/
structure OrdinalsInv (db : Db) : Prop where
  increasing : db.messages.Pairwise fun first second => first.threadId = second.threadId → first.ordinal < second.ordinal
  positive : ∀ message ∈ db.messages, 0 < message.ordinal

theorem OrdinalsInv.continues (ordinals : OrdinalsInv db) (continues : Continues db db' new) : OrdinalsInv db' := by
  constructor
  case increasing =>
    rw [continues.messages, List.pairwise_append]
    refine ⟨ordinals.increasing, continues.next.1.imp fun impossible => impossible.elim, fun first member second added sameThread => ?_⟩
    rw [continues.next.2 second added, ← sameThread]
    exact Nat.lt_succ_of_le (le_maxOrdinal member)
  case positive =>
    intro message member
    rw [continues.messages] at member
    rcases List.mem_append.mp member with old | added
    · exact ordinals.positive message old
    · rw [continues.next.2 message added]
      omega

theorem reachable_ordinalsInv (reachable : (machine settings).Reachable s) : OrdinalsInv s.db := by
  have both : SystemInv s ∧ OrdinalsInv s.db := by
    refine Machine.invariant (fun s => SystemInv s ∧ OrdinalsInv s.db) ?_ ?_ reachable
    · rintro state rfl
      exact ⟨systemInv_empty, ⟨.nil, fun _ member => nomatch member⟩⟩
    · rintro state action next ⟨system, ordinals⟩ - taken
      obtain ⟨new, continues⟩ := step_continues system taken
      exact ⟨step_systemInv system taken, ordinals.continues continues⟩
  exact both.2

end

end Oveo.Lifecycle
