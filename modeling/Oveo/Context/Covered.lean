import Oveo.Context.CompactionSafety
import Oveo.Lifecycle.Safety
import Oveo.Lifecycle.Turns

/-! # Every message is summarized once, or still there

What the invariant of the compactions says about the messages of a conversation: a message up to
`summary_through_ordinal` went whole into one stored call, a later one goes whole into the request, and
the latest four go into no call. -/

namespace Oveo.Context

open Oveo.Lib Oveo.Protocol Oveo.Store Oveo.Work Oveo.Lifecycle

/-- The messages of a conversation. -/
def conversation (db : Db) (threadId : Id) : List Message :=
  byOrdinal (db.messages.filter fun message => message.threadId == threadId)

/-- Its latest messages, which stay out of every summary. -/
def latestMessages (db : Db) (threadId : Id) : List Message :=
  (conversation db threadId).drop ((conversation db threadId).length - minRecentMessages)

def RequestSnapshot.hasOrdinal (input : RequestSnapshot) (ordinal : Nat) : Prop :=
  ∃ entry ∈ input.envelope.recentTranscript, entry.ordinal = ordinal

/-- The whole message is part of the input. -/
def RequestSnapshot.hasWhole (input : RequestSnapshot) (db : Db) (message : Message) : Prop :=
  ∃ entry ∈ input.envelope.recentTranscript, IsEntry db message entry

/-- The input of the summary call of a compaction, from when it begins until its summary is stored. -/
def CompactionPhase.input? : CompactionPhase → Option RequestSnapshot
  | .calling _ input _ | .storing _ input _ => some input
  | .composed _ | .looking _ | .requesting _ | .ended => none

/-- The message is part of exactly one of the calls. -/
def CoveredOnce (db : Db) (calls : List StoredSummary) (message : Message) : Prop :=
  ∃ earlier call later, calls = earlier ++ call :: later ∧ call.input.hasWhole db message ∧
    ∀ other ∈ earlier ++ later, ¬ other.input.hasOrdinal message.ordinal

/-- What holds of the summaries of a conversation. -/
structure ConversationCovered (s : CompactionState) (threadId : Id) : Prop where
  covered : ∀ message ∈ conversation s.system.db threadId, message.ordinal ≤ (s.summaries threadId).through →
    CoveredOnce s.system.db (s.callsOf threadId) message
  /-- The pair is that of the latest stored call, and each call was given the pair before it. -/
  current : s.summaries threadId = lastSummary (s.callsOf threadId)
  chained : ∀ earlier call later, s.callsOf threadId = earlier ++ call :: later → call.input.envelope.summary = lastSummary earlier
  increasing : (s.callsOf threadId).Pairwise fun first second => first.cutoff < second.cutoff
  /-- There are only so many calls before the messages run out. -/
  ends : s.callsOf threadId = [] ∨
    (s.callsOf threadId).length + minRecentMessages ≤ (conversation s.system.db threadId).length
  /-- The request of a generation that runs has the summary, and whole every message the summary does not cover. -/
  verbatim : ∀ compaction ∈ s.compactions, compaction.threadId = threadId → ∀ snapshot, compaction.phase = .requesting snapshot →
    ∀ row ∈ s.system.db.generations, row.id = compaction.generationId → row.status = .running →
      snapshot.envelope.summary = s.summaries threadId ∧
        List.Forall₂ (IsEntry s.system.db)
          ((conversation s.system.db threadId).filter fun message => decide ((s.summaries threadId).through < message.ordinal))
          snapshot.envelope.recentTranscript
  latest : ∀ message ∈ latestMessages s.system.db threadId, (s.summaries threadId).through < message.ordinal ∧
    (∀ call ∈ s.callsOf threadId, ¬ call.input.hasOrdinal message.ordinal) ∧
    ∀ compaction ∈ s.compactions, compaction.threadId = threadId → ∀ input ∈ compaction.phase.input?, ¬ input.hasOrdinal message.ordinal

/-- A step stores one call and its pair, which moves on, or leaves all pairs as they are. -/
def StoresOrKeeps (s s' : CompactionState) : Prop :=
  (s'.stored = s.stored ∧ s'.summaries = s.summaries) ∨
    ∃ call, s'.stored = s.stored ++ [call] ∧ (s.summaries call.threadId).through < call.cutoff ∧
      s'.summaries = fun threadId => if threadId = call.threadId then ⟨some call.compacted, some call.cutoff⟩ else s.summaries threadId

/-- The retries among the steps are current. -/
def retriesAreCurrent (s : CompactionState) : CompactionAction → Prop
  | .lifecycle action => retryIsCurrent s.system action
  | _ => True

/-- The message each active chat generation answers is one of the latest. -/
def RequestsAreLatest (db : Db) : Prop :=
  ∀ row ∈ db.generations, row.purpose = .chat → row.status.isActive = true →
    ∃ threadId, row.threadId = some threadId ∧ ∃ request ∈ latestMessages db threadId, row.sourceMessageId = some request.id

section

variable {settings : Settings} {compactionSettings : CompactionSettings} {s s' : CompactionState} {db : Db} {threadId : Id}
  {calls earlier later : List StoredSummary} {call : StoredSummary} {message : Message} {cutoff : Nat} {input : RequestSnapshot}

/-! ## Conversations -/

theorem conversation_eq (ordinals : OrdinalsInv db) :
    conversation db threadId = db.messages.filter fun message => message.threadId == threadId :=
  byOrdinal_filter ordinals fun _ chosen => by simpa using chosen

theorem mem_conversation (ordinals : OrdinalsInv db) :
    message ∈ conversation db threadId ↔ message ∈ db.messages ∧ message.threadId = threadId := by
  simp [conversation_eq ordinals]

theorem filter_conversation (ordinals : OrdinalsInv db) (through : Nat) :
    (conversation db threadId).filter (fun message => decide (through < message.ordinal)) = messagesWithin db threadId through none := by
  rw [conversation_eq ordinals, List.filter_filter, messagesWithin]
  exact List.filter_congr fun message _ => by simp [Bool.and_comm]

theorem increasing_conversation (ordinals : OrdinalsInv db) :
    (conversation db threadId).Pairwise fun first second => first.ordinal < second.ordinal := by
  have all : conversation db threadId = messagesWithin db threadId 0 none := by
    rw [← filter_conversation ordinals]
    exact (List.filter_eq_self.mpr fun message member =>
      decide_eq_true (ordinals.positive message ((mem_conversation ordinals).mp member).1)).symm
  exact all ▸ increasing_messagesWithin ordinals 0 none

/-- Where enough messages come after an ordinal, the latest ones do. -/
theorem lt_of_latest (ordinals : OrdinalsInv db) {through : Nat}
    (enough : minRecentMessages ≤ (messagesWithin db threadId through none).length) (latest : message ∈ latestMessages db threadId) :
    through < message.ordinal := by
  rw [← filter_conversation ordinals] at enough
  have suffix := @filter_eq_drop _ _ (fun message : Message => decide (through < message.ordinal))
    ((@increasing_conversation _ threadId ordinals).imp fun {first second} before later =>
      decide_eq_true (Nat.lt_trans (of_decide_eq_true later) before))
  have among : message ∈ (conversation db threadId).filter fun message => decide (through < message.ordinal) := by
    rw [suffix]
    exact List.drop_subset_drop_left _ (by omega) latest
  exact of_decide_eq_true (List.mem_filter.mp among).2

theorem latest_of_last (ordinals : OrdinalsInv db) (member : message ∈ conversation db threadId)
    (last : ∀ other ∈ conversation db threadId, other.ordinal ≤ message.ordinal) : message ∈ latestMessages db threadId := by
  have increasing := @increasing_conversation _ threadId ordinals
  rw [latestMessages]
  generalize conversation db threadId = messages at member last increasing
  rcases List.eq_nil_or_concat messages with rfl | ⟨before, final, rfl⟩
  · cases member
  · rw [List.concat_eq_append] at member last increasing ⊢
    have isFinal : message = final := by
      rcases List.mem_append.mp member with old | new
      · have below := (List.pairwise_append.mp increasing).2.2 message old final (List.mem_singleton_self final)
        exact absurd (last final (by simp)) (by omega)
      · exact List.mem_singleton.mp new
    rw [isFinal, List.drop_append_of_le_length (by simp [minRecentMessages])]
    exact List.mem_append_right _ (List.mem_singleton_self final)

/-! ## Stored calls -/

theorem forall₂_exists_mem {α β : Type} {relation : α → β → Prop} {first : List α} {second : List β} {a : α}
    (related : List.Forall₂ relation first second) (member : a ∈ first) : ∃ b ∈ second, relation a b := by
  induction related with
  | nil => cases member
  | cons head _ inductionHypothesis =>
    rcases List.mem_cons.mp member with rfl | later
    · exact ⟨_, List.mem_cons_self, head⟩
    · obtain ⟨b, isThere, holds⟩ := inductionHypothesis later
      exact ⟨b, List.mem_cons_of_mem _ isThere, holds⟩

theorem CallsHold.init (holds : CallsHold db threadId (calls ++ [call])) : CallsHold db threadId calls :=
  ⟨fun earlier other later split => holds.each earlier other (later ++ [call]) (by rw [split, List.append_assoc, List.cons_append])⟩

theorem CallsHold.last (holds : CallsHold db threadId (calls ++ [call])) :
    InputHolds db threadId (lastSummary calls) call.cutoff call.input ∧ LeavesLatest db threadId call.cutoff call.input :=
  holds.each calls call [] rfl

theorem through_lastSummary (calls : List StoredSummary) (call : StoredSummary) : (lastSummary (calls ++ [call])).through = call.cutoff := by
  rw [lastSummary_append]
  rfl

/-- What an earlier call was made of lies below the pair. -/
theorem CallsHold.below (holds : CallsHold db threadId calls) (member : call ∈ calls) : call.cutoff ≤ (lastSummary calls).through := by
  induction calls using List.reverseRecOn with
  | nil => cases member
  | append_singleton calls newest inductionHypothesis =>
    rw [through_lastSummary]
    rcases List.mem_append.mp member with old | new
    · exact (inductionHypothesis holds.init old).trans holds.last.1.later.le
    · rw [List.mem_singleton.mp new]

theorem CallsHold.leaves (holds : CallsHold db threadId calls) (member : call ∈ calls) : LeavesLatest db threadId call.cutoff call.input := by
  obtain ⟨earlier, later, split⟩ := List.append_of_mem member
  exact (holds.each earlier call later split).2

theorem CallsHold.increasing (holds : CallsHold db threadId calls) :
    calls.Pairwise fun first second => first.cutoff < second.cutoff := by
  induction calls using List.reverseRecOn with
  | nil => exact .nil
  | append_singleton calls newest inductionHypothesis =>
    refine List.pairwise_append.mpr ⟨inductionHypothesis holds.init, List.pairwise_singleton _ _, fun first old second new => ?_⟩
    rw [List.mem_singleton.mp new]
    exact (holds.init.below old).trans_lt holds.last.1.later

/-- Each message the pair covers is part of one call. -/
theorem CallsHold.covered (holds : CallsHold db threadId calls) (ordinals : OrdinalsInv db) (member : message ∈ db.messages)
    (ofThread : message.threadId = threadId) (covered : message.ordinal ≤ (lastSummary calls).through) : CoveredOnce db calls message := by
  induction calls using List.reverseRecOn with
  | nil => exact absurd (ordinals.positive message member) (Nat.not_lt.mpr covered)
  | append_singleton calls newest inductionHypothesis =>
    rw [through_lastSummary] at covered
    by_cases before : message.ordinal ≤ (lastSummary calls).through
    · obtain ⟨earlier, call, later, rfl, whole, sole⟩ := inductionHypothesis holds.init before
      refine ⟨earlier, call, later ++ [newest], by simp, whole, fun other isOther => ?_⟩
      rw [← List.append_assoc] at isOther
      rcases List.mem_append.mp isOther with old | new
      · exact sole other old
      · rintro ⟨entry, isEntry, same⟩
        rw [List.mem_singleton.mp new] at isEntry
        have above := (ordinal_le_of_entries holds.last.1.entries entry isEntry).1
        omega
    · have within : message ∈ messagesWithin db threadId (lastSummary calls).through (some newest.cutoff) :=
        mem_messagesWithin.mpr ⟨member, ofThread, Nat.not_le.mp before, fun last isLast => Option.some.inj isLast ▸ covered⟩
      refine ⟨calls, newest, [], rfl, forall₂_exists_mem holds.last.1.entries within, fun other isOther => ?_⟩
      rintro ⟨entry, isEntry, same⟩
      rw [List.append_nil] at isOther
      have below := (holds.init.leaves isOther).entries entry isEntry
      have past := holds.init.below isOther
      omega

/-- The calls and the latest messages together are no more than the messages. -/
theorem CallsHold.ends (holds : CallsHold db threadId (calls ++ [call])) (ordinals : OrdinalsInv db) :
    (calls ++ [call]).length + minRecentMessages ≤ (conversation db threadId).length := by
  have latest := holds.last.2.latest
  rw [← filter_conversation ordinals] at latest
  have summarized : ((calls ++ [call]).map StoredSummary.cutoff).Subperm
      (((conversation db threadId).filter fun message => !decide (call.cutoff < message.ordinal)).map Message.ordinal) := by
    refine List.subperm_of_subset ?_ fun cutoff isCutoff => ?_
    · exact List.pairwise_map.mpr (holds.increasing.imp Nat.ne_of_lt)
    · obtain ⟨stored, isStored, rfl⟩ := List.mem_map.mp isCutoff
      obtain ⟨earlier, later, split⟩ := List.append_of_mem isStored
      obtain ⟨last, member, ofThread, isLast⟩ := (holds.each earlier stored later split).1.last
      have below := holds.below isStored
      rw [through_lastSummary] at below
      refine List.mem_map.mpr ⟨last, List.mem_filter.mpr ⟨(mem_conversation ordinals).mpr ⟨member, ofThread⟩, ?_⟩, isLast⟩
      simpa [isLast] using below
  have fewer := summarized.length_le
  rw [List.length_map, List.length_map] at fewer
  have whole := List.length_eq_length_filter_add (l := conversation db threadId) fun message => decide (call.cutoff < message.ordinal)
  omega

/-! ## Conversations with summaries -/

theorem CompactionInv.latest (invariant : CompactionInv s) (latest : message ∈ latestMessages s.system.db threadId) :
    (s.summaries threadId).through < message.ordinal ∧ (∀ call ∈ s.callsOf threadId, ¬ call.input.hasOrdinal message.ordinal) ∧
      ∀ compaction ∈ s.compactions, compaction.threadId = threadId → ∀ input ∈ compaction.phase.input?, ¬ input.hasOrdinal message.ordinal := by
  have outside {cutoff : Nat} {input : RequestSnapshot} (leaves : LeavesLatest s.system.db threadId cutoff input) :
      ¬ input.hasOrdinal message.ordinal := by
    rintro ⟨entry, isEntry, same⟩
    have below := leaves.entries entry isEntry
    have above := lt_of_latest invariant.ordinals leaves.latest latest
    omega
  refine ⟨?_, fun call stored => outside ((invariant.calls threadId).leaves stored), ?_⟩
  · rw [invariant.current threadId]
    have holds := invariant.calls threadId
    rcases List.eq_nil_or_concat (s.callsOf threadId) with none | ⟨calls, call, isCalls⟩
    · rw [none]
      exact invariant.ordinals.positive message ((mem_conversation invariant.ordinals).mp (List.mem_of_mem_drop latest)).1
    · rw [List.concat_eq_append] at isCalls
      rw [isCalls] at holds ⊢
      rw [through_lastSummary]
      exact lt_of_latest invariant.ordinals holds.last.2.latest latest
  · rintro compaction member rfl input isInput
    have leaves := invariant.leaves compaction member
    cases isPhase : compaction.phase with
    | calling | storing =>
      rw [isPhase] at isInput leaves
      exact Option.some.inj isInput ▸ outside leaves
    | composed | looking | requesting | ended =>
      rw [isPhase] at isInput
      cases isInput

theorem CompactionInv.conversation (invariant : CompactionInv s) (threadId : Id) : ConversationCovered s threadId := by
  have holds := invariant.calls threadId
  constructor
  case covered =>
    intro message member covered
    obtain ⟨isMessage, ofThread⟩ := (mem_conversation invariant.ordinals).mp member
    exact holds.covered invariant.ordinals isMessage ofThread (invariant.current threadId ▸ covered)
  case current => exact invariant.current threadId
  case chained => exact fun earlier call later split => (holds.each earlier call later split).1.summary
  case increasing => exact holds.increasing
  case ends =>
    rcases List.eq_nil_or_concat (s.callsOf threadId) with none | ⟨calls, call, isCalls⟩
    · exact .inl none
    · rw [List.concat_eq_append] at isCalls
      rw [isCalls] at holds ⊢
      exact .inr (holds.ends invariant.ordinals)
  case verbatim =>
    rintro compaction member rfl snapshot requesting row rowMember isRow running
    obtain ⟨own, ownMember, ownHolds⟩ := invariant.rows compaction member
    have same : own = row := List.inj_on_of_nodup_map invariant.system.db.generationIds ownMember rowMember (ownHolds.id.trans isRow.symm)
    have snapshotHolds := ownHolds.running (same ▸ running)
    rw [requesting] at snapshotHolds
    exact ⟨snapshotHolds.1, filter_conversation invariant.ordinals _ ▸ snapshotHolds.2⟩
  case latest => exact fun message latest => invariant.latest latest

/-! ## Steps -/

theorem CompactionInv.storesOrKeeps (invariant : CompactionInv s) {action : CompactionAction}
    (taken : compactionStep settings compactionSettings s action = some s') : StoresOrKeeps s s' := by
  have after := invariant.step taken
  cases compactionStep_cases taken with
  | lifecycle | composed | moved => exact .inl ⟨rfl, rfl⟩
  | @stored _ _ _ compaction cutoff input compacted =>
    refine .inr ⟨⟨compaction.threadId, cutoff, input, compacted⟩, rfl, ?_, rfl⟩
    have calls := after.calls compaction.threadId
    simp only [CompactionState.callsOf, callsOf_append, if_true] at calls
    rw [invariant.current compaction.threadId]
    exact calls.last.1.later

theorem requestsAreLatest (ordinals : OrdinalsInv db) (turns : TurnInv db) : RequestsAreLatest db := by
  intro row member chat active
  obtain ⟨source, isSource, isSourceId, ofThread, last⟩ := turns.active row member chat active
  refine ⟨source.threadId, ofThread, source, latest_of_last ordinals ((mem_conversation ordinals).mpr ⟨isSource, rfl⟩) ?_, isSourceId⟩
  exact fun other isOther => last other ((mem_conversation ordinals).mp isOther).1 ((mem_conversation ordinals).mp isOther).2

theorem reachableVia_turnInv (reachable : (compactionMachine settings compactionSettings).ReachableVia retriesAreCurrent s) :
    SystemInv s.system ∧ TurnInv s.system.db := by
  refine Machine.invariant (fun s => SystemInv s.system ∧ TurnInv s.system.db) ?_ ?_ reachable
  · rintro start ⟨isSystem, -⟩
    rw [isSystem]
    exact ⟨systemInv_empty, turnInv_empty⟩
  · intro before action after invariants current taken
    cases compactionStep_cases taken with
    | lifecycle stepped kept => exact ⟨step_systemInv invariants.1 stepped, step_turnInv invariants.1 invariants.2 current stepped⟩
    | composed | moved | stored => exact invariants

end

/-- One more message of the conversation of `firstCall`. -/
def nextCall (generationId : Id) : Call :=
  { ids := { generationId, threadId := generationId + 1, messageId := generationId + 2, attachmentId := generationId + 3 }
    requesterId := 0
    clientRequestId := generationId
    request := .turn (some 2) none none { text := str "More", attachment := none }
    phase := .entered }

/-- Two answered turns, and a third that runs. -/
def longConversation : List Action :=
  submitted firstCall ++ answeredRun 1 5 ++ submitted (nextCall 11) ++ answeredRun 11 15 ++ submitted (nextCall 21) ++ [.setRunning 21]

def everywhere : Surroundings := { labels := fun _ => some (str "Ann"), intact := fun _ => true }

def atMostFour (snapshot : RequestSnapshot) : Bool := decide (snapshot.envelope.recentTranscript.length ≤ 4)

def summaryReply : Json := .obj [(str "version", .int 1), (str "summary", .str (str "Greetings")), (str "unresolved", .arr [])]

/-- The five messages do not fit, so the first one is summarized before the request is made. -/
def compactedTurn : List CompactionAction :=
  longConversation.map CompactionAction.lifecycle ++
    [.compose 21 everywhere, .look 0 everywhere atMostFour, .look 0 everywhere atMostFour, .reply 0 (.answered (some summaryReply)),
     .store 0 everywhere .applied, .look 0 everywhere atMostFour]

def CompactionState.empty : CompactionState := ⟨System.empty, fun _ => Summary.empty, [], []⟩

end Oveo.Context
