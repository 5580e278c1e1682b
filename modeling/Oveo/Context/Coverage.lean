import Oveo.Context.Compaction
import Oveo.Context.Envelope
import Oveo.Lib.Keyed

/-! # What compactions keep

While a generation runs its conversation stays as it is, so what its compaction read is still true when
its summary is stored.  The ordinals between two summaries of a conversation are those of the messages
the later call was made of. -/

namespace Oveo.Context

open Oveo.Lib Oveo.Protocol Oveo.Store Oveo.Work Oveo.Lifecycle

section

variable {settings : Settings} {compactionSettings : CompactionSettings} {surroundings : Surroundings} {s s' : CompactionState}
  {db db' : Db} {new : List Message} {threadId : Id} {summary : Summary} {phase phase' : CompactionPhase} {index : Nat}
  {compaction : Compaction}

/-! ## Messages within bounds -/

theorem forall₂_of_mem {α β : Type} {relation relation' : α → β → Prop} {first : List α} {second : List β}
    (related : List.Forall₂ relation first second) (become : ∀ a ∈ first, ∀ b, relation a b → relation' a b) :
    List.Forall₂ relation' first second := by
  induction related with
  | nil => exact .nil
  | cons head _ inductionHypothesis =>
    exact .cons (become _ List.mem_cons_self _ head) (inductionHypothesis fun a member => become a (List.mem_cons_of_mem _ member))

theorem mem_messagesWithin {through : Nat} {throughOrdinal : Option Nat} {message : Message} :
    message ∈ messagesWithin db threadId through throughOrdinal ↔ message ∈ db.messages ∧ message.threadId = threadId ∧
      through < message.ordinal ∧ ∀ last ∈ throughOrdinal, message.ordinal ≤ last := by
  cases throughOrdinal <;> simp [messagesWithin]

theorem IsEntry.continues {message : Message} {entry : TranscriptEntry} (isEntry : IsEntry db message entry)
    (continues : Continues db db' new) (member : message ∈ db.messages) : IsEntry db' message entry :=
  ⟨isEntry.ordinal, isEntry.role, isEntry.content, isEntry.attachment.trans
    (by rw [sourceDocument?, sourceDocument?, continues.attachments message member])⟩

theorem entries_continue {through : Nat} {throughOrdinal : Option Nat} {entries : List TranscriptEntry}
    (held : List.Forall₂ (IsEntry db) (messagesWithin db threadId through throughOrdinal) entries)
    (continues : Continues db db' new)
    (outside : ∀ message ∈ new, message.threadId = threadId → ∃ last ∈ throughOrdinal, last < message.ordinal) :
    List.Forall₂ (IsEntry db') (messagesWithin db' threadId through throughOrdinal) entries := by
  have same : messagesWithin db' threadId through throughOrdinal = messagesWithin db threadId through throughOrdinal := by
    rw [messagesWithin, continues.messages, List.filter_append, messagesWithin]
    refine List.append_right_eq_self.mpr (List.filter_eq_nil_iff.mpr fun message member selected => ?_)
    simp only [Bool.and_eq_true, beq_iff_eq] at selected
    obtain ⟨last, isLast, above⟩ := outside message member selected.1
    have below := selected.2.2
    rw [Option.mem_def.mp isLast] at below
    simp only [Option.all_some, decide_eq_true_eq] at below
    omega
  rw [same]
  exact forall₂_of_mem held fun message member entry isEntry => isEntry.continues continues (mem_messagesWithin.mp member).1

theorem length_messagesWithin_le (continues : Continues db db' new) (through : Nat) :
    (messagesWithin db threadId through none).length ≤ (messagesWithin db' threadId through none).length := by
  rw [messagesWithin, messagesWithin, continues.messages, List.filter_append, List.length_append]
  omega

/-! ## Calls -/

/-- What a summary call through `cutoff` was made of. -/
structure InputHolds (db : Db) (threadId : Id) (before : Summary) (cutoff : Nat) (input : RequestSnapshot) : Prop where
  summary : input.envelope.summary = before
  entries : List.Forall₂ (IsEntry db) (messagesWithin db threadId before.through (some cutoff)) input.envelope.recentTranscript
  later : before.through < cutoff
  last : ∃ message ∈ db.messages, message.threadId = threadId ∧ message.ordinal = cutoff

theorem InputHolds.continues {cutoff : Nat} {input : RequestSnapshot} (holds : InputHolds db threadId summary cutoff input)
    (continues : Continues db db' new) : InputHolds db' threadId summary cutoff input := by
  obtain ⟨last, member, ofThread, isLast⟩ := holds.last
  refine ⟨holds.summary, entries_continue holds.entries continues fun message added sameThread => ⟨cutoff, rfl, ?_⟩, holds.later, ?_⟩
  · have bound := le_maxOrdinal member
    rw [continues.next.2 message added, sameThread, ← ofThread]
    omega
  · exact ⟨last, continues.messages ▸ List.mem_append_left _ member, ofThread, isLast⟩

/-- A call leaves the latest messages of its conversation out. -/
structure LeavesLatest (db : Db) (threadId : Id) (cutoff : Nat) (input : RequestSnapshot) : Prop where
  latest : minRecentMessages ≤ (messagesWithin db threadId cutoff none).length
  entries : ∀ entry ∈ input.envelope.recentTranscript, entry.ordinal ≤ cutoff

theorem LeavesLatest.continues {cutoff : Nat} {input : RequestSnapshot} (leaves : LeavesLatest db threadId cutoff input)
    (continues : Continues db db' new) : LeavesLatest db' threadId cutoff input :=
  ⟨leaves.latest.trans (length_messagesWithin_le continues cutoff), leaves.entries⟩

theorem ordinal_le_of_entries {through cutoff : Nat} {entries : List TranscriptEntry}
    (held : List.Forall₂ (IsEntry db) (messagesWithin db threadId through (some cutoff)) entries) :
    ∀ entry ∈ entries, through < entry.ordinal ∧ entry.ordinal ≤ cutoff := by
  intro entry member
  obtain ⟨place, inside, isThere⟩ := List.getElem_of_mem member
  have isEntry := held.get (by rw [held.length_eq]; exact inside) inside
  simp only [List.get_eq_getElem, isThere] at isEntry
  have message := mem_messagesWithin.mp (List.getElem_mem (l := messagesWithin db threadId through (some cutoff))
    (by rw [held.length_eq]; exact inside))
  rw [isEntry.ordinal]
  exact ⟨message.2.2.1, message.2.2.2 cutoff rfl⟩

/-! ## The search -/

/-- What the search finds was built for one of the candidates. -/
theorem searchSnapshot_found {snapshotThrough : Nat → Except ContextError RequestSnapshot} {fits : RequestSnapshot → Bool}
    {candidates : List Message} {fuel low stop : Nat} {best : Option (Nat × RequestSnapshot)} {found : Nat × RequestSnapshot}
    (searched : searchSnapshot snapshotThrough fits candidates fuel low stop best = .ok (some found))
    (bestBuilt : ∀ built ∈ best, ∃ message ∈ candidates, built.1 = message.ordinal ∧ snapshotThrough built.1 = .ok built.2) :
    ∃ message ∈ candidates, found.1 = message.ordinal ∧ snapshotThrough found.1 = .ok found.2 := by
  fun_induction searchSnapshot snapshotThrough fits candidates fuel low stop best with
  | case1 low stop best => exact bestBuilt found (Except.ok.inj searched)
  | case2 low stop best fuel _ _ _ => exact bestBuilt found (Except.ok.inj searched)
  | case3 low stop best fuel _ middle message isMessage raised fitting =>
    simp only [ok_bind_iff] at searched
    obtain ⟨candidate, isCandidate, searched⟩ := searched
    split at searched
    next => exact raised candidate searched fun built isBuilt => by
              cases isBuilt
              exact ⟨message, List.mem_of_getElem? isMessage, rfl, isCandidate⟩
    next => exact fitting searched bestBuilt
  | case4 low stop best fuel _ => exact bestBuilt found (Except.ok.inj searched)

theorem unsummarized_eq (ordinals : OrdinalsInv db) : unsummarized db threadId summary = messagesWithin db threadId summary.through none := by
  rw [unsummarized, byOrdinal_filter ordinals fun message chosen => by simpa using (Bool.and_eq_true_iff.mp chosen).1]
  exact List.filter_congr fun message _ => by simp

theorem increasing_messagesWithin (ordinals : OrdinalsInv db) (through : Nat) (throughOrdinal : Option Nat) :
    (messagesWithin db threadId through throughOrdinal).Pairwise fun first second => first.ordinal < second.ordinal := by
  refine List.pairwise_filter.mpr (ordinals.increasing.imp fun increasing isFirst isSecond => increasing ?_)
  simp only [Bool.and_eq_true, beq_iff_eq] at isFirst isSecond
  exact isFirst.1.trans isSecond.1.symm

/-- At least four of the messages come after each candidate. -/
theorem latest_of_candidate (ordinals : OrdinalsInv db) {message : Message}
    (candidate : message ∈ summaryCandidates compactionSettings (unsummarized db threadId summary)) :
    message ∈ messagesWithin db threadId summary.through none ∧
      minRecentMessages ≤ (messagesWithin db threadId message.ordinal none).length := by
  rw [unsummarized_eq ordinals] at candidate
  simp only [summaryCandidates] at candidate
  have enough : minRecentMessages ≤ if compactionSettings.contextRecentMessages < (messagesWithin db threadId summary.through none).length
      then compactionSettings.contextRecentMessages else minRecentMessages := by
    split
    · exact compactionSettings.recent_min
    · exact Nat.le_refl _
  generalize (if compactionSettings.contextRecentMessages < (messagesWithin db threadId summary.through none).length
      then compactionSettings.contextRecentMessages else minRecentMessages) = retain at candidate enough
  have member := List.mem_of_mem_take candidate
  refine ⟨member, ?_⟩
  have increasing := @increasing_messagesWithin _ threadId ordinals summary.through none
  rw [← List.take_append_drop ((messagesWithin db threadId summary.through none).length - retain)
    (messagesWithin db threadId summary.through none), List.pairwise_append] at increasing
  have nonempty : 0 < (messagesWithin db threadId summary.through none).length - retain := by
    by_contra none
    rw [Nat.le_zero.mp (Nat.not_lt.mp none), List.take_zero] at candidate
    cases candidate
  have kept : ((messagesWithin db threadId summary.through none).drop
      ((messagesWithin db threadId summary.through none).length - retain)).length = retain := by
    rw [List.length_drop]
    omega
  have after : ((messagesWithin db threadId summary.through none).drop
      ((messagesWithin db threadId summary.through none).length - retain)).Sublist (messagesWithin db threadId message.ordinal none) := by
    have all : ((messagesWithin db threadId summary.through none).drop
        ((messagesWithin db threadId summary.through none).length - retain)).filter (fun other => decide (message.ordinal < other.ordinal)) =
          (messagesWithin db threadId summary.through none).drop ((messagesWithin db threadId summary.through none).length - retain) :=
      List.filter_eq_self.mpr fun other later => decide_eq_true (increasing.2.2 message candidate other later)
    have narrowed : (messagesWithin db threadId summary.through none).filter (fun other => decide (message.ordinal < other.ordinal)) =
        messagesWithin db threadId message.ordinal none := by
      rw [messagesWithin, List.filter_filter, messagesWithin]
      refine List.filter_congr fun other _ => ?_
      have above := (mem_messagesWithin.mp member).2.2.1
      by_cases later : message.ordinal < other.ordinal
      · simp [later, show summary.through < other.ordinal by omega]
      · simp [later]
    rw [← all, ← narrowed]
    exact (List.drop_sublist _ _).filter _
  exact enough.trans (kept ▸ after.length_le)

/-! ## Phases -/

/-- What a compaction has read is still so. -/
def CompactionPhase.Holds (db : Db) (threadId : Id) (summary : Summary) : CompactionPhase → Prop
  | .composed snapshot | .looking snapshot | .requesting snapshot =>
    snapshot.envelope.summary = summary ∧
      List.Forall₂ (IsEntry db) (messagesWithin db threadId summary.through none) snapshot.envelope.recentTranscript
  | .calling cutoff input _ | .storing cutoff input _ => InputHolds db threadId summary cutoff input
  | .ended => True

/-- Its summary call leaves the latest messages out. -/
def CompactionPhase.LeavesLatest (db : Db) (threadId : Id) : CompactionPhase → Prop
  | .calling cutoff input _ | .storing cutoff input _ => Context.LeavesLatest db threadId cutoff input
  | .composed _ | .looking _ | .requesting _ | .ended => True

theorem CompactionPhase.Holds.continues (holds : phase.Holds db threadId summary) (continues : Continues db db' new)
    (quiet : ∀ message ∈ new, message.threadId ≠ threadId) : phase.Holds db' threadId summary := by
  cases phase with
  | composed | looking | requesting =>
    exact ⟨holds.1, entries_continue holds.2 continues fun message added sameThread => absurd sameThread (quiet message added)⟩
  | calling | storing => exact InputHolds.continues holds continues
  | ended => trivial

theorem CompactionPhase.LeavesLatest.continues (leaves : phase.LeavesLatest db threadId) (continues : Continues db db' new) :
    phase.LeavesLatest db' threadId := by
  cases phase with
  | calling | storing => exact Context.LeavesLatest.continues leaves continues
  | composed | looking | requesting | ended => trivial

theorem chatSnapshot_holds (ordinals : OrdinalsInv db) {thread : Thread} {snapshot : RequestSnapshot}
    (built : requestSnapshot surroundings db thread summary .chat none none = .ok snapshot) :
    snapshot.envelope.summary = summary ∧
      List.Forall₂ (IsEntry db) (messagesWithin db thread.id summary.through none) snapshot.envelope.recentTranscript :=
  requestSnapshot_eq ordinals built

theorem beginSummary_holds (ordinals : OrdinalsInv db) {thread : Thread} {fits : RequestSnapshot → Bool} :
    (beginSummary compactionSettings surroundings fits db thread summary).Holds db thread.id summary ∧
      (beginSummary compactionSettings surroundings fits db thread summary).LeavesLatest db thread.id := by
  simp only [beginSummary]
  split
  next => exact ⟨trivial, trivial⟩
  next =>
    split
    next cutoff input searched =>
      obtain ⟨message, candidate, isCutoff, built⟩ := searchSnapshot_found searched fun _ isBest => nomatch isBest
      simp only at isCutoff built
      subst isCutoff
      obtain ⟨member, latest⟩ := latest_of_candidate ordinals candidate
      obtain ⟨inTable, ofThread, later, -⟩ := mem_messagesWithin.mp member
      obtain ⟨isSummary, entries⟩ := requestSnapshot_eq ordinals built
      have holds : InputHolds db thread.id summary message.ordinal input :=
        ⟨isSummary, entries, later, message, inTable, ofThread, rfl⟩
      exact ⟨holds, latest, fun entry isEntry => (ordinal_le_of_entries entries entry isEntry).2⟩
    next => exact ⟨trivial, trivial⟩
    next => exact ⟨trivial, trivial⟩

theorem lookAt_holds (ordinals : OrdinalsInv db) {fits : RequestSnapshot → Bool} {thread? : Option Thread}
    (ofThread : ∀ thread ∈ thread?, thread.id = threadId)
    (looked : lookAt compactionSettings surroundings fits db thread? summary phase = some phase') :
    (phase.Holds db threadId summary → phase'.Holds db threadId summary) ∧ phase'.LeavesLatest db threadId := by
  cases phase with
  | composed snapshot =>
    simp only [lookAt] at looked
    split at looked
    · cases looked
      exact ⟨fun holds => holds, trivial⟩
    · split at looked
      · cases looked
        exact ⟨fun _ => trivial, trivial⟩
      · split at looked <;> cases looked
        · exact ⟨fun holds => holds, trivial⟩
        · exact ⟨fun _ => trivial, trivial⟩
        · exact ⟨fun _ => trivial, trivial⟩
  | looking snapshot =>
    simp only [lookAt] at looked
    split at looked
    · cases looked
      exact ⟨fun holds => holds, trivial⟩
    · split at looked
      · cases looked
        exact ⟨fun _ => trivial, trivial⟩
      next thread =>
        cases looked
        obtain rfl := ofThread thread rfl
        exact ⟨fun _ => (beginSummary_holds ordinals).1, (beginSummary_holds ordinals).2⟩
  | calling | storing | requesting | ended => cases looked

theorem replyTo_holds {reply : SummaryReply} (replied : replyTo reply phase = some phase') :
    (phase.Holds db threadId summary → phase'.Holds db threadId summary) ∧
      (phase.LeavesLatest db threadId → phase'.LeavesLatest db threadId) := by
  cases phase with
  | calling cutoff input attempt =>
    simp only [replyTo] at replied
    split at replied
    · cases replied
      exact ⟨fun _ => trivial, fun _ => trivial⟩
    · split at replied
      · cases replied
        exact ⟨fun holds => holds, fun leaves => leaves⟩
      · split at replied <;> cases replied
        · exact ⟨fun holds => holds, fun leaves => leaves⟩
        · exact ⟨fun _ => trivial, fun _ => trivial⟩
  | composed | looking | storing | requesting | ended => cases replied

end

end Oveo.Context
