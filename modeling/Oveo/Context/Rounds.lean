import Mathlib.Tactic.Ring
import Oveo.Context.Handoff
import Oveo.Lib.Greedy
import Oveo.Lib.Machine

/-! # The rounds of a prompt handoff

From the second half of `_compact_handoff_context` on: an extract of each source chunk, and then
rounds of merge requests until all extracts fit one request.  What the provider answers is arbitrary. -/

namespace Oveo.Context

open Oveo.Lib

/-! ## The machine -/

/-- An extract, with the source chunks that went into it. -/
structure Extract where
  text : Str
  sources : List Nat
deriving DecidableEq

def texts (extracts : List Extract) : List Str := extracts.map Extract.text

def sources (extracts : List Extract) : List Nat := extracts.flatMap Extract.sources

inductive Phase where
  /-- The chunk after those of the extracts is requested. -/
  | sourcing (extracts : List Extract)
  /-- At the head of the loop. -/
  | choosing (extracts : List Extract)
  /-- The first of the groups is requested. -/
  | merging (extracts : List Extract) (groups : List (List Extract)) (results : List Extract)
  /-- The final snapshot holds these. -/
  | finished (extracts : List Extract)
  | failed
deriving DecidableEq

structure Merging where
  phase : Phase
  /-- The groups whose merge requests were sent. -/
  sent : List (List Extract)
deriving DecidableEq

inductive MergeAction where
  /-- On with the code between two requests. -/
  | proceed
  /-- The request is answered by one deliverable. -/
  | answer (text : Str)
  /-- The request fails, or what answers it is no extract. -/
  | fail

section

variable (fits : List Str → Bool) (chunks : Nat)

/-- The head of the loop.  `build_handoff_merge_messages` raises for no extracts and for a blank one. -/
def chooseRound (extracts : List Extract) : Phase :=
  if extracts.isEmpty || extracts.any fun extract => isBlank extract.text then .failed
  else if fits (texts extracts) then .finished extracts
  else
    match greedyFrom (fun group => fits (texts group)) [] extracts with
    | none => .failed
    | some groups => if groups.length ≥ extracts.length then .failed else .merging extracts groups []

def Merging.step (state : Merging) : MergeAction → Option Merging
  | .proceed =>
    match state.phase with
    | .sourcing extracts => if extracts.length < chunks then none else some { state with phase := .choosing extracts }
    | .choosing extracts => some { state with phase := chooseRound fits extracts }
    | .merging _ [] results => some { state with phase := .choosing results }
    | _ => none
  | .answer text =>
    match state.phase with
    | .sourcing extracts =>
      if extracts.length < chunks then some { state with phase := .sourcing (extracts ++ [⟨text, [extracts.length]⟩]) } else none
    | .merging extracts (group :: groups) results =>
      some { phase := .merging extracts groups (results ++ [⟨text, sources group⟩]), sent := state.sent ++ [group] }
    | _ => none
  | .fail =>
    match state.phase with
    | .sourcing extracts => if extracts.length < chunks then some { state with phase := .failed } else none
    | .merging _ (group :: _) _ => some { phase := .failed, sent := state.sent ++ [group] }
    | _ => none

/-- A handoff of so many source chunks. -/
def handoffMerging : Machine Merging MergeAction where
  init state := state = { phase := .sourcing [], sent := [] }
  step := Merging.step fits chunks

end

/-! ## The groups -/

section

variable {fits : List Str → Bool} {chunks : Nat}

theorem groupExtracts_eq {groups : List (List Str)} {current extracts : List Str} :
    groupExtracts fits groups current extracts = (greedyFrom fits current extracts).map fun more => groups ++ more := by
  induction extracts generalizing groups current with
  | nil =>
    rw [groupExtracts, greedyFrom]
    split <;> simp
  | cons extract extracts inductionHypothesis =>
    rw [groupExtracts, greedyFrom, inductionHypothesis, inductionHypothesis]
    split
    next => rfl
    next =>
      split
      next => rfl
      next =>
        rw [Option.map_map]
        exact congrArg (Option.map · _) (funext fun more => List.append_assoc _ _ _)

/-- The machine groups as the code does. -/
theorem boundedHandoffGroups_texts (extracts : List Extract) :
    boundedHandoffGroups fits (texts extracts) =
      (greedyFrom (fun group => fits (texts group)) [] extracts).map fun groups => groups.map texts := by
  rw [boundedHandoffGroups, groupExtracts_eq, show (fun more : List (List Str) => [] ++ more) = id from rfl, Option.map_id, id_eq]
  exact @greedyFrom_map _ _ fits Extract.text [] extracts

theorem boundedHandoffGroups_grouped {extracts : List Str} {groups : List (List Str)}
    (isGrouped : boundedHandoffGroups fits extracts = some groups) : Grouped fits [] extracts groups := by
  rw [boundedHandoffGroups, groupExtracts_eq, show (fun more : List (List Str) => [] ++ more) = id from rfl, Option.map_id, id_eq]
    at isGrouped
  exact grouped_of_greedyFrom isGrouped

end

/-! ## What a step does -/

section

variable {fits : List Str → Bool} {chunks : Nat} {state next : Merging} {action : MergeAction} {extracts : List Extract}

/-- The phase after another one, and the groups whose requests were sent meanwhile. -/
inductive PhaseStep (fits : List Str → Bool) (chunks : Nat) : Phase → Phase → List (List Extract) → Prop where
  | sourced {extracts : List Extract} {text : Str} (isNext : extracts.length < chunks) :
      PhaseStep fits chunks (.sourcing extracts) (.sourcing (extracts ++ [⟨text, [extracts.length]⟩])) []
  | allSourced {extracts : List Extract} (isAll : chunks ≤ extracts.length) :
      PhaseStep fits chunks (.sourcing extracts) (.choosing extracts) []
  | sourceFailed {extracts : List Extract} : PhaseStep fits chunks (.sourcing extracts) .failed []
  | chosen {extracts : List Extract} : PhaseStep fits chunks (.choosing extracts) (chooseRound fits extracts) []
  | merged {extracts group results : List Extract} {groups : List (List Extract)} {text : Str} :
      PhaseStep fits chunks (.merging extracts (group :: groups) results) (.merging extracts groups (results ++ [⟨text, sources group⟩]))
        [group]
  | allMerged {extracts results : List Extract} : PhaseStep fits chunks (.merging extracts [] results) (.choosing results) []
  | mergeFailed {extracts group results : List Extract} {groups : List (List Extract)} :
      PhaseStep fits chunks (.merging extracts (group :: groups) results) .failed [group]

theorem Merging.step_cases (taken : state.step fits chunks action = some next) :
    ∃ sent, PhaseStep fits chunks state.phase next.phase sent ∧ next.sent = state.sent ++ sent := by
  obtain ⟨phase, before⟩ := state
  cases action with
  | proceed =>
    cases phase <;> simp only [Merging.step] at taken
    case sourcing extracts =>
      split at taken
      next => cases taken
      next isAll =>
        cases taken
        exact ⟨[], .allSourced (Nat.le_of_not_lt isAll), (List.append_nil _).symm⟩
    case choosing extracts =>
      cases taken
      exact ⟨[], .chosen, (List.append_nil _).symm⟩
    case merging extracts groups results =>
      cases groups with
      | nil =>
        cases taken
        exact ⟨[], .allMerged, (List.append_nil _).symm⟩
      | cons => cases taken
    all_goals cases taken
  | answer text =>
    cases phase <;> simp only [Merging.step] at taken
    case sourcing extracts =>
      split at taken
      next isNext =>
        cases taken
        exact ⟨[], .sourced isNext, (List.append_nil _).symm⟩
      next => cases taken
    case merging extracts groups results =>
      cases groups with
      | nil => cases taken
      | cons group groups =>
        cases taken
        exact ⟨[group], .merged, rfl⟩
    all_goals cases taken
  | fail =>
    cases phase <;> simp only [Merging.step] at taken
    case sourcing extracts =>
      split at taken
      next =>
        cases taken
        exact ⟨[], .sourceFailed, (List.append_nil _).symm⟩
      next => cases taken
    case merging extracts groups results =>
      cases groups with
      | nil => cases taken
      | cons group groups =>
        cases taken
        exact ⟨[group], .mergeFailed, rfl⟩
    all_goals cases taken

/-- The groups of a round that goes on. -/
structure IsRound (fits : List Str → Bool) (extracts : List Extract) (groups : List (List Extract)) : Prop where
  isGreedy : greedyFrom (fun group => fits (texts group)) [] extracts = some groups
  fewer : groups.length < extracts.length
  tooLarge : fits (texts extracts) = false
  written : ∀ extract ∈ extracts, isBlank extract.text = false

theorem chooseRound_cases (fits : List Str → Bool) (extracts : List Extract) :
    chooseRound fits extracts = .failed ∨
      (chooseRound fits extracts = .finished extracts ∧ fits (texts extracts) = true) ∨
      ∃ groups, chooseRound fits extracts = .merging extracts groups [] ∧ IsRound fits extracts groups := by
  unfold chooseRound
  split
  next => exact .inl rfl
  next isWritten =>
    split
    next isFitting => exact .inr (.inl ⟨rfl, isFitting⟩)
    next tooLarge =>
      split
      next => exact .inl rfl
      next groups isGreedy =>
        split
        next => exact .inl rfl
        next fewer =>
          refine .inr (.inr ⟨groups, rfl, isGreedy, Nat.lt_of_not_le fewer, Bool.eq_false_iff.mpr tooLarge, ?_⟩)
          simp only [Bool.or_eq_true, not_or, List.any_eq_true, not_exists, not_and, Bool.not_eq_true] at isWritten
          exact isWritten.2

theorem chooseRound_eq_merging {groups : List (List Extract)} (isRound : IsRound fits extracts groups) :
    chooseRound fits extracts = .merging extracts groups [] := by
  have isNonempty : extracts.isEmpty = false := by
    cases extracts with
    | nil => exact absurd isRound.fewer (Nat.not_lt_zero _)
    | cons => rfl
  have isWritten : (extracts.any fun extract => isBlank extract.text) = false :=
    List.any_eq_false.mpr fun extract listed => Bool.eq_false_iff.mp (isRound.written extract listed)
  rw [chooseRound, isNonempty, isWritten, isRound.tooLarge, isRound.isGreedy]
  exact if_neg (Nat.not_le_of_lt isRound.fewer)

end

/-! ## What every round keeps -/

section

variable {fits : List Str → Bool} {chunks : Nat} {phase next : Phase} {sent : List (List Extract)}

@[simp] theorem sources_append (first second : List Extract) : sources (first ++ second) = sources first ++ sources second :=
  List.flatMap_append

@[simp] theorem sources_singleton (extract : Extract) : sources [extract] = extract.sources := List.flatMap_singleton _ _

/-- Each source chunk is in the extracts exactly once, in order. -/
def PhaseInv (fits : List Str → Bool) (chunks : Nat) : Phase → Prop
  | .sourcing extracts => sources extracts = List.range extracts.length ∧ extracts.length ≤ chunks
  | .choosing extracts => sources extracts = List.range chunks
  | .merging extracts groups results =>
    sources results ++ sources groups.flatten = List.range chunks ∧ results.length + groups.length < extracts.length
  | .finished extracts => sources extracts = List.range chunks ∧ fits (texts extracts) = true
  | .failed => True

theorem PhaseInv.step (holds : PhaseInv fits chunks phase) (stepped : PhaseStep fits chunks phase next sent) :
    PhaseInv fits chunks next := by
  cases stepped with
  | @sourced extracts text isNext =>
    obtain ⟨isRange, -⟩ := holds
    refine ⟨?_, ?_⟩
    · rw [sources_append, isRange, sources_singleton, List.length_append, List.length_singleton, List.range_succ]
    · rw [List.length_append, List.length_singleton]
      exact isNext
  | allSourced isAll =>
    obtain ⟨isRange, isBounded⟩ := holds
    rw [PhaseInv, isRange, Nat.le_antisymm isBounded isAll]
  | sourceFailed => trivial
  | @chosen extracts =>
    rcases chooseRound_cases fits extracts with isFailed | ⟨isFinished, isFitting⟩ | ⟨groups, isMerging, isRound⟩
    · rw [isFailed]
      trivial
    · rw [isFinished]
      exact ⟨holds, isFitting⟩
    · rw [isMerging]
      refine ⟨?_, by simpa using isRound.fewer⟩
      rw [(grouped_of_greedyFrom isRound.isGreedy).flatten]
      exact holds
  | @merged extracts group results groups text =>
    obtain ⟨isRange, fewer⟩ := holds
    refine ⟨?_, ?_⟩
    · rw [sources_append, sources_singleton, List.append_assoc, ← sources_append, ← List.flatten_cons]
      exact isRange
    · simp only [List.length_append, List.length_cons, List.length_nil] at fewer ⊢
      omega
  | allMerged => simpa [PhaseInv, sources] using holds.1
  | mergeFailed => trivial

theorem phaseInv_of_reachable {allowed : Merging → MergeAction → Prop} {state : Merging}
    (reachable : (handoffMerging fits chunks).ReachableVia allowed state) : PhaseInv fits chunks state.phase := by
  refine Machine.invariant (fun state => PhaseInv fits chunks state.phase) ?_ ?_ reachable
  · rintro state rfl
    exact ⟨rfl, Nat.zero_le _⟩
  · intro state action next holds _ taken
    obtain ⟨sent, stepped, -⟩ := Merging.step_cases taken
    exact holds.step stepped

/-! ## The rounds end -/

/-- How many steps a handoff takes from a phase on, at most. -/
def Phase.rank (chunks : Nat) : Phase → Nat
  | .sourcing extracts => chunks - extracts.length + 1 + (chunks + 1) ^ 2
  | .choosing extracts => (extracts.length + 1) ^ 2
  | .merging _ groups results => groups.length + 1 + (results.length + groups.length + 1) ^ 2
  | .finished _ | .failed => 0

theorem PhaseStep.rank_lt (holds : PhaseInv fits chunks phase) (stepped : PhaseStep fits chunks phase next sent) :
    next.rank chunks < phase.rank chunks := by
  cases stepped with
  | sourced isNext =>
    simp only [Phase.rank, List.length_append, List.length_singleton]
    omega
  | allSourced isAll =>
    simp only [Phase.rank, Nat.le_antisymm holds.2 isAll]
    omega
  | sourceFailed => exact Nat.lt_of_lt_of_le (Nat.succ_pos _) (Nat.le_add_right _ _)
  | @chosen extracts =>
    rcases chooseRound_cases fits extracts with isFailed | ⟨isFinished, -⟩ | ⟨groups, isMerging, isRound⟩
    · rw [isFailed]
      exact Nat.pow_pos (Nat.succ_pos _)
    · rw [isFinished]
      exact Nat.pow_pos (Nat.succ_pos _)
    · rw [isMerging]
      have wider : (groups.length + 1 + 1) ^ 2 ≤ (extracts.length + 1) ^ 2 :=
        Nat.pow_le_pow_left (Nat.succ_le_succ (Nat.succ_le_of_lt isRound.fewer)) 2
      have squared : (groups.length + 1 + 1) ^ 2 = (groups.length + 1) ^ 2 + 2 * (groups.length + 1) + 1 := by ring
      simp only [Phase.rank, List.length_nil, Nat.zero_add]
      omega
  | @merged extracts group results groups text =>
    simp only [Phase.rank, List.length_append, List.length_cons, List.length_nil]
    rw [show results.length + (0 + 1) + groups.length + 1 = results.length + (groups.length + 1) + 1 by omega]
    omega
  | allMerged =>
    simp only [Phase.rank, List.length_nil, Nat.add_zero]
    omega
  | mergeFailed => exact Nat.lt_of_lt_of_le (Nat.succ_pos _) (Nat.le_add_right _ _)

theorem run_rank {actions : List MergeAction} {state finish : Merging} (holds : PhaseInv fits chunks state.phase)
    (ran : (handoffMerging fits chunks).run state actions = some finish) :
    actions.length + finish.phase.rank chunks ≤ state.phase.rank chunks := by
  induction actions generalizing state with
  | nil =>
    cases ran
    exact (Nat.zero_add _).le
  | cons action actions inductionHypothesis =>
    rw [Machine.run] at ran
    split at ran
    next following taken =>
      obtain ⟨sent, stepped, -⟩ := Merging.step_cases taken
      have later := inductionHypothesis (holds.step stepped) ran
      have smaller := stepped.rank_lt holds
      rw [List.length_cons]
      omega
    next => cases ran

end

/-! ## Rounds without an untested request -/

section

variable {fits : List Str → Bool} {chunks : Nat} {state next : Merging} {extracts : List Extract} {groups : List (List Extract)}

/-- A round of these extracts sends no merge request that was not tested. -/
inductive Tested (fits : List Str → Bool) (extracts : List Str) : Prop where
  /-- The handoff fails, as one of them is blank. -/
  | blank {extract : Str} (isListed : extract ∈ extracts) (isBlank : isBlank extract = true)
  /-- There is no round, as all of them fit together. -/
  | together (isFitting : fits extracts = true)
  /-- The handoff fails, as the first does not fit alone. -/
  | firstTooLarge {first : Str} (isFirst : extracts.head? = some first) (isTooLarge : fits [first] = false)
  /-- The handoff fails, as no two neighbours fit together. -/
  | apart (areApart : Apart fits extracts)
  /-- Each of them fits alone. -/
  | each (areFitting : ∀ extract ∈ extracts, fits [extract] = true)

/-- The round that is about to start is tested. -/
def TestedRound (fits : List Str → Bool) (state : Merging) : Prop :=
  ∀ extracts, state.phase = .choosing extracts → Tested fits (texts extracts)

theorem apart_texts : Apart fits (texts extracts) ↔ Apart (fun group => fits (texts group)) extracts := List.isChain_map _

/-- A round goes on when the first extract fits alone. -/
theorem IsRound.first (isRound : IsRound fits extracts groups) :
    ∃ first rest, extracts = first :: rest ∧ fits [first.text] = true ∧
      greedyFrom (fun group => fits (texts group)) [first] rest = some groups := by
  obtain ⟨isGreedy, fewer, -, -⟩ := isRound
  cases extracts with
  | nil => exact absurd fewer (Nat.not_lt_zero _)
  | cons first rest =>
    rw [greedyFrom] at isGreedy
    split at isGreedy
    next isFitting => exact ⟨first, rest, rfl, isFitting, isGreedy⟩
    next => cases isGreedy

theorem IsRound.not_apart (isRound : IsRound fits extracts groups) : ¬ Apart fits (texts extracts) := by
  intro areApart
  obtain ⟨first, rest, rfl, -, isGreedy⟩ := isRound.first
  have asMany := (grouped_of_greedyFrom isGreedy).length_iff.mpr (apart_texts.mp areApart)
  exact absurd isRound.fewer (by rw [asMany, List.length_cons]; exact Nat.lt_irrefl _)

theorem IsRound.fitting (isRound : IsRound fits extracts groups) (tested : Tested fits (texts extracts)) :
    ∀ group ∈ groups, fits (texts group) = true := by
  cases tested with
  | blank isListed isBlank =>
    obtain ⟨extract, listed, rfl⟩ := List.mem_map.mp isListed
    exact absurd (isRound.written extract listed) (by simp [isBlank])
  | together isFitting => exact absurd isRound.tooLarge (by simp [isFitting])
  | firstTooLarge isFirst isTooLarge =>
    obtain ⟨first, rest, rfl, isFitting, -⟩ := isRound.first
    cases isFirst
    exact absurd isFitting (by simp [isTooLarge])
  | apart areApart => exact absurd areApart isRound.not_apart
  | each areFitting =>
    exact (grouped_of_greedyFrom isRound.isGreedy).passing
      (fun extract listed => areFitting _ (List.mem_map_of_mem listed)) fun isNonempty => absurd rfl isNonempty

/-- What was sent fits, and so does what the round still sends. -/
structure Fitting (fits : List Str → Bool) (state : Merging) : Prop where
  sent : ∀ group ∈ state.sent, fits (texts group) = true
  upcoming : ∀ extracts groups results, state.phase = .merging extracts groups results →
    ∀ group ∈ groups, fits (texts group) = true

theorem Fitting.step {phase : Phase} {sent : List (List Extract)} (fitting : Fitting fits state) (tested : TestedRound fits state)
    (stepped : PhaseStep fits chunks state.phase phase sent) : Fitting fits ⟨phase, state.sent ++ sent⟩ := by
  obtain ⟨before, history⟩ := state
  obtain ⟨isSent, isUpcoming⟩ := fitting
  cases stepped with
  | @chosen extracts =>
    refine ⟨by simpa using isSent, fun round groups results isMerging => ?_⟩
    rcases chooseRound_cases fits extracts with isFailed | ⟨isFinished, -⟩ | ⟨groups, isRound, holds⟩
    · cases isFailed.symm.trans isMerging
    · cases isFinished.symm.trans isMerging
    · cases isRound.symm.trans isMerging
      exact holds.fitting (tested extracts rfl)
  | merged =>
    obtain ⟨isFirst, areOthers⟩ := List.forall_mem_cons.mp (isUpcoming _ _ _ rfl)
    refine ⟨List.forall_mem_append.mpr ⟨isSent, by simpa using isFirst⟩, ?_⟩
    intro round groups results isMerging
    cases isMerging
    exact areOthers
  | mergeFailed =>
    obtain ⟨isFirst, -⟩ := List.forall_mem_cons.mp (isUpcoming _ _ _ rfl)
    exact ⟨List.forall_mem_append.mpr ⟨isSent, by simpa using isFirst⟩, fun _ _ _ isMerging => nomatch isMerging⟩
  | sourced | allSourced | sourceFailed | allMerged =>
    exact ⟨by simpa using isSent, fun _ _ _ isMerging => nomatch isMerging⟩

/-- A request with more extracts does not fit where one with fewer does not. -/
def ShorterFit (fits : List Str → Bool) : Prop := ∀ part whole, part <:+: whole → fits whole = true → fits part = true

/-- Where a round is not tested, one of its requests does not fit. -/
theorem round_of_untested (shorterFit : ShorterFit fits) (untested : ¬ Tested fits (texts extracts)) :
    ∃ groups, IsRound fits extracts groups ∧ ∃ group ∈ groups, fits (texts group) = false := by
  have isWritten : ∀ extract ∈ extracts, isBlank extract.text = false := fun extract listed =>
    Bool.eq_false_iff.mpr fun isBlank => untested (.blank (List.mem_map_of_mem listed) isBlank)
  have isTooLarge : fits (texts extracts) = false := Bool.eq_false_iff.mpr fun isFitting => untested (.together isFitting)
  have notEach : ¬ ∀ extract ∈ extracts, fits [extract.text] = true := fun each =>
    untested (.each fun text listed => by
      obtain ⟨extract, isListed, rfl⟩ := List.mem_map.mp listed
      exact each extract isListed)
  push Not at notEach
  obtain ⟨large, isListed, notFitting⟩ := notEach
  cases extracts with
  | nil => cases isListed
  | cons first rest =>
    have isFirst : fits [first.text] = true := by
      by_contra tooLarge
      exact untested (.firstTooLarge rfl (Bool.eq_false_iff.mpr tooLarge))
    obtain ⟨groups, isGreedy⟩ := @greedyFrom_isSome _ (fun group => fits (texts group)) [first] rest (List.cons_ne_nil _ _)
    have grouped := grouped_of_greedyFrom isGreedy
    have bounded : groups.length ≤ rest.length + 1 := grouped.length
    have notAll : groups.length ≠ rest.length + 1 := fun asMany =>
      untested (.apart (apart_texts.mpr (grouped.length_iff.mp asMany)))
    refine ⟨groups, ⟨?_, by rw [List.length_cons]; omega, isTooLarge, isWritten⟩, ?_⟩
    · rw [greedyFrom, if_pos (by exact isFirst)]
      exact isGreedy
    · rw [← List.singleton_append, ← grouped.flatten, List.mem_flatten] at isListed
      obtain ⟨group, isGroup, inGroup⟩ := isListed
      refine ⟨group, isGroup, Bool.eq_false_iff.mpr fun isFitting => notFitting (shorterFit _ _ ?_ isFitting)⟩
      obtain ⟨before, after, rfl⟩ := List.append_of_mem inGroup
      exact ⟨texts before, texts after, by simp [texts]⟩

/-- Where every request is answered, all requests of the round are sent. -/
theorem answers_send {round results : List Extract} (merging : state.phase = .merging round groups results) :
    ∃ later, (handoffMerging fits chunks).Steps state later ∧ later.sent = state.sent ++ groups := by
  induction groups generalizing state results with
  | nil => exact ⟨state, .refl, (List.append_nil _).symm⟩
  | cons group groups inductionHypothesis =>
    obtain ⟨phase, history⟩ := state
    cases merging
    obtain ⟨later, steps, isSent⟩ := @inductionHypothesis
      ⟨.merging round groups (results ++ [⟨[], sources group⟩]), history ++ [group]⟩ _ rfl
    exact ⟨later, steps.head ⟨.answer [], rfl⟩, by rw [isSent, List.append_assoc]; rfl⟩

/-- What holds of every state of a handoff, whatever the provider answers. -/
structure RoundsHold (fits : List Str → Bool) (chunks : Nat) (state : Merging) : Prop where
  /-- A round ends with fewer extracts than it began with. -/
  shrinking : ∀ extracts groups results, state.phase = .merging extracts groups results → results.length + groups.length < extracts.length
  /-- The final snapshot fits, and each source chunk is in it exactly once. -/
  final : ∀ extracts, state.phase = .finished extracts → fits (texts extracts) = true ∧ sources extracts = List.range chunks

theorem roundsHold_of_inv (holds : PhaseInv fits chunks state.phase) : RoundsHold fits chunks state := by
  constructor
  · intro extracts groups results isMerging
    rw [isMerging] at holds
    exact holds.2
  · intro extracts isFinished
    rw [isFinished] at holds
    exact ⟨holds.2, holds.1⟩

/-- The rounds of a handoff end, and merge every source chunk exactly once.  While every round is
tested, every merge request that is sent fits; a round that is not tested may send one that does not. -/
theorem merge_requests_fit (fits : List Str → Bool) (chunks : Nat) :
    (∀ extracts groups, boundedHandoffGroups fits extracts = some groups → groups.flatten = extracts ∧ ∀ group ∈ groups, group ≠ []) ∧
    (∀ state, (handoffMerging fits chunks).Reachable state → RoundsHold fits chunks state) ∧
    (∀ actions state, (handoffMerging fits chunks).run ⟨.sourcing [], []⟩ actions = some state →
      actions.length ≤ chunks + 1 + (chunks + 1) ^ 2) ∧
    (∀ state, (handoffMerging fits chunks).ReachableVia (fun state _ => TestedRound fits state) state →
      ∀ group ∈ state.sent, fits (texts group) = true) ∧
    (ShorterFit fits → ∀ state, (handoffMerging fits chunks).Reachable state → ¬ TestedRound fits state →
      ∃ later, (handoffMerging fits chunks).Steps state later ∧ ∃ group ∈ later.sent, fits (texts group) = false) := by
  refine ⟨?_, ?_, ?_, ?_, ?_⟩
  · intro extracts groups isGrouped
    have grouped := boundedHandoffGroups_grouped isGrouped
    exact ⟨grouped.flatten, grouped.nonempty⟩
  · intro state reachable
    exact roundsHold_of_inv (phaseInv_of_reachable reachable)
  · intro actions state ran
    have bounded := @run_rank fits chunks actions ⟨.sourcing [], []⟩ state ⟨rfl, Nat.zero_le _⟩ ran
    exact Nat.le_trans (Nat.le_add_right _ _) bounded
  · intro state reachable
    refine (Machine.invariant (Fitting fits) ?_ ?_ reachable).sent
    · rintro state rfl
      exact ⟨fun _ listed => (nomatch listed), fun _ _ _ isMerging => (nomatch isMerging)⟩
    · rintro state action ⟨phase, history⟩ fitting tested taken
      obtain ⟨sent, stepped, rfl⟩ := Merging.step_cases taken
      exact fitting.step tested stepped
  · intro shorterFit state _ untested
    obtain ⟨phase, history⟩ := state
    simp only [TestedRound, not_forall] at untested
    obtain ⟨extracts, rfl, untested⟩ := untested
    obtain ⟨groups, isRound, group, isGroup, notFitting⟩ := round_of_untested shorterFit untested
    obtain ⟨later, steps, isSent⟩ := @answers_send fits chunks ⟨.merging extracts groups [], history⟩ groups _ _ rfl
    refine ⟨later, steps.head ⟨.proceed, ?_⟩, group, isSent ▸ List.mem_append_right _ isGroup, notFitting⟩
    exact congrArg some (by rw [chooseRound_eq_merging isRound])

end

/-- Two short extracts and one that is too large: the first request of the round is answered, and
the second one, of the large extract alone, is sent although it does not fit. -/
theorem untested_request_sent :
    ∃ state, (handoffMerging (fun group => decide (group.flatten.length ≤ 4)) 3).Reachable state ∧
      ∃ group ∈ state.sent, (decide ((texts group).flatten.length ≤ 4)) = false := by
  let actions : List MergeAction := [.answer (str "a"), .answer (str "b"), .answer (str "large"), .proceed, .proceed,
    .answer (str "ab"), .answer (str "large")]
  let first : List Extract := [⟨str "a", [0]⟩, ⟨str "b", [1]⟩]
  let second : List Extract := [⟨str "large", [2]⟩]
  have ran : (handoffMerging (fun group => decide (group.flatten.length ≤ 4)) 3).run ⟨.sourcing [], []⟩ actions =
      some ⟨.merging (first ++ second) [] [⟨str "ab", [0, 1]⟩, ⟨str "large", [2]⟩], [first, second]⟩ := by decide
  exact ⟨_, Machine.reachable_of_run (.init rfl) ran, second, by simp, by decide⟩

end Oveo.Context
