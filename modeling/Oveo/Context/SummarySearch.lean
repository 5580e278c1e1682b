import Oveo.Context.Compaction
import Oveo.Lib.Bisect

/-! # The largest summary snapshot that fits

The loop of `_largest_bounded_summary_snapshot` ends for every list of candidates, and its result is that of
a binary search for the last success.  Nothing is assumed of the predicate, except for the claim that no
longer prefix fits. -/

namespace Oveo.Context

open Oveo.Lib Oveo.Store Oveo.Lifecycle

/-- The snapshot of a summary call through an ordinal. -/
def summarySnapshot (surroundings : Surroundings) (db : Db) (thread : Thread) (summary : Summary) (cutoff : Nat) :
    Except ContextError RequestSnapshot :=
  requestSnapshot surroundings db thread summary .summary none (some cutoff)

section

variable (snapshotThrough : Nat → Except ContextError RequestSnapshot) (fits : RequestSnapshot → Bool) (candidates : List Message)

/-- The `while` loop, one iteration after the other, from its bounds and `best` to what it returns or raises. -/
inductive SearchLoop : Nat → Nat → Option (Nat × RequestSnapshot) → Except ContextError (Option (Nat × RequestSnapshot)) → Prop where
  | ends {low stop best} : stop ≤ low → SearchLoop low stop best (.ok best)
  | raises {low stop best message error} : low < stop → candidates[(low + stop - 1) / 2]? = some message →
      snapshotThrough message.ordinal = .error error → SearchLoop low stop best (.error error)
  | fitting {low stop best message candidate result} : low < stop → candidates[(low + stop - 1) / 2]? = some message →
      snapshotThrough message.ordinal = .ok candidate → fits candidate = true →
      SearchLoop ((low + stop - 1) / 2 + 1) stop (some (message.ordinal, candidate)) result → SearchLoop low stop best result
  | exceeding {low stop best message candidate result} : low < stop → candidates[(low + stop - 1) / 2]? = some message →
      snapshotThrough message.ordinal = .ok candidate → fits candidate = false →
      SearchLoop low ((low + stop - 1) / 2) best result → SearchLoop low stop best result

/-- The snapshot through this candidate fits. -/
def FitsAt (index : Nat) : Prop :=
  ∃ message candidate, candidates[index]? = some message ∧ snapshotThrough message.ordinal = .ok candidate ∧ fits candidate = true

/-- Where a longer prefix fits, so does a shorter one. -/
def FitsDownward : Prop :=
  ∀ first second, first ≤ second → FitsAt snapshotThrough fits candidates second → FitsAt snapshotThrough fits candidates first

/-- What a search through all the candidates may return. -/
structure LargestBounded (result : Except ContextError (Option (Nat × RequestSnapshot))) : Prop where
  ends : SearchLoop snapshotThrough fits candidates 0 candidates.length none result
  found : ∀ cutoff snapshot, result = .ok (some (cutoff, snapshot)) →
    ∃ index message, candidates[index]? = some message ∧ cutoff = message.ordinal ∧
      snapshotThrough cutoff = .ok snapshot ∧ fits snapshot = true ∧
      (FitsDownward snapshotThrough fits candidates → ∀ other, FitsAt snapshotThrough fits candidates other ↔ other ≤ index)
  nothing : result = .ok none →
    ∃ message snapshot, candidates[0]? = some message ∧ snapshotThrough message.ordinal = .ok snapshot ∧ fits snapshot = false
  nothingExactly : FitsDownward snapshotThrough fits candidates → (∀ error, result ≠ .error error) →
    (result = .ok none ↔ ¬ FitsAt snapshotThrough fits candidates 0)
  raised : ∀ error, result = .error error → ∃ message ∈ candidates, snapshotThrough message.ordinal = .error error

/-- What the loop makes of one candidate. -/
def probeCandidate (index : Nat) : Except ContextError (Option (Nat × RequestSnapshot)) :=
  match candidates[index]? with
  | none => .ok none
  | some message =>
    (snapshotThrough message.ordinal).map fun candidate => if fits candidate then some (message.ordinal, candidate) else none

end

section

variable {snapshotThrough : Nat → Except ContextError RequestSnapshot} {fits : RequestSnapshot → Bool} {candidates : List Message}

theorem probeCandidate_eq_some {index : Nat} {found : Nat × RequestSnapshot} :
    probeCandidate snapshotThrough fits candidates index = .ok (some found) ↔ ∃ message, candidates[index]? = some message ∧
      found.1 = message.ordinal ∧ snapshotThrough message.ordinal = .ok found.2 ∧ fits found.2 = true := by
  obtain ⟨cutoff, snapshot⟩ := found
  unfold probeCandidate
  cases candidates[index]? with
  | none => simp
  | some message =>
    cases built : snapshotThrough message.ordinal with
    | error error => simp [Except.map, built]
    | ok candidate =>
      simp only [Except.map, Except.ok.injEq, Option.some.injEq, exists_eq_left', built]
      split
      next fitting =>
        simp only [Option.some.injEq, Prod.mk.injEq]
        constructor
        · rintro ⟨rfl, rfl⟩
          exact ⟨rfl, rfl, fitting⟩
        · rintro ⟨rfl, rfl, -⟩
          exact ⟨rfl, rfl⟩
      next exceeding =>
        constructor
        · intro isNone
          cases isNone
        · rintro ⟨-, rfl, fitting⟩
          exact absurd fitting exceeding

theorem fitsAt_iff {index : Nat} : FitsAt snapshotThrough fits candidates index ↔
    ∃ found, probeCandidate snapshotThrough fits candidates index = .ok (some found) := by
  constructor
  · rintro ⟨message, candidate, isMessage, built, fitting⟩
    exact ⟨(message.ordinal, candidate), probeCandidate_eq_some.mpr ⟨message, isMessage, rfl, built, fitting⟩⟩
  · rintro ⟨found, probed⟩
    obtain ⟨message, isMessage, -, built, fitting⟩ := probeCandidate_eq_some.mp probed
    exact ⟨message, found.2, isMessage, built, fitting⟩

theorem probeCandidate_eq_none {index : Nat} {message : Message} (isMessage : candidates[index]? = some message)
    (probed : probeCandidate snapshotThrough fits candidates index = .ok none) :
    ∃ snapshot, snapshotThrough message.ordinal = .ok snapshot ∧ fits snapshot = false := by
  unfold probeCandidate at probed
  rw [isMessage] at probed
  cases built : snapshotThrough message.ordinal with
  | error error => simp [Except.map, built] at probed
  | ok snapshot =>
    simp only [built, Except.map, Except.ok.injEq] at probed
    split at probed
    next => cases probed
    next exceeding => exact ⟨snapshot, rfl, by simpa using exceeding⟩

theorem probeCandidate_error {index : Nat} {error : ContextError} (probed : probeCandidate snapshotThrough fits candidates index = .error error) :
    ∃ message ∈ candidates, snapshotThrough message.ordinal = .error error := by
  unfold probeCandidate at probed
  split at probed
  next => cases probed
  next message isMessage =>
    refine ⟨message, List.mem_of_getElem? isMessage, ?_⟩
    cases built : snapshotThrough message.ordinal with
    | error raised =>
      rw [built] at probed
      cases probed
      rfl
    | ok snapshot =>
      rw [built] at probed
      cases probed

theorem searchSnapshot_loop {fuel low stop : Nat} {best : Option (Nat × RequestSnapshot)} (enough : stop - low ≤ fuel)
    (inside : stop ≤ candidates.length) :
    SearchLoop snapshotThrough fits candidates low stop best (searchSnapshot snapshotThrough fits candidates fuel low stop best) := by
  induction fuel generalizing low stop best with
  | zero => exact .ends (by omega)
  | succ fuel inductionHypothesis =>
    rw [searchSnapshot]
    split
    next inRange =>
      obtain ⟨message, isMessage⟩ : ∃ message, candidates[(low + stop - 1) / 2]? = some message :=
        ⟨_, List.getElem?_eq_getElem (by omega)⟩
      simp only [isMessage]
      cases built : snapshotThrough message.ordinal with
      | error error => exact .raises inRange isMessage built
      | ok candidate =>
        simp only [bind, Except.bind]
        split
        next isFitting => exact .fitting inRange isMessage built isFitting (inductionHypothesis (by omega) inside)
        next isExceeding => exact .exceeding inRange isMessage built (by simpa using isExceeding) (inductionHypothesis (by omega) (by omega))
    next isEmpty => exact .ends (by omega)

/-- The loop is a binary search for the last candidate that fits. -/
theorem searchSnapshot_eq_bisectFrom {fuel low stop : Nat} {best : Option (Nat × Nat × RequestSnapshot)} (inside : stop ≤ candidates.length) :
    searchSnapshot snapshotThrough fits candidates fuel low stop (best.map Prod.snd) =
      (bisectFrom (probeCandidate snapshotThrough fits candidates) fuel low stop best).map (Option.map Prod.snd) := by
  induction fuel generalizing low stop best with
  | zero => rfl
  | succ fuel inductionHypothesis =>
    rw [searchSnapshot, bisectFrom]
    split
    next inRange =>
      obtain ⟨message, isMessage⟩ : ∃ message, candidates[(low + stop - 1) / 2]? = some message :=
        ⟨_, List.getElem?_eq_getElem (by omega)⟩
      simp only [isMessage, probeCandidate]
      cases built : snapshotThrough message.ordinal with
      | error error => rfl
      | ok candidate =>
        simp only [bind, Except.bind, Except.map]
        split
        next => exact @inductionHypothesis _ stop (some (_, message.ordinal, candidate)) inside
        next => exact inductionHypothesis (by omega)
    next => rfl

theorem searchSnapshot_eq_bisect : searchSnapshot snapshotThrough fits candidates candidates.length 0 candidates.length none =
    (bisect (probeCandidate snapshotThrough fits candidates) 0 candidates.length).map (Option.map Prod.snd) :=
  @searchSnapshot_eq_bisectFrom snapshotThrough fits candidates _ 0 _ none (Nat.le_refl _)

/-- Under downward closure the probes succeed downward. -/
theorem FitsDownward.probes (downward : FitsDownward snapshotThrough fits candidates) (first second : Nat) (ordered : first ≤ second)
    (success : ∃ found, probeCandidate snapshotThrough fits candidates second = .ok (some found)) :
    ∃ found, probeCandidate snapshotThrough fits candidates first = .ok (some found) :=
  fitsAt_iff.mp (downward first second ordered (fitsAt_iff.mpr success))

theorem largestBounded_error {error : ContextError}
    (searched : bisect (probeCandidate snapshotThrough fits candidates) 0 candidates.length = .error error)
    (ends : SearchLoop snapshotThrough fits candidates 0 candidates.length none (.error error)) :
    LargestBounded snapshotThrough fits candidates (.error error) where
  ends := ends
  found := fun _ _ isFound => nomatch isFound
  nothing := fun isNothing => nomatch isNothing
  nothingExactly := fun _ noError => absurd rfl (noError error)
  raised := fun raised isRaised => by
    cases isRaised
    obtain ⟨index, -, -, probed⟩ := bisect_error searched
    exact probeCandidate_error probed

theorem largestBounded_none (nonempty : candidates ≠ [])
    (searched : bisect (probeCandidate snapshotThrough fits candidates) 0 candidates.length = .ok none)
    (ends : SearchLoop snapshotThrough fits candidates 0 candidates.length none (.ok none)) :
    LargestBounded snapshotThrough fits candidates (.ok none) := by
  have several : 0 < candidates.length := List.length_pos_iff.mpr nonempty
  have probed := bisect_none several searched
  obtain ⟨message, isMessage⟩ : ∃ message, candidates[0]? = some message := ⟨_, List.getElem?_eq_getElem several⟩
  obtain ⟨snapshot, built, exceeding⟩ := probeCandidate_eq_none isMessage probed
  have notFitting : ¬ FitsAt snapshotThrough fits candidates 0 := by
    rw [fitsAt_iff, probed]
    rintro ⟨found, isFound⟩
    cases isFound
  exact {
    ends
    found := fun _ _ isFound => nomatch isFound
    nothing := fun _ => ⟨message, snapshot, isMessage, built, exceeding⟩
    nothingExactly := fun _ _ => ⟨fun _ => notFitting, fun _ => rfl⟩
    raised := fun _ isRaised => nomatch isRaised }

theorem largestBounded_some (nonempty : candidates ≠ []) {index : Nat} {success : Nat × RequestSnapshot}
    (searched : bisect (probeCandidate snapshotThrough fits candidates) 0 candidates.length = .ok (some (index, success)))
    (ends : SearchLoop snapshotThrough fits candidates 0 candidates.length none (.ok (some success))) :
    LargestBounded snapshotThrough fits candidates (.ok (some success)) := by
  have several : 0 < candidates.length := List.length_pos_iff.mpr nonempty
  obtain ⟨-, inside, probed⟩ := bisect_found searched
  obtain ⟨message, isMessage, isCutoff, built, fitting⟩ := probeCandidate_eq_some.mp probed
  have isFitting : FitsAt snapshotThrough fits candidates index := fitsAt_iff.mpr ⟨success, probed⟩
  have largest (downward : FitsDownward snapshotThrough fits candidates) (other : Nat) :
      FitsAt snapshotThrough fits candidates other ↔ other ≤ index := by
    constructor
    · intro isFit
      have probes := fitsAt_iff.mp isFit
      obtain ⟨_, _, isThere, -⟩ := isFit
      have inRange : other < candidates.length := (List.getElem?_eq_some_iff.mp isThere).1
      exact bisect_last several searched (fun first second ordered _ => downward.probes first second ordered) inRange probes
    · exact fun ordered => downward other index ordered isFitting
  refine ⟨ends, ?_, fun isNothing => (nomatch isNothing), ?_, fun _ isRaised => (nomatch isRaised)⟩
  · rintro cutoff snapshot ⟨⟩
    simp only at isCutoff
    exact ⟨index, message, isMessage, isCutoff, isCutoff ▸ built, fitting, largest⟩
  · intro downward _
    exact ⟨fun isNothing => (nomatch isNothing), fun notFitting => absurd ((largest downward 0).mpr (Nat.zero_le _)) notFitting⟩

end

/-- For all candidates and every predicate, the search ends with a snapshot that fits and ends at a candidate,
with nothing where the first candidate alone does not fit, or with what a snapshot raised; where fitting is
downward closed, the snapshot is the one of the longest prefix that fits. -/
theorem largest_bounded_summary_snapshot {candidates : List Message} (surroundings : Surroundings) (db : Db) (thread : Thread) (summary : Summary)
    (fits : RequestSnapshot → Bool) (nonempty : candidates ≠ []) :
    LargestBounded (summarySnapshot surroundings db thread summary) fits candidates
      (largestBoundedSummarySnapshot surroundings db thread summary fits candidates) := by
  have ends := @searchSnapshot_loop (summarySnapshot surroundings db thread summary) fits candidates candidates.length 0 candidates.length none
    (Nat.le_refl _) (Nat.le_refl _)
  show LargestBounded _ _ _ (searchSnapshot (summarySnapshot surroundings db thread summary) fits candidates _ _ _ none)
  rw [searchSnapshot_eq_bisect] at ends ⊢
  cases searched : bisect (probeCandidate (summarySnapshot surroundings db thread summary) fits candidates) 0 candidates.length with
  | error error =>
    rw [searched] at ends
    exact largestBounded_error searched ends
  | ok best =>
    rw [searched] at ends
    cases best with
    | none => exact largestBounded_none nonempty searched ends
    | some success => exact largestBounded_some nonempty searched ends

/-- Three messages of a conversation, of which two fit. -/
theorem largest_bounded_summary_snapshot_two :
    let turn (ordinal : Nat) : Message := ⟨ordinal, 1, ordinal, .user, some 1, []⟩
    let db : Db := { Db.empty with messages := [turn 1, turn 2, turn 3] }
    let surroundings : Surroundings := ⟨fun _ => some (str "Ann"), fun _ => true⟩
    let fits (snapshot : RequestSnapshot) : Bool := decide (snapshot.envelope.recentTranscript.length ≤ 2)
    let result := largestBoundedSummarySnapshot surroundings db ⟨1, 1, .translate⟩ Summary.empty fits db.messages
    LargestBounded (summarySnapshot surroundings db ⟨1, 1, .translate⟩ Summary.empty) fits db.messages result ∧
      result.map (Option.map Prod.fst) = .ok (some 2) :=
  ⟨largest_bounded_summary_snapshot _ _ _ _ _ (List.cons_ne_nil _ _), rfl⟩

end Oveo.Context
