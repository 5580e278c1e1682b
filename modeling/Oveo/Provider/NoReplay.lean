import Oveo.Lib.Fallible
import Oveo.Provider.Request

/-! # A stream is never replayed

An attempt remembers that it passed text on before it passes any, and every failure that leaves it
says so; the loop tries again only after a failure that says no text was passed on.  What was passed on
is a prefix of the contents of the attempt, because a text that decodes has no half left that could
meet what follows. -/

namespace Oveo.Provider

open Oveo.Lib

/-! ## The contents of an attempt -/

section

variable {Usage : Type} (reader : Reader Usage)

/-- The contents a line carries; `none` where it ends the stream. -/
def lineContents (line : Str) : Option (List Str) :=
  match lineData? line with
  | none => some []
  | some data =>
    if data = doneData then none
    else
      match decodeStreamPayload reader data with
      | .error _ => none
      | .ok payload => if (payloadError payload).isSome then none else (@contentDeltas Usage payload).toOption

/-- The contents of a stream, one after the other. -/
def streamContent : List Str → Str
  | [] => []
  | line :: lines =>
    match lineContents reader line with
    | none => []
    | some contents => contents.flatten ++ streamContent lines

/-- The content an attempt receives, with the pairs in it joined. -/
def joinedContent (served : Served Usage) : Str :=
  match served.opened with
  | .error _ => []
  | .ok response =>
    if response.statusCode < 200 ∨ 300 ≤ response.statusCode then [] else Utf16.joinPairs (streamContent reader response.lines)

end

section

variable {Usage : Type} {reader : Reader Usage} {served : Served Usage} {a a' : Attempt Usage} {seen content : Str} {raised : Raised Usage}

/-! ## Inside an attempt -/

/-- The variables agree with what was passed on. -/
structure Attempt.Kept (a : Attempt Usage) : Prop where
  parts : a.parts = a.passed
  emitted : a.emitted = !a.passed.isEmpty

/-- What was passed on and what is held back are the content seen so far, joined. -/
def Attempt.Joined (a : Attempt Usage) (seen : Str) : Prop :=
  ∀ more, Utf16.joinPairs (seen ++ more) = a.passed.flatten ++ Utf16.joinPairs (a.heldSurrogate ++ more)

/-- What was passed on begins the content, whatever follows. -/
def Attempt.Begins (a : Attempt Usage) (seen : Str) : Prop :=
  ∀ more, a.passed.flatten <+: Utf16.joinPairs (seen ++ more)

theorem Attempt.Joined.begins (joined : a.Joined seen) : a.Begins seen :=
  fun more => ⟨_, (joined more).symm⟩

theorem Attempt.Begins.append (begins : a.Begins seen) (content : Str) : a.Begins (seen ++ content) := by
  intro more
  rw [List.append_assoc]
  exact begins (content ++ more)

/-- What a part of the stream with this content leaves behind. -/
structure PartHolds (seen content : Str) (result : Attempt Usage × Flow Usage) : Prop where
  kept : result.1.Kept
  begins : result.1.Begins (seen ++ content)
  joined : result.2 = .goOn → result.1.Joined (seen ++ content)

theorem passDeltas_holds (kept : a.Kept) (joined : a.Joined seen) (contents : List Str) :
    PartHolds seen contents.flatten (passDeltas served a contents) := by
  induction contents generalizing a seen with
  | nil =>
    rw [List.flatten_nil]
    exact ⟨kept, joined.begins.append [], fun _ => (List.append_nil seen).symm ▸ joined⟩
  | cons content contents inductionHypothesis =>
    have front := splitTrailingSurrogate_append (a.heldSurrogate ++ content)
    -- What was held back meets the new content.
    have met : ∀ delta, joinedSurrogates (splitTrailingSurrogate (a.heldSurrogate ++ content)).1 = some delta → ∀ more,
        Utf16.joinPairs (seen ++ content ++ more) = (a.passed.flatten ++ delta) ++
          Utf16.joinPairs ((splitTrailingSurrogate (a.heldSurrogate ++ content)).2 ++ more) := by
      intro delta isDelta more
      calc Utf16.joinPairs (seen ++ content ++ more)
          = a.passed.flatten ++ Utf16.joinPairs (a.heldSurrogate ++ (content ++ more)) := by rw [List.append_assoc, joined]
        _ = a.passed.flatten ++ Utf16.joinPairs ((splitTrailingSurrogate (a.heldSurrogate ++ content)).1 ++
              ((splitTrailingSurrogate (a.heldSurrogate ++ content)).2 ++ more)) := by
            rw [← List.append_assoc, ← front, List.append_assoc, front]
        _ = _ := by rw [joinPairs_of_joined isDelta, List.append_assoc]
    simp only [List.flatten_cons, passDeltas]
    split
    next refused => exact ⟨⟨kept.parts, kept.emitted⟩, joined.begins.append _, fun goOn => nomatch goOn⟩
    next isEmpty =>
      have rest := @inductionHypothesis { a with heldSurrogate := (splitTrailingSurrogate (a.heldSurrogate ++ content)).2 }
        (seen ++ content) ⟨kept.parts, kept.emitted⟩ (fun more => by simpa using met [] isEmpty more)
      exact ⟨rest.kept, List.append_assoc seen content _ ▸ rest.begins, List.append_assoc seen content _ ▸ rest.joined⟩
    next delta nonempty isDelta =>
      have keptAfter : Attempt.Kept { a with
          heldSurrogate := (splitTrailingSurrogate (a.heldSurrogate ++ content)).2, parts := a.parts ++ [delta],
          emitted := true, passed := a.passed ++ [delta] } :=
        ⟨by rw [kept.parts], by simp⟩
      have joinedAfter : Attempt.Joined { a with
          heldSurrogate := (splitTrailingSurrogate (a.heldSurrogate ++ content)).2, parts := a.parts ++ [delta],
          emitted := true, passed := a.passed ++ [delta] } (seen ++ content) := fun more => by simpa using met delta isDelta more
      split
      next => exact ⟨keptAfter, by simpa using joinedAfter.begins.append contents.flatten, fun goOn => nomatch goOn⟩
      next =>
        have rest := inductionHypothesis keptAfter joinedAfter
        exact ⟨rest.kept, List.append_assoc seen content _ ▸ rest.begins, List.append_assoc seen content _ ▸ rest.joined⟩

theorem noteIds_kept {payload : List (Str × Json)} :
    (noteIds reader served a payload).1.passed = a.passed ∧ (noteIds reader served a payload).1.parts = a.parts ∧
      (noteIds reader served a payload).1.emitted = a.emitted ∧
      (noteIds reader served a payload).1.heldSurrogate = a.heldSurrogate := by
  simp only [noteIds]
  split <;> exact ⟨rfl, rfl, rfl, rfl⟩

/-- Nothing but the variables of the deltas matters. -/
theorem Attempt.Kept.congr (kept : a.Kept) (parts : a'.parts = a.parts) (emitted : a'.emitted = a.emitted)
    (passed : a'.passed = a.passed) : a'.Kept :=
  ⟨by rw [parts, passed, kept.parts], by rw [emitted, passed, kept.emitted]⟩

theorem Attempt.Joined.congr (joined : a.Joined seen) (held : a'.heldSurrogate = a.heldSurrogate) (passed : a'.passed = a.passed) :
    a'.Joined seen := by
  intro more
  rw [held, passed]
  exact joined more

/-- What one line leaves behind: it carries contents, or it is the last one. -/
def LineHolds (seen : Str) (contents : Option (List Str)) (result : Attempt Usage × Flow Usage) : Prop :=
  match contents with
  | some contents => PartHolds seen contents.flatten result
  | none => result.1.Kept ∧ result.1.Begins seen ∧ result.2 ≠ .goOn

/-- A line that raises passes nothing on. -/
theorem lineHolds_of_raised (kept : a.Kept) (joined : a.Joined seen) (passed : a'.passed = a.passed) (parts : a'.parts = a.parts)
    (emitted : a'.emitted = a.emitted) (contents : Option (List Str)) : LineHolds seen contents (a', .raised raised) := by
  have keptAfter : a'.Kept := kept.congr parts emitted passed
  have beginsAfter : a'.Begins seen := fun more => passed ▸ joined.begins more
  cases contents with
  | none => exact ⟨keptAfter, beginsAfter, fun goOn => nomatch goOn⟩
  | some contents => exact ⟨keptAfter, beginsAfter.append _, fun goOn => nomatch goOn⟩

theorem handlePayload_holds (kept : a.Kept) (joined : a.Joined seen) (payload : List (Str × Json)) :
    LineHolds seen (if (payloadError payload).isSome then none else (@contentDeltas Usage payload).toOption)
      (handlePayload reader served a payload) := by
  obtain ⟨passed, parts, emitted, held⟩ := @noteIds_kept _ reader served a payload
  cases isNoted : noteIds reader served a payload with
  | mk noted stopped =>
    rw [isNoted] at passed parts emitted held
    simp only [handlePayload, isNoted]
    cases stopped with
    | some raised => exact lineHolds_of_raised kept joined passed parts emitted _
    | none =>
      cases payloadError payload with
      | some error =>
        simp only [Option.isSome_some, if_true]
        cases isTransientCode reader (errorCode error) with
        | error raised => exact lineHolds_of_raised kept joined passed parts emitted none
        | ok transient => exact lineHolds_of_raised kept joined passed parts emitted none
      | none =>
        simp only [Option.isSome_none, Bool.false_eq_true, if_false]
        cases contentDeltas payload with
        | error raised =>
          refine lineHolds_of_raised kept joined ?_ ?_ ?_ none
          exacts [passed, parts, emitted]
        | ok contents =>
          show PartHolds seen contents.flatten (passDeltas served _ contents)
          refine passDeltas_holds (kept.congr ?_ ?_ ?_) (joined.congr ?_ ?_) contents
          exacts [parts, emitted, passed, held, passed]

theorem handleLine_holds (kept : a.Kept) (joined : a.Joined seen) (line : Str) :
    LineHolds seen (lineContents reader line) (handleLine reader served a line) := by
  simp only [handleLine, lineContents]
  cases lineData? line with
  | none => exact @passDeltas_holds _ served a seen kept joined []
  | some data =>
    by_cases isDone : data = doneData
    · simp only [if_pos isDone]
      refine ⟨kept.congr rfl rfl rfl, joined.begins, fun goOn => ?_⟩
      cases goOn
    · simp only [if_neg isDone]
      cases decodeStreamPayload reader data with
      | error raised => exact lineHolds_of_raised kept joined rfl rfl rfl none
      | ok payload => exact handlePayload_holds kept joined payload

/-- One line after the other: what was passed on begins the content of the stream. -/
theorem handleLines_holds {broken : Option (Raised Usage)} (kept : a.Kept) (joined : a.Joined seen) (lines : List Str) :
    (handleLines reader served broken a lines).1.Kept ∧
      (handleLines reader served broken a lines).1.passed.flatten <+: Utf16.joinPairs (seen ++ streamContent reader lines) := by
  induction lines generalizing a seen with
  | nil => exact ⟨kept, joined.begins _⟩
  | cons line lines inductionHypothesis =>
    have holds := @handleLine_holds _ reader served _ _ kept joined line
    simp only [handleLines, streamContent]
    cases isContents : lineContents reader line with
    | none =>
      rw [isContents] at holds
      obtain ⟨keptAfter, begins, ends⟩ := holds
      split
      next isNext => exact absurd (by rw [isNext]) ends
      all_goals
        next isNext =>
          rw [isNext] at keptAfter begins
          exact ⟨keptAfter, begins _⟩
    | some contents =>
      rw [isContents] at holds
      obtain ⟨keptAfter, begins, joinedAfter⟩ := holds
      rw [← List.append_assoc]
      split
      next isNext =>
        rw [isNext] at keptAfter joinedAfter
        exact inductionHypothesis keptAfter (joinedAfter rfl)
      all_goals
        next isNext =>
          rw [isNext] at keptAfter begins
          exact ⟨keptAfter, begins _⟩

/-! ## One attempt -/

theorem fresh_kept : (Attempt.fresh : Attempt Usage).Kept := ⟨rfl, rfl⟩

theorem fresh_joined : (Attempt.fresh : Attempt Usage).Joined [] := fun _ => rfl

theorem openAndRead_holds : (openAndRead reader served).1.Kept ∧
    (openAndRead reader served).1.passed.flatten <+: joinedContent reader served := by
  simp only [openAndRead, joinedContent]
  cases opened : served.opened with
  | error raised => exact ⟨fresh_kept, List.nil_prefix⟩
  | ok response =>
    simp only [readResponse]
    split
    next => exact ⟨fresh_kept.congr rfl rfl rfl, List.nil_prefix⟩
    next =>
      have start : Attempt.Joined { (Attempt.fresh : Attempt Usage) with requestId := response.requestId.filter fun text => !text.isEmpty } ([] : Str) :=
        fresh_joined.congr rfl rfl
      refine handleLines_holds ?_ start response.lines
      exact fresh_kept.congr rfl rfl rfl

/-- An error that leaves an attempt says whether text was passed on. -/
theorem afterText_of_caught {error : ProviderError Usage} (leaves : a.caught raised = .provider error) (emitted : a.emitted = true) :
    error.afterText = true := by
  cases raised with
  | provider inner =>
    cases leaves
    simp [ProviderError.inAttempt, emitted]
  | timeout | configuration | request =>
    cases leaves
    exact emitted
  | value | other => cases leaves

theorem afterText_of_complete {error : ProviderError Usage} (leaves : a.complete = .error (.provider error)) (emitted : a.emitted = true) :
    error.afterText = true := by
  unfold Attempt.complete at leaves
  split at leaves
  · cases leaves
    exact emitted
  · split at leaves
    · cases leaves
      exact emitted
    · split at leaves
      · cases leaves
        exact emitted
      · split at leaves <;> cases leaves
        exact emitted

theorem text_of_complete {completion : ProviderCompletion Usage} (completes : a.complete = .ok completion) :
    completion.text = a.parts.flatten := by
  simp only [Attempt.complete, ite_error_eq_ok, Except.ok.injEq] at completes
  obtain ⟨-, -, -, -, rfl⟩ := completes
  rfl

/-- What an attempt leaves behind. -/
structure AttemptHolds (reader : Reader Usage) (served : Served Usage)
    (outcome : Attempt Usage × Except (Raised Usage) (ProviderCompletion Usage)) : Prop where
  begins : outcome.1.passed.flatten <+: joinedContent reader served
  returned : ∀ completion, outcome.2 = .ok completion → completion.text = outcome.1.passed.flatten
  afterText : ∀ error, outcome.2 = .error (.provider error) → outcome.1.passed ≠ [] → error.afterText = true

theorem streamOnce_holds : AttemptHolds reader served (streamOnce reader served) := by
  obtain ⟨kept, begins⟩ := @openAndRead_holds _ reader served
  have emitted : (openAndRead reader served).1.passed ≠ [] → (openAndRead reader served).1.emitted = true := by
    intro nonempty
    simpa [kept.emitted] using nonempty
  simp only [streamOnce]
  split
  next a raised isEnd =>
    rw [isEnd] at begins emitted
    refine ⟨begins, fun _ isOk => (nomatch isOk), fun error isError nonempty => ?_⟩
    exact afterText_of_caught (Except.error.inj isError) (emitted nonempty)
  next a isEnd =>
    rw [isEnd] at begins emitted kept
    refine ⟨begins, fun completion isOk => ?_, fun error isError nonempty => afterText_of_complete isError (emitted nonempty)⟩
    rw [text_of_complete isOk, kept.parts]

/-! ## All attempts -/

def ChatRun.passed (run : ChatRun Usage) : List Str := run.attempts.flatMap Attempt.passed

/-- What a call promises of the text it passes on. -/
structure NeverReplays (reader : Reader Usage) (retryAttempts : Nat) (served : Nat → Served Usage) (run : ChatRun Usage) : Prop where
  /-- There are no more attempts than are configured. -/
  bounded : run.attempts.length ≤ retryAttempts
  /-- An attempt that passed text on is the last one, and the only one that did. -/
  single : ∀ index a, run.attempts[index]? = some a → a.passed ≠ [] → index + 1 = run.attempts.length ∧ run.passed = a.passed
  /-- What an attempt passed on begins its content. -/
  begins : ∀ index a, run.attempts[index]? = some a → a.passed.flatten <+: joinedContent reader (served index)
  /-- A call that succeeds returns what was passed on. -/
  returned : ∀ completion, run.result = .ok completion → completion.text = run.passed.flatten

section

variable {retryAttempts : Nat} {server : RequestBody → Nat → Served Usage} {sleep : Rat → Option (Raised Usage)} {body : RequestBody}

/-- The attempts from one on keep what the call promises. -/
structure LoopHolds (reader : Reader Usage) (served : Nat → Served Usage) (left attempt : Nat) (run : ChatRun Usage) : Prop where
  bounded : run.attempts.length ≤ left
  single : ∀ index a, run.attempts[index]? = some a → a.passed ≠ [] → index + 1 = run.attempts.length ∧ run.passed = a.passed
  begins : ∀ index a, run.attempts[index]? = some a → a.passed.flatten <+: joinedContent reader (served (attempt + index))
  returned : ∀ completion, run.result = .ok completion → completion.text = run.passed.flatten

/-- A last attempt. -/
theorem LoopHolds.last {served : Nat → Served Usage} {left attempt : Nat} {result : Except (Raised Usage) (ProviderCompletion Usage)}
    (begins : a.passed.flatten <+: joinedContent reader (served attempt))
    (returned : ∀ completion, result = .ok completion → completion.text = a.passed.flatten) :
    LoopHolds reader served (left + 1) attempt ⟨[a], result⟩ := by
  have passed : ChatRun.passed ⟨[a], result⟩ = a.passed := List.append_nil _
  constructor
  case bounded => exact Nat.succ_le_succ (Nat.zero_le _)
  case single =>
    intro index other found _
    cases index with
    | zero =>
      cases found
      exact ⟨rfl, passed⟩
    | succ index => cases found
  case begins =>
    intro index other found
    cases index with
    | zero =>
      cases found
      exact begins
    | succ index => cases found
  case returned =>
    rw [passed]
    exact returned

/-- An attempt that passed nothing on, and those after it. -/
theorem LoopHolds.cons {served : Nat → Served Usage} {left attempt : Nat} {later : ChatRun Usage}
    (holds : LoopHolds reader served left (attempt + 1) later) (nothing : a.passed = []) :
    LoopHolds reader served (left + 1) attempt ⟨a :: later.attempts, later.result⟩ := by
  have passed : ChatRun.passed ⟨a :: later.attempts, later.result⟩ = later.passed := by
    simp [ChatRun.passed, nothing]
  constructor
  case bounded => exact Nat.succ_le_succ holds.bounded
  case single =>
    intro index other found nonempty
    cases index with
    | zero =>
      cases found
      exact absurd nothing nonempty
    | succ index =>
      obtain ⟨last, sole⟩ := holds.single index other found nonempty
      exact ⟨congrArg Nat.succ last, passed.trans sole⟩
  case begins =>
    intro index other found
    cases index with
    | zero =>
      cases found
      rw [nothing]
      exact List.nil_prefix
    | succ index =>
      have rest := holds.begins index other found
      rwa [Nat.add_right_comm, Nat.add_assoc] at rest
  case returned =>
    rw [passed]
    exact holds.returned

theorem chatLoop_holds (left attempt : Nat) :
    LoopHolds reader (server body) left attempt (chatLoop reader retryAttempts server sleep body left attempt) := by
  induction left generalizing attempt with
  | zero =>
    refine ⟨Nat.le_refl _, ?_, ?_, fun _ isOk => nomatch isOk⟩
    · exact fun _ _ found => nomatch found
    · exact fun _ _ found => nomatch found
  | succ left inductionHypothesis =>
    have holds := @streamOnce_holds _ reader (server body attempt)
    simp only [chatLoop]
    split
    next a completion isOutcome =>
      rw [isOutcome] at holds
      exact LoopHolds.last holds.begins holds.returned
    next a error isOutcome =>
      rw [isOutcome] at holds
      split
      next => exact LoopHolds.last holds.begins fun _ isOk => nomatch isOk
      next retried =>
        split
        next => exact LoopHolds.last holds.begins fun _ isOk => nomatch isOk
        next =>
          refine (inductionHypothesis (attempt + 1)).cons ?_
          -- An error that may be retried says that nothing was passed on.
          by_contra nonempty
          have said := holds.afterText error rfl nonempty
          simp [said] at retried
    next a raised _ isOutcome =>
      rw [isOutcome] at holds
      exact LoopHolds.last holds.begins fun _ isOk => nomatch isOk

/-- Whatever the attempts meet. -/
theorem stream_never_replays (reader : Reader Usage) (retryAttempts : Nat) (server : RequestBody → Nat → Served Usage)
    (sleep : Rat → Option (Raised Usage)) (messages : List ProviderMessage) (maxCompletionTokens : Nat)
    (reasoningEffort : ReasoningEffort) :
    NeverReplays reader retryAttempts (server ⟨messages, maxCompletionTokens, reasoningEffort⟩)
      (streamChat reader retryAttempts server sleep messages maxCompletionTokens reasoningEffort) := by
  simp only [streamChat]
  split
  next => exact ⟨Nat.zero_le _, fun _ _ found => (nomatch found), fun _ _ found => (nomatch found), fun _ isOk => nomatch isOk⟩
  next body isBody =>
    have isRequest : body = ⟨messages, maxCompletionTokens, reasoningEffort⟩ := by
      simp only [buildRequestBody, ite_error_eq_ok, Except.ok.injEq] at isBody
      exact isBody.2.2.2.symm
    subst isRequest
    have holds := @chatLoop_holds _ reader retryAttempts server sleep ⟨messages, maxCompletionTokens, reasoningEffort⟩ retryAttempts 0
    exact ⟨holds.bounded, holds.single, fun index a found => Nat.zero_add index ▸ holds.begins index a found, holds.returned⟩

end

end

end Oveo.Provider
