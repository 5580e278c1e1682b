import Oveo.Lib.JsonText
import Oveo.Provider.NoReplay

/-! # A stream succeeds when its halves meet

What is held back between two deltas is at most one high half, so a pair is never cut between what was
passed on and what is held back with the content still to come.  A half that is alone is then alone on
one side, and the stream is refused where it comes to light. -/

namespace Oveo.Provider

open Oveo.Lib Utf16

/-! ## One delta -/

/-- At most a high half is held back. -/
def HeldBack (held : Str) : Prop := held = [] ∨ ∃ high, held = [high] ∧ highHalf high = true

theorem heldBack_split (text : Str) : HeldBack (splitTrailingSurrogate text).2 := by
  unfold splitTrailingSurrogate
  split
  next last _ =>
    split
    next isHigh => exact .inr ⟨last, rfl, isHigh⟩
    next => exact .inl rfl
  next => exact .inl rfl

/-- A held half is alone as long as nothing follows it. -/
theorem HeldBack.loneHalf_iff {held : Str} (heldBack : HeldBack held) : loneHalf held = false ↔ held = [] := by
  rcases heldBack with rfl | ⟨high, rfl, isHigh⟩
  · exact ⟨fun _ => rfl, fun _ => rfl⟩
  · have alone : loneHalf [high] = true := (isSurrogate_eq high).trans (by rw [isHigh, Bool.true_or])
    simp [alone]

/-- The front of a text and what is held back of it cut no pair. -/
theorem splitTrailingSurrogate_apart (text more : Str) (high low : CodePoint)
    (isLast : (splitTrailingSurrogate text).1.getLast? = some high)
    (isHead : ((splitTrailingSurrogate text).2 ++ more).head? = some low) : (highHalf high && lowHalf low) = false := by
  unfold splitTrailingSurrogate at isLast isHead
  split at isLast
  next last isTextLast =>
    simp only [isTextLast] at isHead
    split at isLast
    next isHigh =>
      -- The half held back is a high one, so it ends no pair.
      simp only [if_pos isHigh, List.singleton_append, List.head?_cons, Option.some.injEq] at isHead
      subst isHead
      have notLow : lowHalf last = false := by
        simp only [isHighSurrogate, lowHalf, Bool.and_eq_true, Bool.and_eq_false_iff, decide_eq_true_eq, decide_eq_false_iff_not] at isHigh ⊢
        omega
      rw [notLow, Bool.and_false]
    next notHigh =>
      have isSame : last = high := Option.some.inj (isTextLast.symm.trans isLast)
      subst isSame
      rw [show highHalf last = false from Bool.not_eq_true _ ▸ notHigh, Bool.false_and]
  next isNil =>
    rw [isNil] at isLast
    cases isLast

/-- The halves of a text are those of its front and those of what is held back with what follows. -/
theorem splitTrailingSurrogate_halves (text more : Str) :
    loneHalf (text ++ more) = (loneHalf (splitTrailingSurrogate text).1 || loneHalf ((splitTrailingSurrogate text).2 ++ more)) ∧
      pairsJoined (text ++ more) =
        pairsJoined (splitTrailingSurrogate text).1 ++ pairsJoined ((splitTrailingSurrogate text).2 ++ more) := by
  have isText := splitTrailingSurrogate_append text
  have parts := halves_append _ _ (splitTrailingSurrogate_apart text more)
  rwa [← List.append_assoc, isText] at parts

theorem joinedSurrogates_eq_ite (text : Str) :
    joinedSurrogates text = if loneHalf text then none else some (pairsJoined text) :=
  (joinedSurrogates_eq text).trans (decode?_encode_eq text)

section

variable {Usage : Type} {reader : Reader Usage} {served : Served Usage} {a a' : Attempt Usage}

/-! ## What is passed on has no half -/

/-- No text passed on has a surrogate in it. -/
def Attempt.Whole (a : Attempt Usage) : Prop := ∀ delta ∈ a.passed, delta.any isSurrogate = false

theorem Attempt.Whole.congr (whole : a.Whole) (passed : a'.passed = a.passed) : a'.Whole := by
  unfold Attempt.Whole
  rwa [passed]

theorem passDeltas_whole (whole : a.Whole) (contents : List Str) : (passDeltas served a contents).1.Whole := by
  induction contents generalizing a with
  | nil => exact whole
  | cons content contents inductionHypothesis =>
    rw [passDeltas, joinedSurrogates_eq_ite]
    cases lone : loneHalf (splitTrailingSurrogate (a.heldSurrogate ++ content)).1 with
    | true => exact whole
    | false =>
      simp only [Bool.false_eq_true, if_false]
      split
      next refused => cases refused
      next => exact inductionHypothesis whole
      next delta _ isDelta =>
        cases isDelta
        have wholeAfter : Attempt.Whole { a with
            heldSurrogate := (splitTrailingSurrogate (a.heldSurrogate ++ content)).2
            parts := a.parts ++ [pairsJoined (splitTrailingSurrogate (a.heldSurrogate ++ content)).1]
            emitted := true
            passed := a.passed ++ [pairsJoined (splitTrailingSurrogate (a.heldSurrogate ++ content)).1] } := by
          intro delta member
          rcases List.mem_append.mp member with before | now
          · exact whole delta before
          · rw [List.mem_singleton.mp now]
            exact any_isSurrogate_pairsJoined lone
        split
        next => exact wholeAfter
        next => exact inductionHypothesis wholeAfter

theorem handleLine_whole (whole : a.Whole) (line : Str) : (handleLine reader served a line).1.Whole := by
  unfold handleLine
  split
  next => exact whole
  next data _ =>
    split
    next => exact whole
    next =>
      split
      next => exact whole
      next payload _ =>
        have noted := (@noteIds_kept _ reader served a payload).1
        unfold handlePayload
        split
        next isNoted => exact whole.congr (by rw [isNoted] at noted; exact noted)
        next noted' isNoted =>
          rw [isNoted] at noted
          split
          next => split <;> exact whole.congr noted
          next =>
            split
            next => exact whole.congr noted
            next contents _ =>
              show (passDeltas served _ contents).1.Whole
              refine passDeltas_whole (whole.congr ?_) contents
              exact noted

theorem handleLines_whole {broken : Option (Raised Usage)} (whole : a.Whole) (lines : List Str) :
    (handleLines reader served broken a lines).1.Whole := by
  induction lines generalizing a with
  | nil => exact whole
  | cons line lines inductionHypothesis =>
    have wholeAfter := @handleLine_whole _ reader served _ whole line
    rw [handleLines]
    split
    all_goals
      next isNext =>
        rw [isNext] at wholeAfter
        first | exact wholeAfter | exact inductionHypothesis wholeAfter

theorem fresh_whole : (Attempt.fresh : Attempt Usage).Whole := fun _ member => nomatch member

theorem streamOnce_whole : (streamOnce reader served).1.Whole := by
  have wholeRead : (openAndRead reader served).1.Whole := by
    unfold openAndRead
    split
    next => exact fresh_whole
    next response _ =>
      simp only [readResponse]
      split
      next => exact fresh_whole.congr rfl
      next =>
        refine handleLines_whole ?_ response.lines
        exact fresh_whole.congr rfl
  unfold streamOnce
  split
  all_goals
    next isRead =>
      rw [isRead] at wholeRead
      exact wholeRead

/-! ## A stream that is delivered -/

/-- The lines of a stream that ends with `[DONE]`, the contents they carry, and the last finish reason
they name. -/
inductive Delivers (reader : Reader Usage) : List Str → List Str → Option Str → Prop where
  | done {line : Str} (isDone : lineData? line = some doneData) (rest : List Str) : Delivers reader (line :: rest) [] none
  | comment {line : Str} {lines contents : List Str} {finish : Option Str} (noData : lineData? line = none)
      (later : Delivers reader lines contents finish) : Delivers reader (line :: lines) contents finish
  | event {line data : Str} {payload : List (Str × Json)} {now lines contents : List Str} {finish : Option Str}
      (isData : lineData? line = some data) (notDone : data ≠ doneData) (decoded : decodeStreamPayload reader data = .ok payload)
      (noError : payloadError payload = none) (carried : @contentDeltas Usage payload = .ok now)
      (later : Delivers reader lines contents finish) :
      Delivers reader (line :: lines) (now ++ contents) (finish.or (finishReason payload))

/-- A response that is opened and closed, whose callbacks raise nothing. -/
structure Undisturbed (served : Served Usage) (response : Response Usage) : Prop where
  opened : served.opened = .ok response
  accepted : 200 ≤ response.statusCode ∧ response.statusCode < 300
  closing : served.closing = none
  onDelta : ∀ passed, served.onDelta passed = none
  onIds : ∀ requestId generationId, served.onIds requestId generationId = none

/-- What was passed on and is held back says the same of the text as what was held back and a content. -/
structure Attempt.Carried (a a' : Attempt Usage) (content : Str) : Prop where
  heldBack : HeldBack a'.heldSurrogate
  lone : ∀ more, loneHalf (a.heldSurrogate ++ content ++ more) = loneHalf (a'.heldSurrogate ++ more)
  joined : ∀ more, a.passed.flatten ++ pairsJoined (a.heldSurrogate ++ content ++ more) =
    a'.passed.flatten ++ pairsJoined (a'.heldSurrogate ++ more)

theorem Attempt.Carried.trans {a'' : Attempt Usage} {content contents : Str} (first : a.Carried a' content)
    (second : a'.Carried a'' contents) : a.Carried a'' (content ++ contents) := by
  have moved (more : Str) : a.heldSurrogate ++ (content ++ contents) ++ more = a.heldSurrogate ++ content ++ (contents ++ more) := by
    simp only [List.append_assoc]
  constructor
  · exact second.heldBack
  · intro more
    rw [moved, first.lone, ← List.append_assoc, second.lone]
  · intro more
    rw [moved, first.joined, ← List.append_assoc a'.heldSurrogate, second.joined]

theorem Attempt.Carried.congr {start reached : Attempt Usage} {content : Str} (carried : start.Carried reached content)
    (startHeld : start.heldSurrogate = a.heldSurrogate) (startPassed : start.passed = a.passed) : a.Carried reached content := by
  constructor
  · exact carried.heldBack
  · exact startHeld ▸ carried.lone
  · exact startHeld ▸ startPassed ▸ carried.joined

theorem Attempt.Carried.stay (heldBack : HeldBack a.heldSurrogate) (held : a'.heldSurrogate = a.heldSurrogate)
    (passed : a'.passed = a.passed) : a.Carried a' [] := by
  constructor
  · rwa [held]
  · intro more
    rw [List.append_nil, held]
  · intro more
    rw [List.append_nil, held, passed]

/-- What a part of the stream leaves behind: it goes on, or a half was alone whatever follows. -/
def CarriedOn (a : Attempt Usage) (content : Str) : Attempt Usage × Flow Usage → Prop
  | (a', .goOn) => a.Carried a' content ∧ a'.finishReason = a.finishReason
  | (_, .stop) => False
  | (_, .raised _) => ∀ more, loneHalf (a.heldSurrogate ++ content ++ more) = true

theorem CarriedOn.after {content contents : Str} {result : Attempt Usage × Flow Usage} (carried : a.Carried a' content)
    (sameFinish : a'.finishReason = a.finishReason) (carriedOn : CarriedOn a' contents result) :
    CarriedOn a (content ++ contents) result := by
  match result, carriedOn with
  | (_, .goOn), ⟨carriedAfter, finish⟩ => exact ⟨carried.trans carriedAfter, finish.trans sameFinish⟩
  | (_, .raised _), alone =>
    intro more
    rw [← List.append_assoc, List.append_assoc, carried.lone, ← List.append_assoc, alone]

theorem passDeltas_carries (quiet : ∀ passed, served.onDelta passed = none) (heldBack : HeldBack a.heldSurrogate)
    (contents : List Str) : CarriedOn a contents.flatten (passDeltas served a contents) := by
  induction contents generalizing a with
  | nil => exact ⟨.stay heldBack rfl rfl, rfl⟩
  | cons content contents inductionHypothesis =>
    have halves := splitTrailingSurrogate_halves (a.heldSurrogate ++ content)
    have heldAfter := heldBack_split (a.heldSurrogate ++ content)
    rw [passDeltas, joinedSurrogates_eq_ite, List.flatten_cons]
    cases lone : loneHalf (splitTrailingSurrogate (a.heldSurrogate ++ content)).1 with
    | true =>
      intro more
      rw [← List.append_assoc, List.append_assoc, (halves _).1, lone, Bool.true_or]
    | false =>
      simp only [lone, Bool.false_or] at halves
      simp only [Bool.false_eq_true, if_false]
      split
      next refused => cases refused
      next isEmpty =>
        refine CarriedOn.after ?_ ?_ (inductionHypothesis heldAfter)
        · refine ⟨heldAfter, fun more => (halves more).1, fun more => ?_⟩
          rw [(halves more).2, Option.some.inj isEmpty, List.nil_append]
        · rfl
      next delta _ isDelta =>
        cases isDelta
        simp only [quiet]
        refine CarriedOn.after ?_ ?_ (inductionHypothesis heldAfter)
        · refine ⟨heldAfter, fun more => (halves more).1, fun more => ?_⟩
          rw [(halves more).2]
          simp
        · rfl

/-- A finish reason that is named is not empty. -/
theorem choicesFinishReason_nonempty {choices : List Json} {reason : Str} (named : choicesFinishReason choices = some reason) :
    reason.isEmpty = false := by
  fun_induction choicesFinishReason choices with
  | case1 => cases named
  | case2 choice choices found isFound =>
    cases named
    unfold safeString at isFound
    split at isFound
    · split at isFound
      · cases isFound
      next nonempty =>
        cases isFound
        exact Bool.not_eq_true _ ▸ nonempty
    · cases isFound
  | case3 choice choices _ inductionHypothesis => exact inductionHypothesis named
  | case4 other choices _ inductionHypothesis => exact inductionHypothesis named

theorem orText_finishReason (payload : List (Str × Json)) (before : Option Str) :
    orText (finishReason payload) before = (finishReason payload).or before := by
  cases named : finishReason payload with
  | none => rfl
  | some reason =>
    have nonempty : reason.isEmpty = false := by
      unfold finishReason at named
      split at named
      · exact choicesFinishReason_nonempty named
      · cases named
    simp [orText, nonempty]

/-- An event passes its contents on. -/
theorem handlePayload_carries {response : Response Usage} {payload : List (Str × Json)} {contents : List Str}
    (undisturbed : Undisturbed served response) (heldBack : HeldBack a.heldSurrogate) (noError : payloadError payload = none)
    (carried : @contentDeltas Usage payload = .ok contents) :
    ∃ noted : Attempt Usage, noted.heldSurrogate = a.heldSurrogate ∧ noted.passed = a.passed ∧
      noted.finishReason = (finishReason payload).or a.finishReason ∧
      CarriedOn noted contents.flatten (handlePayload reader served a payload) := by
  have ids (requestId : Option Str) : served.onIds requestId = fun _ => none := funext (undisturbed.onIds requestId)
  have isQuiet : (noteIds reader served a payload).2 = none := by
    simp only [noteIds, ids, Option.bind_fun_none, ite_self]
  obtain ⟨passed, -, -, held⟩ := @noteIds_kept _ reader served a payload
  have finish : (noteIds reader served a payload).1.finishReason = a.finishReason := by
    simp only [noteIds]
    split <;> rfl
  cases isNoted : noteIds reader served a payload with
  | mk noted stopped =>
    rw [isNoted] at isQuiet passed held finish
    cases isQuiet
    simp only [handlePayload, isNoted, noError, carried]
    refine ⟨{ noted with finishReason := orText (finishReason payload) noted.finishReason }, held, passed, ?_, ?_⟩
    · exact (orText_finishReason payload noted.finishReason).trans (congrArg _ finish)
    · refine passDeltas_carries undisturbed.onDelta ?_ contents
      exact held.symm ▸ heldBack

/-- The lines of a stream that is delivered: its contents are passed on, or a half was alone. -/
theorem handleLines_carries {response : Response Usage} {broken : Option (Raised Usage)} {lines contents : List Str}
    {finish : Option Str} (undisturbed : Undisturbed served response) (heldBack : HeldBack a.heldSurrogate)
    (delivers : Delivers reader lines contents finish) :
    (∃ raised, (handleLines reader served broken a lines).2 = some raised ∧ loneHalf (a.heldSurrogate ++ contents.flatten) = true) ∨
      ((handleLines reader served broken a lines).2 = none ∧ a.Carried (handleLines reader served broken a lines).1 contents.flatten ∧
        (handleLines reader served broken a lines).1.done = true ∧
        (handleLines reader served broken a lines).1.finishReason = finish.or a.finishReason) := by
  induction delivers generalizing a with
  | done isDone rest =>
    right
    simp only [handleLines, handleLine, isDone, if_true]
    exact ⟨trivial, Attempt.Carried.stay heldBack rfl rfl, trivial, rfl⟩
  | comment noData later inductionHypothesis =>
    simp only [handleLines, handleLine, noData]
    exact inductionHypothesis heldBack
  | @event line data payload now lines contents finish isData notDone decoded noError carried later inductionHypothesis =>
    obtain ⟨noted, held, passed, isFinish, carriedOn⟩ :=
      @handlePayload_carries _ reader served a _ _ _ undisturbed heldBack noError carried
    simp only [handleLines, handleLine, isData, if_neg notDone, decoded, List.flatten_append]
    revert carriedOn
    obtain ⟨reached, flow⟩ := handlePayload reader served a payload
    intro carriedOn
    cases flow with
    | stop => exact carriedOn.elim
    | goOn =>
      obtain ⟨reaches, sameFinish⟩ := carriedOn
      have first : a.Carried reached now.flatten := reaches.congr held passed
      simp only
      rcases @inductionHypothesis reached first.heldBack with ⟨raised, isRaised, alone⟩ | ⟨isNone, second, isDone, finishAfter⟩
      · left
        have lone := first.lone contents.flatten
        exact ⟨raised, isRaised, by rw [← List.append_assoc, lone, alone]⟩
      · right
        refine ⟨isNone, first.trans second, isDone, ?_⟩
        rw [finishAfter, sameFinish, isFinish, Option.or_assoc]
    | raised raised =>
      left
      have alone : ∀ more, loneHalf (noted.heldSurrogate ++ now.flatten ++ more) = true := carriedOn
      rw [held] at alone
      exact ⟨raised, rfl, by rw [← List.append_assoc, alone]⟩

/-- The variables an attempt is left with: it raised because a half was alone, or it read to the end. -/
theorem openAndRead_carries {response : Response Usage} {contents : List Str} {finish : Option Str}
    (undisturbed : Undisturbed served response) (delivers : Delivers reader response.lines contents finish) :
    (∃ a raised, openAndRead reader served = (a, some raised) ∧ loneHalf contents.flatten = true) ∨
      ∃ a, openAndRead reader served = (a, none) ∧ (Attempt.fresh : Attempt Usage).Carried a contents.flatten ∧
        a.done = true ∧ a.finishReason = finish := by
  have notRejected : ¬ (response.statusCode < 200 ∨ 300 ≤ response.statusCode) := by
    have accepted := undisturbed.accepted
    omega
  simp only [openAndRead, undisturbed.opened, readResponse, if_neg notRejected, undisturbed.closing, Option.none_or]
  have carries := fun (start : Attempt Usage) (held : start.heldSurrogate = []) =>
    @handleLines_carries _ reader served start response response.broken _ _ _ undisturbed (.inl held) delivers
  rcases carries { Attempt.fresh with requestId := response.requestId.filter fun text => !text.isEmpty } rfl with
    ⟨raised, isRaised, alone⟩ | ⟨isNone, carried, isDone, isFinish⟩
  · exact .inl ⟨_, raised, by rw [← isRaised], alone⟩
  · refine .inr ⟨_, by rw [← isNone], carried.congr rfl rfl, isDone, ?_⟩
    rw [isFinish]
    exact Option.or_none

/-- A stream that is delivered succeeds if and only if every half of its contents meets its other half;
then the text passed on is that of the contents with the pairs joined.  No text passed on has a half
in it, whatever an attempt meets. -/
theorem surrogates_joined {response : Response Usage} {contents : List Str} {finish : Option Str}
    (undisturbed : Undisturbed served response) (delivers : Delivers reader response.lines contents finish)
    (notLength : finish ≠ some (str "length")) (notFiltered : finish ≠ some (str "content_filter")) :
    ((streamOnce reader served).2.isOk = true ↔ loneHalf contents.flatten = false) ∧
      (loneHalf contents.flatten = false → (streamOnce reader served).1.passed.flatten = pairsJoined contents.flatten) ∧
      ∀ delta ∈ (streamOnce reader served).1.passed, delta.any isSurrogate = false := by
  have whole := @streamOnce_whole _ reader served
  rcases openAndRead_carries undisturbed delivers with ⟨a, raised, isRead, alone⟩ | ⟨a, isRead, carried, isDone, isFinish⟩
  · simp only [streamOnce, isRead] at whole ⊢
    refine ⟨?_, fun isWhole => ?_, whole⟩
    · rw [alone]
      exact iff_of_false Bool.false_ne_true Bool.false_ne_true.symm
    · rw [alone] at isWhole
      cases isWhole
  · have lone : loneHalf contents.flatten = loneHalf a.heldSurrogate := by simpa [Attempt.fresh] using carried.lone []
    have complete : a.complete.isOk = true ↔ a.heldSurrogate = [] := by
      simp only [Attempt.complete, isFinish, if_neg notLength, if_neg notFiltered, isDone]
      cases a.heldSurrogate <;> simp [Except.isOk, Except.toBool]
    simp only [streamOnce, isRead] at whole ⊢
    refine ⟨?_, fun isWhole => ?_, whole⟩
    · rw [complete, lone, carried.heldBack.loneHalf_iff]
    · have isEmpty := carried.heldBack.loneHalf_iff.mp (lone ▸ isWhole)
      have joined := carried.joined []
      rw [isEmpty] at joined
      simpa [Attempt.fresh, pairsJoined] using joined.symm

end

/-- `json.loads`, where a test reads no number and no usage. -/
def plainReader : Reader Unit where
  loads text :=
    match Json.loads ⟨1000, id⟩ text with
    | .ok value => .ok value
    | .error _ => .error .value
  isDigit _ := false
  int _ := .error .value
  float _ := none
  parseUsage _ := none

/-- A delta event with this content, as it is escaped. -/
def deltaLine (content : String) : String := "data: \x7b\"choices\":[\x7b\"delta\":\x7b\"content\":\"" ++ content ++ "\"\x7d\x7d]\x7d"

def smileyResponse : Response Unit where
  statusCode := 200
  requestId := none
  retryAfter := none
  chunks := [str (deltaLine "a\\ud83d"), str "\n\n", str (deltaLine "\\ude00" ++ "\n\ndata: [DONE]\n")]
  broken := none

def smileyServed : Served Unit where
  opened := .ok smileyResponse
  closing := none
  onDelta _ := none
  onIds _ _ := none

theorem smiley_lines : smileyResponse.lines =
    [str (deltaLine "a\\ud83d"), [], str (deltaLine "\\ude00"), [], str "data: [DONE]"] := by
  decide +kernel

/-- Does this data carry these contents, and name no finish reason? -/
def carriesText (reader : Reader Unit) (data : Str) (now : List Str) : Bool :=
  match decodeStreamPayload reader data with
  | .error _ => false
  | .ok payload =>
    (payloadError payload).isNone && (@contentDeltas Unit payload).toOption == some now && finishReason payload == none

theorem Delivers.text {reader : Reader Unit} {line data : Str} {now lines contents : List Str} {finish : Option Str}
    (isData : lineData? line = some data) (notDone : data ≠ doneData) (carries : carriesText reader data now = true)
    (later : Delivers reader lines contents finish) : Delivers reader (line :: lines) (now ++ contents) finish := by
  unfold carriesText at carries
  split at carries
  next => cases carries
  next payload decoded =>
    simp only [Bool.and_eq_true, beq_iff_eq] at carries
    obtain ⟨⟨noError, carried⟩, noFinish⟩ := carries
    have isOk : @contentDeltas Unit payload = .ok now := by
      cases isCarried : @contentDeltas Unit payload with
      | error raised =>
        rw [isCarried] at carried
        cases carried
      | ok contents =>
        rw [isCarried] at carried
        rw [Option.some.inj carried]
    have event := Delivers.event isData notDone decoded (Option.isNone_iff_eq_none.mp noError) isOk later
    rwa [noFinish, Option.or_none] at event

theorem smiley_delivers : Delivers plainReader smileyResponse.lines [[0x61, 0xD83D], [0xDE00]] none := by
  rw [smiley_lines]
  have first : carriesText plainReader ((str (deltaLine "a\\ud83d")).drop 6) [[0x61, 0xD83D]] = true := by decide +kernel
  have second : carriesText plainReader ((str (deltaLine "\\ude00")).drop 6) [[0xDE00]] = true := by decide +kernel
  refine Delivers.text ?_ ?_ first (.comment (by decide +kernel) (Delivers.text ?_ ?_ second (.comment (by decide +kernel) (.done ?_ []))))
  all_goals decide +kernel

theorem surrogates_joined_smiley :
    (streamOnce plainReader smileyServed).2.isOk = true ∧
      (streamOnce plainReader smileyServed).1.passed.flatten = [0x61, 0x1F600] := by
  have undisturbed : Undisturbed smileyServed smileyResponse := ⟨rfl, by decide, rfl, fun _ => rfl, fun _ _ => rfl⟩
  have joined := surrogates_joined undisturbed smiley_delivers (by decide) (by decide)
  have whole : loneHalf ([[0x61, 0xD83D], [0xDE00]] : List Str).flatten = false := by decide
  exact ⟨joined.1.mpr whole, (joined.2.1 whole).trans (by decide)⟩

end Oveo.Provider
