import Oveo.Protocol.Decoder

/-! # The decoder line by line

`feed` scans newly decoded text only and keeps the pieces of the unfinished line.  Here it is
brought to the form the later results reason about: the decoder consumes the complete lines of
what it holds and then holds the last one (`feed_eq_ok`).  Two feeds in a row amount to one
(`feed_feed`); the other direction, that one feed can be cut in two (`feed_cut`), is what the
check on the unfinished line can forbid. -/

namespace Oveo.Protocol

open Oveo.Lib Oveo.Docx

/-! ## Splitting a text -/

/-- The lines of a text that a newline ends, after a line already begun. -/
def completeLines (begun : Str) : Str → List Str
  | [] => []
  | c :: text => if c = lineFeed then begun :: completeLines [] text else completeLines (begun ++ [c]) text

/-- What follows the last newline. -/
def lastLine (begun : Str) : Str → Str
  | [] => begun
  | c :: text => if c = lineFeed then lastLine [] text else lastLine (begun ++ [c]) text

@[simp] theorem completeLines_nil (begun : Str) : completeLines begun [] = [] := rfl

@[simp] theorem lastLine_nil (begun : Str) : lastLine begun [] = begun := rfl

theorem completeLines_append (begun left right : Str) :
    completeLines begun (left ++ right) = completeLines begun left ++ completeLines (lastLine begun left) right := by
  induction left generalizing begun with
  | nil => rfl
  | cons c left inductionHypothesis =>
    simp only [List.cons_append, completeLines, lastLine]
    split <;> simp [inductionHypothesis]

theorem lastLine_append (begun left right : Str) :
    lastLine begun (left ++ right) = lastLine (lastLine begun left) right := by
  induction left generalizing begun with
  | nil => rfl
  | cons c left inductionHypothesis =>
    simp only [List.cons_append, lastLine]
    split <;> simp [inductionHypothesis]

/-- Where no newline follows, the line goes on to the end of the text. -/
theorem lastLine_of_completeLines_nil {begun text : Str} (unfinished : completeLines begun text = []) :
    lastLine begun text = begun ++ text := by
  induction text generalizing begun with
  | nil => simp
  | cons c text inductionHypothesis =>
    simp only [completeLines] at unfinished
    split at unfinished
    next => cases unfinished
    next ordinary => simp [lastLine, ordinary, inductionHypothesis unfinished]

/-- The first complete line goes on from what was begun, up to the newline. -/
theorem completeLines_cons {begun text line : Str} {lines : List Str} (first : completeLines begun text = line :: lines) :
    ∃ rest after, line = begun ++ rest ∧ text = rest ++ lineFeed :: after := by
  induction text generalizing begun with
  | nil => cases first
  | cons c text inductionHypothesis =>
    simp only [completeLines] at first
    split at first
    next newline =>
      cases first
      exact ⟨[], text, by simp, by simp [newline]⟩
    next =>
      obtain ⟨rest, after, rfl, rfl⟩ := inductionHypothesis first
      exact ⟨c :: rest, after, by simp, rfl⟩

@[simp] theorem removeReturn_nil : removeReturn [] = [] := rfl

theorem removeReturn_eq_or (line : Str) :
    removeReturn line = line ∨ line = removeReturn line ++ [carriageReturn] := by
  rcases List.eq_nil_or_concat line with rfl | ⟨init, last, rfl⟩
  · exact .inl rfl
  · by_cases ended : last = carriageReturn
    · subst ended
      right
      simp [removeReturn]
    · left
      simp [removeReturn, ended]

/-- Only the return itself can make a line longer than the text the limit is applied to. -/
theorem utf8Size_le_removeReturn (begun : Str) {rest : Str} (more : rest ≠ []) :
    utf8Size begun ≤ utf8Size (removeReturn (begun ++ rest)) := by
  unfold removeReturn
  split
  next =>
    rw [List.dropLast_append_of_ne_nil more]
    simp
  next => simp

/-! ## Runs over lines -/

variable {runtime : Json.Runtime} {limits : Limits}

/-- The lines one after the other, each without its return. -/
def consumeLines (runtime : Json.Runtime) (limits : Limits) (r : ResponseState) :
    List Str → Except ProtocolCode (ResponseState × List ProtocolEvent)
  | [] => .ok (r, [])
  | line :: lines => do
    let (r, event) ← consumeLine runtime limits r (removeReturn line)
    let (r, events) ← consumeLines runtime limits r lines
    return (r, event :: events)

@[simp] theorem consumeLines_cons_ok {r r' : ResponseState} {line : Str} {lines : List Str} {events : List ProtocolEvent} :
    consumeLines runtime limits r (line :: lines) = .ok (r', events) ↔
      ∃ middle event rest, consumeLine runtime limits r (removeReturn line) = .ok (middle, event) ∧
        consumeLines runtime limits middle lines = .ok (r', rest) ∧ events = event :: rest := by
  simp only [consumeLines, ok_bind_iff, pure_eq_ok, Except.ok.injEq, Prod.mk.injEq, Prod.exists]
  constructor
  · rintro ⟨middle, event, head, final, rest, tail, rfl, rfl⟩
    exact ⟨middle, event, rest, head, tail, rfl⟩
  · rintro ⟨middle, event, rest, head, tail, rfl⟩
    exact ⟨middle, event, head, r', rest, tail, rfl, rfl⟩

theorem consumeLines_append_ok {r r' : ResponseState} {left right : List Str} {events : List ProtocolEvent} :
    consumeLines runtime limits r (left ++ right) = .ok (r', events) ↔
      ∃ middle before after, consumeLines runtime limits r left = .ok (middle, before) ∧
        consumeLines runtime limits middle right = .ok (r', after) ∧ events = before ++ after := by
  induction left generalizing r events with
  | nil =>
    constructor
    · intro consumed
      exact ⟨r, [], events, rfl, consumed, rfl⟩
    · rintro ⟨middle, before, after, nothing, consumed, rfl⟩
      cases nothing
      exact consumed
  | cons line left inductionHypothesis =>
    simp only [List.cons_append, consumeLines_cons_ok, inductionHypothesis]
    constructor
    · rintro ⟨first, event, _, head, ⟨middle, before, after, tail, rest, rfl⟩, rfl⟩
      exact ⟨middle, event :: before, after, ⟨first, event, before, head, tail, rfl⟩, rest, rfl⟩
    · rintro ⟨middle, _, after, ⟨first, event, before, head, tail, rfl⟩, rest, rfl⟩
      exact ⟨first, event, before ++ after, head, ⟨middle, before, after, tail, rest, rfl⟩, rfl⟩

/-- Nothing follows `response_end`. -/
theorem consumeLine_completed {r : ResponseState} (completed : r.completed = true) (line : Str)
    (result : ResponseState × ProtocolEvent) : consumeLine runtime limits r line ≠ .ok result := by
  simp [consumeLine, completed]

theorem consumeLine_size {r r' : ResponseState} {line : Str} {event : ProtocolEvent}
    (consumed : consumeLine runtime limits r line = .ok (r', event)) : utf8Size line ≤ limits.maxLineBytes := by
  simp only [consumeLine, ite_error_eq_ok] at consumed
  omega

/-! ## Feeding -/

/-- The decoder that holds an unfinished line. -/
def Decoder.holding (utf8 : Utf8) (line : Str) (response : ResponseState) : Decoder :=
  { utf8, pending := line, pendingBytes := utf8Size line, response }

/-- The invariant of `_pending_bytes`: it is the size of the unfinished line, which was checked. -/
structure Decoder.Measured (limits : Limits) (d : Decoder) : Prop where
  size : d.pendingBytes = utf8Size d.pending
  bounded : utf8Size d.pending ≤ limits.maxLineBytes

theorem Decoder.measured_initial : Decoder.initial.Measured limits :=
  ⟨rfl, Nat.zero_le _⟩

theorem Decoder.Measured.holding_eq {d : Decoder} (measured : d.Measured limits) :
    Decoder.holding d.utf8 d.pending d.response = d := by
  obtain ⟨utf8, pending, pendingBytes, response⟩ := d
  have := measured.size
  simp_all [Decoder.holding]

theorem drainLines_eq_ok {d d' : Decoder} {piece text : Str} {events : List ProtocolEvent}
    (measured : d.Measured limits) :
    drainLines runtime limits d piece text = .ok (d', events) ↔
      ∃ response, consumeLines runtime limits d.response (completeLines (d.pending ++ piece) text) = .ok (response, events) ∧
        utf8Size (lastLine (d.pending ++ piece) text) ≤ limits.maxLineBytes ∧
        d' = Decoder.holding d.utf8 (lastLine (d.pending ++ piece) text) response := by
  induction text generalizing d piece events with
  | nil =>
    simp only [drainLines, completeLines_nil, lastLine_nil, consumeLines]
    split
    next empty =>
      subst empty
      simp only [List.append_nil]
      constructor
      · intro kept
        cases kept
        exact ⟨_, rfl, measured.bounded, measured.holding_eq.symm⟩
      · rintro ⟨response, consumed, -, rfl⟩
        cases consumed
        rw [measured.holding_eq]
    next =>
      simp only [ite_error_eq_ok, measured.size, utf8Size_append]
      constructor
      · rintro ⟨small, kept⟩
        cases kept
        exact ⟨d.response, rfl, by omega, by simp [Decoder.holding]⟩
      · rintro ⟨response, consumed, small, rfl⟩
        cases consumed
        exact ⟨by omega, by simp [Decoder.holding]⟩
  | cons c text inductionHypothesis =>
    simp only [drainLines, completeLines, lastLine]
    split
    next newline =>
      simp only [Decoder.consumePending, ok_bind_iff, pure_eq_ok, Except.ok.injEq, Prod.mk.injEq, Prod.exists,
        consumeLines_cons_ok]
      constructor
      · rintro ⟨_, _, ⟨middle, event, head, rfl, rfl⟩, final, rest, drained, rfl, rfl⟩
        obtain ⟨response, tail, small, rfl⟩ := (inductionHypothesis ⟨rfl, Nat.zero_le _⟩).mp drained
        exact ⟨response, ⟨middle, event, rest, head, tail, rfl⟩, small, rfl⟩
      · rintro ⟨response, ⟨middle, event, rest, head, tail, rfl⟩, small, rfl⟩
        refine ⟨_, event, ⟨middle, event, head, rfl, rfl⟩, _, rest, ?_, rfl, rfl⟩
        exact (inductionHypothesis ⟨rfl, Nat.zero_le _⟩).mpr ⟨response, tail, small, rfl⟩
    next =>
      rw [inductionHypothesis measured, List.append_assoc]

/-- What one feed does: decode, consume the complete lines, hold the last one if it is not too long. -/
theorem feed_eq_ok {d d' : Decoder} {chunk : List UInt8} {events : List ProtocolEvent} (measured : d.Measured limits) :
    feed runtime limits d chunk = .ok (d', events) ↔
      (d.response.completed = true → chunk = []) ∧
      ∃ utf8 text response, Utf8.decode d.utf8 chunk = some (utf8, text) ∧
        consumeLines runtime limits d.response (completeLines d.pending text) = .ok (response, events) ∧
        utf8Size (lastLine d.pending text) ≤ limits.maxLineBytes ∧
        d' = Decoder.holding utf8 (lastLine d.pending text) response := by
  simp only [feed, ite_error_eq_ok, not_and_not_right, drainCompleteLines]
  refine and_congr_right fun _ => ?_
  cases decoded : Utf8.decode d.utf8 chunk with
  | none => simp
  | some entry =>
    obtain ⟨utf8, text⟩ := entry
    have still : Decoder.Measured limits { d with utf8 } := ⟨measured.size, measured.bounded⟩
    simp only [drainLines_eq_ok still, List.append_nil]
    constructor
    · rintro ⟨response, consumed, small, rfl⟩
      exact ⟨utf8, text, response, rfl, consumed, small, rfl⟩
    · rintro ⟨_, _, response, same, consumed, small, rfl⟩
      cases same
      exact ⟨response, consumed, small, rfl⟩

theorem feed_measured {d d' : Decoder} {chunk : List UInt8} {events : List ProtocolEvent} (measured : d.Measured limits)
    (fed : feed runtime limits d chunk = .ok (d', events)) : d'.Measured limits := by
  obtain ⟨-, utf8, text, response, -, -, small, rfl⟩ := (feed_eq_ok measured).mp fed
  exact ⟨rfl, small⟩

/-- Feeding nothing changes nothing. -/
theorem feed_nil {d : Decoder} (measured : d.Measured limits) : feed runtime limits d [] = .ok (d, []) :=
  (feed_eq_ok measured).mpr
    ⟨fun _ => rfl, d.utf8, [], d.response, rfl, rfl, measured.bounded, measured.holding_eq.symm⟩

/-- Two feeds that succeed are one feed of both chunks. -/
theorem feed_feed {d middle d' : Decoder} {left right : List UInt8} {before after : List ProtocolEvent}
    (measured : d.Measured limits) (first : feed runtime limits d left = .ok (middle, before))
    (second : feed runtime limits middle right = .ok (d', after)) :
    feed runtime limits d (left ++ right) = .ok (d', before ++ after) := by
  have middleMeasured := feed_measured measured first
  obtain ⟨leftOpen, utf8, text, response, decoded, consumed, -, rfl⟩ := (feed_eq_ok measured).mp first
  obtain ⟨rightOpen, utf8', text', response', decoded', consumed', small, rfl⟩ := (feed_eq_ok middleMeasured).mp second
  refine (feed_eq_ok measured).mpr ⟨?_, utf8', text ++ text', response', ?_, ?_, ?_, ?_⟩
  · intro completed
    have empty := leftOpen completed
    subst empty
    cases decoded
    cases consumed
    exact rightOpen completed
  · simp only [Decoder.holding] at decoded'
    simp [Utf8.decode_append, decoded, decoded']
  · rw [completeLines_append, consumeLines_append_ok]
    exact ⟨response, before, after, consumed, consumed', rfl⟩
  · rw [lastLine_append]
    exact small
  · rw [lastLine_append]
    rfl

/-- The last part of `finish`, on the response as the last line left it. -/
theorem closing_eq_ok {r : ResponseState} {document : ProtocolDocument} :
    (match r.state with
      | none => (.error .missingState : Except ProtocolCode ProtocolDocument)
      | some state => do
        let blocks ← r.checkBlocks limits
        .ok { blocks, state }) = .ok document ↔
      r.state = some document.state ∧ r.checkBlocks limits = .ok document.blocks := by
  obtain ⟨blocks, state⟩ := document
  cases r.state with
  | none => simp
  | some state' =>
    simp only [ok_bind_iff, Except.ok.injEq, ProtocolDocument.mk.injEq, Option.some.injEq]
    constructor
    · rintro ⟨found, checked, rfl, rfl⟩
      exact ⟨rfl, checked⟩
    · rintro ⟨rfl, checked⟩
      exact ⟨blocks, checked, rfl, rfl⟩

/-- What `finish` asks of the decoder: every byte decoded, and the unfinished line, if there is
one, consumed like a complete one; then the response has ended. -/
theorem finish_eq_ok {d : Decoder} {document : ProtocolDocument} :
    finish runtime limits d = .ok document ↔
      d.utf8.isFinal = true ∧ ∃ response,
        (d.pending = [] ∧ response = d.response ∨
          d.pending ≠ [] ∧ ∃ event, consumeLine runtime limits d.response (removeReturn d.pending) = .ok (response, event)) ∧
        response.completed = true ∧ response.state = some document.state ∧
        response.checkBlocks limits = .ok document.blocks := by
  unfold finish
  by_cases final : d.utf8.isFinal = true
  · by_cases empty : d.pending = []
    · by_cases completed : d.response.completed = true
      · simp [final, empty, completed]
        exact closing_eq_ok
      · simp [final, empty, completed, error_bind_eq]
    · simp [final, empty, Decoder.consumePending]
      refine exists_congr fun response => and_congr_right fun _ => ?_
      by_cases completed : response.completed = true
      · simp [completed]
        exact closing_eq_ok
      · simp [completed, error_bind_eq]
  · simp [final]

end Oveo.Protocol
