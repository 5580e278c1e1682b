import Oveo.Protocol.Lines

/-! # Cutting the stream into chunks

The unfinished line is measured with the return a later newline would take off it.  So a cut
between the two, after a line of exactly the permitted size, is refused although the same bytes
in one piece pass: `SplitsFullReturn` names these cuts, and `decodeChunks_eq_ok` says that they
are the only ones that matter. -/

namespace Oveo.Protocol

open Oveo.Lib Oveo.Docx

variable {runtime : Json.Runtime} {limits : Limits}

/-- A chunk ends between the return and the newline of a line whose text is as long as a line
may be.  The decoder has the bytes of a character and a line begun before the chunks. -/
def SplitsFullReturn (limits : Limits) (utf8 : Utf8) (begun : Str) (chunks : List (List UInt8)) : Prop :=
  ∃ left right, chunks = left ++ right ∧ ∃ middle before final after content,
    Utf8.decode utf8 left.flatten = some (middle, before) ∧
    Utf8.decode middle right.flatten = some (final, lineFeed :: after) ∧
    lastLine begun before = content ++ [carriageReturn] ∧ utf8Size content = limits.maxLineBytes

/-- After one chunk that was decoded, the cuts that remain. -/
theorem SplitsFullReturn.cons {utf8 middle : Utf8} {begun text : Str} {chunk : List UInt8} {chunks : List (List UInt8)}
    (decoded : Utf8.decode utf8 chunk = some (middle, text))
    (splits : SplitsFullReturn limits middle (lastLine begun text) chunks) :
    SplitsFullReturn limits utf8 begun (chunk :: chunks) := by
  obtain ⟨left, right, rfl, state, before, final, after, content, decodedLeft, decodedRight, ended, full⟩ := splits
  refine ⟨chunk :: left, right, rfl, state, text ++ before, final, after, content, ?_, decodedRight, ?_, full⟩
  · simp [Utf8.decode_append, decoded, decodedLeft]
  · rw [lastLine_append]
    exact ended

@[simp] theorem utf8Size_carriageReturn : utf8Size [carriageReturn] = 1 := rfl

/-- A line that is consumed later was short enough at every cut, but for its return. -/
theorem size_of_cut {r r' : ResponseState} {begun text : Str} {events : List ProtocolEvent}
    (consumed : consumeLines runtime limits r (completeLines begun text) = .ok (r', events))
    (small : utf8Size (lastLine begun text) ≤ limits.maxLineBytes) :
    utf8Size begun ≤ limits.maxLineBytes ∨
      ∃ content after, text = lineFeed :: after ∧ begun = content ++ [carriageReturn] ∧
        utf8Size content = limits.maxLineBytes := by
  by_cases fits : utf8Size begun ≤ limits.maxLineBytes
  · exact .inl fits
  · right
    cases split : completeLines begun text with
    | nil =>
      rw [lastLine_of_completeLines_nil split, utf8Size_append] at small
      omega
    | cons line lines =>
      rw [split] at consumed
      obtain ⟨_, _, _, head, -, -⟩ := consumeLines_cons_ok.mp consumed
      have lineFits := consumeLine_size head
      obtain ⟨rest, after, rfl, rfl⟩ := completeLines_cons split
      by_cases more : rest = []
      · subst more
        rw [List.append_nil] at lineFits
        rcases removeReturn_eq_or begun with kept | ended
        · rw [kept] at lineFits
          exact absurd lineFits fits
        · refine ⟨removeReturn begun, after, rfl, ended, ?_⟩
          rw [ended, utf8Size_append, utf8Size_carriageReturn] at fits
          omega
      · have := utf8Size_le_removeReturn begun more
        omega

/-- Bytes after `response_end` make the rest of the run fail, whichever check finds them. -/
theorem nothing_after_completed {utf8 final : Utf8} {begun text : Str} {bytes : List UInt8} {r r' : ResponseState}
    {events : List ProtocolEvent} {document : ProtocolDocument} (completed : r.completed = true)
    (decoded : Utf8.decode utf8 bytes = some (final, text))
    (consumed : consumeLines runtime limits r (completeLines begun text) = .ok (r', events))
    (finished : finish runtime limits (Decoder.holding final (lastLine begun text) r') = .ok document) : bytes = [] := by
  by_contra more
  obtain ⟨complete, response, last, -⟩ := finish_eq_ok.mp finished
  have nonempty : text ≠ [] := Utf8.decode_ne_nil decoded more (by simpa [Utf8.isFinal, Decoder.holding] using complete)
  cases split : completeLines begun text with
  | cons line lines =>
    rw [split] at consumed
    obtain ⟨_, _, _, head, -, -⟩ := consumeLines_cons_ok.mp consumed
    exact consumeLine_completed completed _ _ head
  | nil =>
    rw [split] at consumed
    cases consumed
    simp only [Decoder.holding, lastLine_of_completeLines_nil split, List.append_eq_nil_iff, nonempty, and_false,
      false_and, false_or] at last
    obtain ⟨-, event, head⟩ := last
    exact consumeLine_completed completed _ _ head

/-- One feed whose run ends well can be cut in two, except between the return and the newline of
a full line. -/
theorem feed_cut {d d' : Decoder} {left right : List UInt8} {events : List ProtocolEvent} {document : ProtocolDocument}
    (measured : d.Measured limits) (fed : feed runtime limits d (left ++ right) = .ok (d', events))
    (finished : finish runtime limits d' = .ok document)
    (cut : ∀ middle before final after content, Utf8.decode d.utf8 left = some (middle, before) →
      Utf8.decode middle right = some (final, lineFeed :: after) →
      lastLine d.pending before = content ++ [carriageReturn] → utf8Size content ≠ limits.maxLineBytes) :
    ∃ middle before after, feed runtime limits d left = .ok (middle, before) ∧
      feed runtime limits middle right = .ok (d', after) ∧ events = before ++ after := by
  obtain ⟨openEnded, final, text, response, decoded, consumed, small, rfl⟩ := (feed_eq_ok measured).mp fed
  rw [Utf8.decode_append, Option.bind_eq_some_iff] at decoded
  obtain ⟨⟨middle, leftText⟩, decodedLeft, joined⟩ := decoded
  obtain ⟨⟨_, rightText⟩, decodedRight, same⟩ := Option.map_eq_some_iff.mp joined
  cases same
  rw [completeLines_append, consumeLines_append_ok] at consumed
  obtain ⟨r, before, after, consumedLeft, consumedRight, rfl⟩ := consumed
  rw [lastLine_append] at small finished
  have fits : utf8Size (lastLine d.pending leftText) ≤ limits.maxLineBytes := by
    rcases size_of_cut consumedRight small with fits | ⟨content, rest, rfl, ended, full⟩
    · exact fits
    · exact absurd full (cut middle leftText final rest content decodedLeft decodedRight ended)
  have fedLeft : feed runtime limits d left = .ok (Decoder.holding middle (lastLine d.pending leftText) r, before) :=
    (feed_eq_ok measured).mpr
      ⟨fun completed => (List.append_eq_nil_iff.mp (openEnded completed)).1, middle, leftText, r, decodedLeft,
        consumedLeft, fits, rfl⟩
  refine ⟨_, before, after, fedLeft, (feed_eq_ok (feed_measured measured fedLeft)).mpr ?_, rfl⟩
  refine ⟨fun completed => ?_, final, rightText, response, decodedRight, consumedRight, small, ?_⟩
  · exact nothing_after_completed completed decodedRight consumedRight finished
  · rw [lastLine_append]
    rfl

/-! ## All chunks -/

theorem feedAll_cons_ok {d d' : Decoder} {chunk : List UInt8} {chunks : List (List UInt8)} {events : List ProtocolEvent} :
    feedAll runtime limits d (chunk :: chunks) = .ok (d', events) ↔
      ∃ middle before after, feed runtime limits d chunk = .ok (middle, before) ∧
        feedAll runtime limits middle chunks = .ok (d', after) ∧ events = before ++ after := by
  simp only [feedAll, ok_bind_iff, pure_eq_ok, Except.ok.injEq, Prod.mk.injEq, Prod.exists]
  constructor
  · rintro ⟨middle, before, fed, final, after, rest, rfl, rfl⟩
    exact ⟨middle, before, after, fed, rest, rfl⟩
  · rintro ⟨middle, before, after, fed, rest, rfl⟩
    exact ⟨middle, before, fed, d', after, rest, rfl, rfl⟩

/-- Chunks that are all accepted are accepted as one. -/
theorem feed_flatten {d d' : Decoder} {chunks : List (List UInt8)} {events : List ProtocolEvent}
    (measured : d.Measured limits) (fed : feedAll runtime limits d chunks = .ok (d', events)) :
    feed runtime limits d chunks.flatten = .ok (d', events) := by
  induction chunks generalizing d events with
  | nil =>
    cases fed
    exact feed_nil measured
  | cons chunk chunks inductionHypothesis =>
    obtain ⟨middle, before, after, first, rest, rfl⟩ := feedAll_cons_ok.mp fed
    exact feed_feed measured first (inductionHypothesis (feed_measured measured first) rest)

/-- Where every feed passed, no chunk ended after the return of a full line: what the decoder
held there would have been one byte too long. -/
theorem feedAll_not_splits {d d' : Decoder} {chunks : List (List UInt8)} {events : List ProtocolEvent}
    (measured : d.Measured limits) (fed : feedAll runtime limits d chunks = .ok (d', events)) :
    ¬ SplitsFullReturn limits d.utf8 d.pending chunks := by
  rintro ⟨left, right, rfl, middle, before, final, after, content, decoded, -, ended, full⟩
  induction left generalizing d events before with
  | nil =>
    cases decoded
    have bounded := measured.bounded
    rw [lastLine_nil] at ended
    rw [ended, utf8Size_append, utf8Size_carriageReturn] at bounded
    omega
  | cons chunk left inductionHypothesis =>
    obtain ⟨next, _, _, first, rest, rfl⟩ := feedAll_cons_ok.mp fed
    have nextMeasured := feed_measured measured first
    obtain ⟨-, state, text, response, decodedChunk, -, -, rfl⟩ := (feed_eq_ok measured).mp first
    rw [List.flatten_cons, Utf8.decode_append, decodedChunk, Option.bind_some] at decoded
    obtain ⟨⟨_, tail⟩, decodedTail, same⟩ := Option.map_eq_some_iff.mp decoded
    cases same
    refine inductionHypothesis nextMeasured rest tail decodedTail ?_
    rw [← ended, lastLine_append]
    rfl

/-- One feed whose run ends well can be cut into any chunks that split no full return. -/
theorem feedAll_of_feed {d d' : Decoder} {chunks : List (List UInt8)} {events : List ProtocolEvent}
    {document : ProtocolDocument} (measured : d.Measured limits)
    (fed : feed runtime limits d chunks.flatten = .ok (d', events))
    (finished : finish runtime limits d' = .ok document) (splits : ¬ SplitsFullReturn limits d.utf8 d.pending chunks) :
    feedAll runtime limits d chunks = .ok (d', events) := by
  induction chunks generalizing d events with
  | nil =>
    rw [List.flatten_nil, feed_nil measured] at fed
    exact fed
  | cons chunk chunks inductionHypothesis =>
    rw [List.flatten_cons] at fed
    obtain ⟨middle, before, after, first, rest, rfl⟩ := feed_cut measured fed finished
      fun middle before final after content decodedLeft decodedRight ended full =>
        splits ⟨[chunk], chunks, rfl, middle, before, final, after, content, by simpa using decodedLeft,
          decodedRight, ended, full⟩
    refine feedAll_cons_ok.mpr ⟨middle, before, after, first, ?_, rfl⟩
    refine inductionHypothesis (feed_measured measured first) rest fun still => splits ?_
    obtain ⟨-, state, text, response, decoded, -, -, rfl⟩ := (feed_eq_ok measured).mp first
    exact still.cons decoded

theorem decodeChunks_eq_ok_iff {chunks : List (List UInt8)} {document : ProtocolDocument} {events : List ProtocolEvent} :
    decodeChunks runtime limits chunks = .ok (document, events) ↔
      ∃ d, feedAll runtime limits Decoder.initial chunks = .ok (d, events) ∧ finish runtime limits d = .ok document := by
  simp only [decodeChunks, ok_bind_iff, pure_eq_ok, Except.ok.injEq, Prod.mk.injEq, Prod.exists]
  constructor
  · rintro ⟨d, _, fed, _, finished, rfl, rfl⟩
    exact ⟨d, fed, finished⟩
  · rintro ⟨d, fed, finished⟩
    exact ⟨d, events, fed, document, finished, rfl, rfl⟩

theorem decodeChunks_singleton_eq_ok {bytes : List UInt8} {document : ProtocolDocument} {events : List ProtocolEvent} :
    decodeChunks runtime limits [bytes] = .ok (document, events) ↔
      ∃ d, feed runtime limits Decoder.initial bytes = .ok (d, events) ∧ finish runtime limits d = .ok document := by
  rw [decodeChunks_eq_ok_iff]
  refine exists_congr fun d => and_congr_left fun _ => ?_
  simp only [feedAll_cons_ok]
  constructor
  · rintro ⟨middle, before, after, fed, nothing, rfl⟩
    cases nothing
    simpa using fed
  · intro fed
    exact ⟨d, events, [], fed, rfl, by simp⟩

/-- The chunks are accepted exactly when the whole is and no full return was split, and then with
the same document and events. -/
theorem decodeChunks_eq_ok {chunks : List (List UInt8)} {result : ProtocolDocument × List ProtocolEvent} :
    decodeChunks runtime limits chunks = .ok result ↔
      decodeChunks runtime limits [chunks.flatten] = .ok result ∧ ¬ SplitsFullReturn limits Utf8.start [] chunks := by
  obtain ⟨document, events⟩ := result
  rw [decodeChunks_eq_ok_iff, decodeChunks_singleton_eq_ok]
  constructor
  · rintro ⟨d, fed, finished⟩
    exact ⟨⟨d, feed_flatten Decoder.measured_initial fed, finished⟩, feedAll_not_splits Decoder.measured_initial fed⟩
  · rintro ⟨⟨d, fed, finished⟩, splits⟩
    exact ⟨d, feedAll_of_feed Decoder.measured_initial fed finished splits, finished⟩

end Oveo.Protocol
