import Oveo.Protocol.Cuts
import Oveo.Protocol.Grammar

/-! # Transcripts

A transcript is a byte string whose lines spell a well-formed response, each within the line
limit.  The decoder accepts transcripts, and only these, when they come in one chunk
(`exists_transcript`, `Transcript.accepted`); the two results of the decoder are read off that. -/

namespace Oveo.Protocol

open Oveo.Lib Oveo.Docx

variable {runtime : Json.Runtime} {limits : Limits}

/-- The lines of a text; the last one may lack its newline. -/
def transcriptLines (text : Str) : List Str :=
  completeLines [] text ++ if lastLine [] text = [] then [] else [lastLine [] text]

/-- The bytes spell the response. -/
structure Transcript (runtime : Json.Runtime) (limits : Limits) (bytes : List UInt8) (response : Response) : Prop where
  wellFormed : response.WellFormed limits
  spelled : ∃ utf8 text, Utf8.decode Utf8.start bytes = some (utf8, text) ∧ utf8.isFinal = true ∧
    utf8Size (lastLine [] text) ≤ limits.maxLineBytes ∧
    List.Forall₂ (Line runtime limits) ((transcriptLines text).map removeReturn) response.events

/-- `finish` consumes the unfinished line like the complete ones before it. -/
theorem unfinished_line {r response : ResponseState} {line : Str} :
    (line = [] ∧ response = r ∨
      line ≠ [] ∧ ∃ event, consumeLine runtime limits r (removeReturn line) = .ok (response, event)) ↔
      ∃ events, consumeLines runtime limits r (if line = [] then [] else [line]) = .ok (response, events) := by
  by_cases empty : line = []
  · simp only [empty, true_and, not_true, ne_eq, false_and, or_false, if_true, consumeLines, Except.ok.injEq, Prod.mk.injEq]
    constructor
    · rintro rfl
      exact ⟨[], rfl, rfl⟩
    · rintro ⟨_, rfl, -⟩
      rfl
  · simp only [empty, false_and, ne_eq, not_false_iff, true_and, false_or, if_false, consumeLines_cons_ok]
    constructor
    · rintro ⟨event, consumed⟩
      exact ⟨_, response, event, [], consumed, rfl, rfl⟩
    · rintro ⟨_, _, event, _, consumed, last, rfl⟩
      cases last
      exact ⟨event, consumed⟩

/-- What the decoder accepts in one chunk is a transcript. -/
theorem exists_transcript {bytes : List UInt8} {document : ProtocolDocument} {events : List ProtocolEvent}
    (accepted : decodeChunks runtime limits [bytes] = .ok (document, events)) :
    ∃ response, Transcript runtime limits bytes response ∧ document = response.document ∧ events <+: response.events := by
  obtain ⟨d, fed, finished⟩ := decodeChunks_singleton_eq_ok.mp accepted
  obtain ⟨-, utf8, text, r, decoded, consumed, small, rfl⟩ := (feed_eq_ok Decoder.measured_initial).mp fed
  obtain ⟨final, last, lastConsumed, completed, stated, checked⟩ := finish_eq_ok.mp finished
  obtain ⟨lastEvents, lastConsumed⟩ := unfinished_line.mp lastConsumed
  have all : consumeLines runtime limits ResponseState.initial (transcriptLines text) = .ok (last, events ++ lastEvents) :=
    consumeLines_append_ok.mpr ⟨r, events, lastEvents, consumed, lastConsumed, rfl⟩
  obtain ⟨spelled, run⟩ := consumeLines_eq_ok.mp all
  obtain ⟨response, wellFormed, same, rfl⟩ := run_iff_response.mp ⟨run, completed⟩
  refine ⟨response, ⟨wellFormed, utf8, text, decoded, final, small, same ▸ spelled⟩, ?_, same ▸ List.prefix_append _ _⟩
  obtain ⟨blocks, state⟩ := document
  obtain ⟨rfl, -⟩ := checkBlocks_eq_ok.mp checked
  cases stated
  rfl

/-- The decoder accepts every transcript that comes in one chunk. -/
theorem Transcript.accepted {bytes : List UInt8} {response : Response} (transcript : Transcript runtime limits bytes response) :
    ∃ events, decodeChunks runtime limits [bytes] = .ok (response.document, events) := by
  obtain ⟨utf8, text, decoded, final, small, spelled⟩ := transcript.spelled
  have all : consumeLines runtime limits ResponseState.initial (transcriptLines text) =
      .ok (response.completed, response.events) :=
    consumeLines_eq_ok.mpr ⟨spelled, run_response transcript.wellFormed⟩
  obtain ⟨r, events, lastEvents, consumed, lastConsumed, -⟩ := consumeLines_append_ok.mp all
  refine ⟨events, decodeChunks_singleton_eq_ok.mpr ⟨Decoder.holding utf8 (lastLine [] text) r, ?_, ?_⟩⟩
  · refine (feed_eq_ok Decoder.measured_initial).mpr ⟨fun completed => ?_, utf8, text, r, decoded, consumed, small, rfl⟩
    cases completed
  · exact finish_eq_ok.mpr ⟨final, response.completed, unfinished_line.mpr ⟨lastEvents, lastConsumed⟩, rfl, rfl,
      checkBlocks_eq_ok.mpr ⟨rfl, transcript.wellFormed.content⟩⟩

/-- The bytes are accepted in one chunk. -/
theorem accepted_iff_transcript {bytes : List UInt8} :
    (∃ result, decodeChunks runtime limits [bytes] = .ok result) ↔ ∃ response, Transcript runtime limits bytes response := by
  constructor
  · rintro ⟨⟨document, events⟩, accepted⟩
    obtain ⟨response, transcript, -, -⟩ := exists_transcript accepted
    exact ⟨response, transcript⟩
  · rintro ⟨response, transcript⟩
    obtain ⟨events, accepted⟩ := transcript.accepted
    exact ⟨_, accepted⟩

/-! ## Cutting into chunks -/

/-- Cutting the bytes into chunks changes nothing, unless they are a transcript and a chunk ends
between the return and the newline of a line of exactly the permitted size. -/
theorem chunk_split_invariance (runtime : Json.Runtime) (limits : Limits) (chunks : List (List UInt8)) :
    (decodeChunks runtime limits chunks).toOption = (decodeChunks runtime limits [chunks.flatten]).toOption ↔
      ¬ (SplitsFullReturn limits Utf8.start [] chunks ∧ ∃ response, Transcript runtime limits chunks.flatten response) := by
  rw [← accepted_iff_transcript]
  constructor
  · rintro same ⟨splits, result, whole⟩
    cases cut : decodeChunks runtime limits chunks with
    | error code =>
      rw [cut, whole] at same
      cases same
    | ok cutResult => exact (decodeChunks_eq_ok.mp cut).2 splits
  · intro harmless
    cases cut : decodeChunks runtime limits chunks with
    | ok cutResult => rw [(decodeChunks_eq_ok.mp cut).1]
    | error code =>
      cases whole : decodeChunks runtime limits [chunks.flatten] with
      | error _ => rfl
      | ok result =>
        have noSplit : ¬ SplitsFullReturn limits Utf8.start [] chunks := fun splits => harmless ⟨splits, result, whole⟩
        rw [decodeChunks_eq_ok.mpr ⟨whole, noSplit⟩] at cut
        cases cut

/-- The bytes of a text of ASCII characters. -/
def ascii (text : Str) : List UInt8 := text.map fun c => c.val.toUInt8

def deepRuntime : Json.Runtime := ⟨1000, id⟩

/-- The line of a record with string members. -/
def recordLine (event : String) (members : List (String × String)) : Str :=
  Json.dumps deepRuntime (.obj ((str "v", .int 1) :: (str "event", .str (str event)) ::
    members.map fun member => (str member.1, .str (str member.2))))

/-- The second line has 61 bytes; no other has more. -/
def greetingStart : Str :=
  recordLine "response_start" [] ++ lineFeed :: recordLine "block_start" [("id", "b1"), ("type", "conversation")]

def greetingEnd : Str :=
  lineFeed :: recordLine "block_delta" [("id", "b1"), ("text", "Hi")] ++
    lineFeed :: recordLine "block_end" [("id", "b1")] ++ lineFeed :: recordLine "state" [("operation", "none")] ++
    lineFeed :: recordLine "response_end" [] ++ [lineFeed]

def shortLines : Limits := { maxLineBytes := 61 }

/-- In one piece the response is accepted although its second line ends with a return; cut after
that return it is refused. -/
theorem cut_after_return_refused :
    (decodeChunks deepRuntime shortLines
        [[ascii (greetingStart ++ [carriageReturn]), ascii greetingEnd].flatten]).isOk = true ∧
      (decodeChunks deepRuntime shortLines [ascii (greetingStart ++ [carriageReturn]), ascii greetingEnd]).isOk = false := by
  decide +kernel

/-! ## Lines of objects -/

/-- A line that is a JSON object of version 1, without duplicate keys or lone surrogates.  A
return at its end would belong to the line ending. -/
structure ObjectLine (runtime : Json.Runtime) (line : Str) (object : Members) : Prop where
  text : line.getLast? ≠ some carriageReturn
  parsed : Json.loads runtime line = .ok (.obj object)
  encodable : Json.hasSurrogate (.obj object) = false
  version : isVersionOne (Json.get? object (str "v")) = true

theorem ObjectLine.loadObject_eq {line : Str} {object : Members} (given : ObjectLine runtime line object) :
    loadObject runtime line = .ok object := by
  simp [loadObject, given.parsed, given.encodable]

theorem ObjectLine.removeReturn_eq {line : Str} {object : Members} (given : ObjectLine runtime line object) :
    removeReturn line = line := by
  simp [removeReturn, given.text]

/-- For such a line the decoder asks for the size and for the record of an event. -/
theorem ObjectLine.line_iff {line : Str} {object : Members} {event : ProtocolEvent} (given : ObjectLine runtime line object) :
    Line runtime limits (removeReturn line) event ↔
      utf8Size line ≤ limits.maxLineBytes ∧ Spells runtime limits object event := by
  rw [given.removeReturn_eq]
  constructor
  · rintro ⟨size, payload, loaded, -, spells⟩
    rw [given.loadObject_eq] at loaded
    cases loaded
    exact ⟨size, spells⟩
  · rintro ⟨size, spells⟩
    exact ⟨size, object, given.loadObject_eq, given.version, spells⟩

/-- The object of a line, when it is one. -/
def objectOf? (runtime : Json.Runtime) (line : Str) : Option Members :=
  match Json.loads runtime line with
  | .ok (.obj object) =>
    if line.getLast? ≠ some carriageReturn ∧ Json.hasSurrogate (.obj object) = false ∧
      isVersionOne (Json.get? object (str "v")) = true then some object
    else none
  | _ => none

theorem ObjectLine.of_objectOf? {line : Str} (isObject : (objectOf? runtime line).isSome = true) :
    ObjectLine runtime line ((objectOf? runtime line).getD []) := by
  obtain ⟨object, found⟩ := Option.isSome_iff_exists.mp isObject
  rw [found, Option.getD_some]
  unfold objectOf? at found
  split at found
  next parsed =>
    split at found
    next checked =>
      cases found
      exact ⟨checked.1, parsed, checked.2.1, checked.2.2⟩
    next => cases found
  next => cases found

theorem lines_iff {lines : List Str} {objects : List Members} {events : List ProtocolEvent}
    (given : List.Forall₂ (ObjectLine runtime) lines objects) :
    List.Forall₂ (Line runtime limits) (lines.map removeReturn) events ↔
      (∀ line ∈ lines, utf8Size line ≤ limits.maxLineBytes) ∧ List.Forall₂ (Spells runtime limits) objects events := by
  induction given generalizing events with
  | nil => simp [List.forall₂_nil_left_iff]
  | cons head _ inductionHypothesis =>
    cases events with
    | nil => simp
    | cons event events =>
      simp only [List.map_cons, List.forall₂_cons, head.line_iff, inductionHypothesis, List.mem_cons, forall_eq_or_imp]
      tauto

/-- Lines without a return at their end leave no return for a cut to split off. -/
theorem not_splits {chunks : List (List UInt8)} {text : Str}
    (decoded : Utf8.decode Utf8.start chunks.flatten = some (Utf8.start, text))
    (plain : ∀ line ∈ transcriptLines text, line.getLast? ≠ some carriageReturn) :
    ¬ SplitsFullReturn limits Utf8.start [] chunks := by
  rintro ⟨left, right, rfl, middle, before, final, after, content, decodedLeft, decodedRight, ended, -⟩
  simp only [List.flatten_append, Utf8.decode_append, decodedLeft, Option.bind_some, decodedRight, Option.map_some] at decoded
  cases decoded
  refine plain (content ++ [carriageReturn]) ?_ (by simp)
  rw [transcriptLines, completeLines_append, ended]
  simp [completeLines]

/-! ## Surrogates -/

/-- The texts of a document: those of its blocks and those of its state outside the brief. -/
def ProtocolDocument.texts (document : ProtocolDocument) : List Str :=
  document.blocks.map ContentBlock.text ++ document.state.texts

def Clean (text : Str) : Prop := text.any isSurrogate = false

theorem Clean.flatten {texts : List Str} (each : ∀ text ∈ texts, Clean text) : Clean texts.flatten := by
  simp only [Clean, List.any_eq_false] at each ⊢
  intro c listed
  obtain ⟨text, inTexts, inText⟩ := List.mem_flatten.mp listed
  exact each text inTexts c inText

/-- Related lists: every element on the right has a partner on the left. -/
theorem exists_left_of_mem {α β : Type} {related : α → β → Prop} {left : List α} {right : List β} {b : β}
    (each : List.Forall₂ related left right) (listed : b ∈ right) : ∃ a ∈ left, related a b := by
  induction each with
  | nil => cases listed
  | @cons a first _ _ head _ inductionHypothesis =>
    rcases List.mem_cons.mp listed with rfl | later
    · exact ⟨a, List.mem_cons_self, head⟩
    · obtain ⟨other, inLeft, found⟩ := inductionHypothesis later
      exact ⟨other, List.mem_cons_of_mem _ inLeft, found⟩

section

variable {payload : Members} {key : Str}

theorem clean_of_field {α : Type} {shape : Json → α → Prop} {value : α} {text : Str}
    (clean : Json.membersHaveSurrogate payload = false) (field : Field payload key shape value)
    (isText : ∀ json, shape json value → json = .str text) : Clean text := by
  obtain ⟨json, found, shaped⟩ := field
  have own := Json.hasSurrogate_of_get? clean found
  rw [isText json shaped] at own
  exact own

theorem clean_of_optional {shape : Json → Str → Prop} {value : Option Str}
    (clean : Json.membersHaveSurrogate payload = false) (field : OptionalField payload key shape value)
    (isText : ∀ json text, shape json text → json = .str text) : ∀ text ∈ value.toList, Clean text := by
  cases value with
  | none => simp
  | some value =>
    intro text listed
    rw [Option.toList_some, List.mem_singleton] at listed
    exact listed ▸ clean_of_field clean field fun json => isText json value

theorem clean_items {items : List Json} (clean : Json.itemsHaveSurrogate items = false) :
    ∀ item ∈ items, Json.hasSurrogate item = false := by
  induction items with
  | nil => simp
  | cons item items inductionHypothesis =>
    simp only [Json.itemsHaveSurrogate, Bool.or_eq_false_iff] at clean
    simpa using ⟨clean.1, inductionHypothesis clean.2⟩

/-- What a clean item spells is clean. -/
theorem clean_each {α : Type} {shape : Json → α → Prop} {texts : α → List Str} {items : List Json} {values : List α}
    (clean : Json.itemsHaveSurrogate items = false) (each : List.Forall₂ shape items values)
    (cleanOne : ∀ json value, Json.hasSurrogate json = false → shape json value → ∀ text ∈ texts value, Clean text) :
    ∀ text ∈ values.flatMap texts, Clean text := by
  intro text listed
  obtain ⟨value, inValues, inTexts⟩ := List.mem_flatMap.mp listed
  obtain ⟨item, inItems, shaped⟩ := exists_left_of_mem each inValues
  exact cleanOne item value (clean_items clean item inItems) shaped text inTexts

theorem clean_docxTexts {maxDocxBlocks : Nat} {blocks : Option (List DocxBlockReplacement)}
    (clean : Json.membersHaveSurrogate payload = false)
    (field : OptionalField payload key (IsDocxBlocks maxDocxBlocks) blocks) : ∀ text ∈ docxTexts blocks, Clean text := by
  cases blocks with
  | none => simp [docxTexts]
  | some blocks =>
    obtain ⟨json, found, values, rfl, -, -, each, -⟩ := field
    have listed : ∀ text ∈ blocks.flatMap fun block => [block.text], Clean text := by
      refine clean_each (Json.hasSurrogate_of_get? clean found) each ?_
      rintro _ block own ⟨members, rfl, -, -, textField⟩ text listed
      rw [List.mem_singleton.mp listed]
      exact clean_of_field own textField fun _ => id
    rw [← List.map_eq_flatMap] at listed
    exact listed

theorem clean_replacementTexts {replacements : List ExactReplacement} (clean : Json.membersHaveSurrogate payload = false)
    (field : Field payload key (IsReplacements limits) replacements) :
    ∀ text ∈ replacements.flatMap ExactReplacement.texts, Clean text := by
  obtain ⟨json, found, values, rfl, -, -, each, -⟩ := field
  refine clean_each (Json.hasSurrogate_of_get? clean found) each ?_
  intro _ replacement own shaped text listed
  cases replacement with
  | output outputAnchor outputReplacement =>
    obtain ⟨members, rfl, -, anchorField, replacementField⟩ := shaped
    simp only [ExactReplacement.texts, List.mem_cons, List.not_mem_nil, or_false] at listed
    rcases listed with rfl | rfl
    · exact clean_of_field own anchorField fun _ => And.left
    · exact clean_of_field own replacementField fun _ => id
  | sourceOutput sourceAnchor sourceReplacement outputAnchor outputReplacement =>
    obtain ⟨members, rfl, -, anchorField, replacementField, sourceField, sourceText⟩ := shaped
    simp only [ExactReplacement.texts, List.mem_cons, List.not_mem_nil, or_false] at listed
    rcases listed with rfl | rfl | rfl | rfl
    · exact clean_of_field own anchorField fun _ => And.left
    · exact clean_of_field own replacementField fun _ => id
    · exact clean_of_field own sourceField fun _ => And.left
    · exact clean_of_field own sourceText fun _ => id

/-- The texts of a state are strings of its record. -/
theorem StateRecord.clean {state : StateOperation} (record : StateRecord runtime limits payload state)
    (clean : Json.membersHaveSurrogate payload = false) : ∀ text ∈ state.texts, Clean text := by
  have fields := record.fields
  cases state with
  | none => simp [StateOperation.texts]
  | establish state =>
    obtain ⟨-, sourceField, -, blocksField⟩ := fields
    simp only [StateOperation.texts, List.forall_mem_append]
    exact ⟨clean_of_optional clean sourceField fun _ _ => And.left, clean_docxTexts clean blocksField⟩
  | append state =>
    obtain ⟨-, -, sourceField, outputField, -, -, -⟩ := fields
    simp only [StateOperation.texts, List.forall_mem_cons]
    exact ⟨clean_of_field clean sourceField fun _ => And.left,
      clean_of_optional clean outputField fun _ _ => And.left⟩
  | replace state =>
    obtain ⟨-, -, replacementsField, -, blocksField⟩ := fields
    simp only [StateOperation.texts, List.forall_mem_append]
    exact ⟨clean_replacementTexts clean replacementsField, clean_docxTexts clean blocksField⟩
  | full state =>
    obtain ⟨-, -, sourceField, -, blocksField⟩ := fields
    simp only [StateOperation.texts, List.forall_mem_append]
    exact ⟨clean_of_optional clean sourceField fun _ _ => And.left, clean_docxTexts clean blocksField⟩

end

theorem mem_events_of_delta {response : Response} {block : StreamedBlock} {delta : Str} (listed : block ∈ response.blocks)
    (inBlock : delta ∈ block.deltas) : ∃ id, .blockDelta id block.type delta ∈ response.events := by
  have found (number : Nat) (blocks : List StreamedBlock) (inBlocks : block ∈ blocks) :
      ∃ id, .blockDelta id block.type delta ∈ blocksEvents number blocks := by
    induction blocks generalizing number with
    | nil => cases inBlocks
    | cons first blocks inductionHypothesis =>
      rcases List.mem_cons.mp inBlocks with rfl | later
      · exact ⟨eventBlockId number, by simp [blocksEvents, StreamedBlock.events, inBlock]⟩
      · obtain ⟨id, found⟩ := inductionHypothesis (number + 1) later
        exact ⟨id, List.mem_append_right _ found⟩
  obtain ⟨id, found⟩ := found 1 response.blocks listed
  exact ⟨id, by simp [Response.events, found]⟩

/-- Objects without surrogates spell a response without surrogates. -/
theorem Response.clean {response : Response} {objects : List Members}
    (spelled : List.Forall₂ (Spells runtime limits) objects response.events)
    (clean : ∀ object ∈ objects, Json.hasSurrogate (.obj object) = false) : ∀ text ∈ response.document.texts, Clean text := by
  simp only [ProtocolDocument.texts, List.forall_mem_append]
  constructor
  · intro text listed
    obtain ⟨content, inBlocks, rfl⟩ := List.mem_map.mp listed
    obtain ⟨block, inResponse, rfl⟩ := List.mem_map.mp inBlocks
    refine Clean.flatten fun delta inBlock => ?_
    obtain ⟨id, inEvents⟩ := mem_events_of_delta inResponse inBlock
    obtain ⟨object, inObjects, -, -, textField⟩ := exists_left_of_mem spelled inEvents
    exact clean_of_field (clean object inObjects) textField fun _ isText => isText
  · have inEvents : .state response.state ∈ response.events := by simp [Response.events]
    obtain ⟨object, inObjects, -, record⟩ := exists_left_of_mem spelled inEvents
    exact record.clean (clean object inObjects)

/-! ## Acceptance -/

/-- Lines of objects are accepted exactly when they spell a well-formed response within the limits;
its blocks are what their deltas join to, its texts hold no surrogate, and under the default limits
its stored form is read back. -/
theorem decoder_accepts_grammar {chunks : List (List UInt8)} {text : Str} {objects : List Members}
    (decoded : Utf8.decode Utf8.start chunks.flatten = some (Utf8.start, text))
    (given : List.Forall₂ (ObjectLine runtime) (transcriptLines text) objects) :
    ((∃ result, decodeChunks runtime limits chunks = .ok result) ↔
      (∀ line ∈ transcriptLines text, utf8Size line ≤ limits.maxLineBytes) ∧
        ∃ response : Response, response.WellFormed limits ∧
          List.Forall₂ (Spells runtime limits) objects response.events) ∧
    ∀ document events, decodeChunks runtime limits chunks = .ok (document, events) →
      (∃ response : Response, response.WellFormed limits ∧
        List.Forall₂ (Spells runtime limits) objects response.events ∧
        document = response.document ∧ events <+: response.events) ∧
      (∀ text ∈ document.texts, text.any isSurrogate = false) ∧
      (limits.maxBlocks = defaultMaxBlocks → limits.maxTextChars = defaultMaxTextChars →
        validateStoredDocument document.toStorage = .ok { blocks := document.blocks, state := .none }) := by
  have noSplit : ¬ SplitsFullReturn limits Utf8.start [] chunks := by
    refine not_splits decoded fun line listed => ?_
    have reversed : List.Forall₂ (fun object line => ObjectLine runtime line object) objects (transcriptLines text) :=
      given.flip
    obtain ⟨object, -, objectLine⟩ := exists_left_of_mem reversed listed
    exact objectLine.text
  have small (sizes : ∀ line ∈ transcriptLines text, utf8Size line ≤ limits.maxLineBytes) :
      utf8Size (lastLine [] text) ≤ limits.maxLineBytes := by
    by_cases empty : lastLine [] text = []
    · rw [empty]
      exact Nat.zero_le _
    · exact sizes _ (List.mem_append_right _ (by simp [empty]))
  have spelled {response : Response} (transcript : Transcript runtime limits chunks.flatten response) :
      (∀ line ∈ transcriptLines text, utf8Size line ≤ limits.maxLineBytes) ∧
        List.Forall₂ (Spells runtime limits) objects response.events := by
    obtain ⟨_, _, same, -, -, each⟩ := transcript.spelled
    rw [decoded] at same
    cases same
    exact (lines_iff given).mp each
  refine ⟨⟨?_, ?_⟩, ?_⟩
  · rintro ⟨⟨document, events⟩, accepted⟩
    obtain ⟨response, transcript, -, -⟩ := exists_transcript (decodeChunks_eq_ok.mp accepted).1
    obtain ⟨sizes, each⟩ := spelled transcript
    exact ⟨sizes, response, transcript.wellFormed, each⟩
  · rintro ⟨sizes, response, wellFormed, each⟩
    have transcript : Transcript runtime limits chunks.flatten response :=
      ⟨wellFormed, Utf8.start, text, decoded, rfl, small sizes, (lines_iff given).mpr ⟨sizes, each⟩⟩
    obtain ⟨events, accepted⟩ := transcript.accepted
    exact ⟨_, decodeChunks_eq_ok.mpr ⟨accepted, noSplit⟩⟩
  · intro document events accepted
    obtain ⟨response, transcript, rfl, isPrefix⟩ := exists_transcript (decodeChunks_eq_ok.mp accepted).1
    obtain ⟨-, each⟩ := spelled transcript
    refine ⟨⟨response, transcript.wellFormed, each, rfl, isPrefix⟩, ?_, ?_⟩
    · refine response.clean each fun object inObjects => ?_
      obtain ⟨line, -, objectLine⟩ := exists_left_of_mem given inObjects
      exact objectLine.encodable
    · intro sameBlocks sameChars
      have content := transcript.wellFormed.content
      rw [sameBlocks, sameChars] at content
      exact validateStoredDocument_toStorage content

theorem decoder_accepts_grammar_greeting :
    ∃ response : Response, response.WellFormed shortLines ∧
      List.Forall₂ (Spells deepRuntime shortLines)
        ((transcriptLines (greetingStart ++ greetingEnd)).map fun line => (objectOf? deepRuntime line).getD [])
        response.events := by
  have decoded : Utf8.decode Utf8.start [ascii (greetingStart ++ greetingEnd)].flatten =
      some (Utf8.start, greetingStart ++ greetingEnd) := by
    decide +kernel
  have objects : ∀ line ∈ transcriptLines (greetingStart ++ greetingEnd), (objectOf? deepRuntime line).isSome = true := by
    decide +kernel
  have isOk : (decodeChunks deepRuntime shortLines [ascii (greetingStart ++ greetingEnd)]).isOk = true := by
    decide +kernel
  have given := List.forall₂_map_right_iff.mpr (List.forall₂_same.mpr fun line listed =>
    ObjectLine.of_objectOf? (objects line listed))
  have accepted := exists_of_isOk isOk
  exact ((decoder_accepts_grammar decoded given).1.mp accepted).2

end Oveo.Protocol
