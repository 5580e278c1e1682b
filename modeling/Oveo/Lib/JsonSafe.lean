import Oveo.Lib.Fallible
import Oveo.Lib.JsonScan
import Mathlib.Data.List.Lex
import Mathlib.Data.List.Sort

/-! # JSON text that reads back

A value written with sorted keys, its angle brackets escaped, reads back as the same value: the
keys of a `dict` have no order, and a float is what its literal rounds to. -/

namespace Oveo.Lib.Json

/-! ## Values a program holds -/

/-- What Python promises of the `repr` of a finite float: it is a float literal, and the `repr` of what it reads as. -/
structure Runtime.Lawful (runtime : Runtime) : Prop where
  literal : ∀ text, isFloatLiteral text = true → floatIsFinite text = true → isFloatLiteral (runtime.floatText text) = true
  stable : ∀ text, isFloatLiteral text = true → floatIsFinite text = true →
    runtime.floatText (runtime.floatText text) = runtime.floatText text

mutual

/-- Does this hold of the value and of every value in it? -/
def allValues (holds : Json → Bool) : Json → Bool
  | .arr items => holds (.arr items) && allItems holds items
  | .obj members => holds (.obj members) && allMembers holds members
  | .null => holds .null
  | .bool value => holds (.bool value)
  | .int value => holds (.int value)
  | .float literal => holds (.float literal)
  | .str text => holds (.str text)

def allItems (holds : Json → Bool) : List Json → Bool
  | [] => true
  | item :: items => allValues holds item && allItems holds items

def allMembers (holds : Json → Bool) : List (Str × Json) → Bool
  | [] => true
  | (_, value) :: members => allValues holds value && allMembers holds members

end

/-- A `dict` has each key once, and a float is finite. -/
def isPlain : Json → Bool
  | .float literal => isFloatLiteral literal && floatIsFinite literal
  | .obj members => !hasDuplicateKey members
  | .null | .bool _ | .int _ | .str _ | .arr _ => true

/-- May `int.__repr__` spell the value? -/
def isShort : Json → Bool
  | .int value => (digits value.natAbs).length ≤ maxIntDigits
  | .null | .bool _ | .float _ | .str _ | .arr _ | .obj _ => true

mutual

/-- How many containers are nested in one another. -/
def nesting : Json → Nat
  | .arr items => itemsNesting items + 1
  | .obj members => membersNesting members + 1
  | .null | .bool _ | .int _ | .float _ | .str _ => 0

def itemsNesting : List Json → Nat
  | [] => 0
  | item :: items => max (nesting item) (itemsNesting items)

def membersNesting : List (Str × Json) → Nat
  | [] => 0
  | (_, value) :: members => max (nesting value) (membersNesting members)

end

mutual

/-- The value with its floats spelled as they are written. -/
def reread (runtime : Runtime) : Json → Json
  | .float literal => .float (runtime.floatText literal)
  | .arr items => .arr (rereadItems runtime items)
  | .obj members => .obj (rereadMembers runtime members)
  | .null => .null
  | .bool value => .bool value
  | .int value => .int value
  | .str text => .str text

def rereadItems (runtime : Runtime) : List Json → List Json
  | [] => []
  | item :: items => reread runtime item :: rereadItems runtime items

def rereadMembers (runtime : Runtime) : List (Str × Json) → List (Str × Json)
  | [] => []
  | (key, value) :: members => (key, reread runtime value) :: rereadMembers runtime members

end

/-- `sort_keys=True` for one `dict`. -/
def sortMembers (members : List (Str × Json)) : List (Str × Json) :=
  members.insertionSort fun first second => first.1 ≤ second.1

mutual

/-- The value with the keys of every `dict` in order. -/
def sortKeys : Json → Json
  | .arr items => .arr (itemsSortKeys items)
  | .obj members => .obj (sortMembers (membersSortKeys members))
  | .null => .null
  | .bool value => .bool value
  | .int value => .int value
  | .float literal => .float literal
  | .str text => .str text

def itemsSortKeys : List Json → List Json
  | [] => []
  | item :: items => sortKeys item :: itemsSortKeys items

def membersSortKeys : List (Str × Json) → List (Str × Json)
  | [] => []
  | (key, value) :: members => (key, sortKeys value) :: membersSortKeys members

end

/-- Equality of two Python values: neither the order of keys nor the spelling of floats matters. -/
def SameValue (runtime : Runtime) (value other : Json) : Prop :=
  reread runtime (sortKeys value) = reread runtime (sortKeys other)

/-! ## Escaped texts -/

section

variable (runtime : Runtime)

/-- The text of a value with its angle brackets escaped. -/
def written (value : Json) : Str := escapeAngles (dumps runtime value)

def writtenItems (items : List Json) : Str := escapeAngles (dumpsItems runtime items)

def writtenMembers (members : List (Str × Json)) : Str := escapeAngles (dumpsMembers runtime members)

theorem written_str (text : Str) : written runtime (.str text) = 0x22 :: (escapeAngles (text.flatMap dumpsChar) ++ [0x22]) := by
  rw [written, dumps, escapeAngles_dumpsString]

theorem written_arr (items : List Json) : written runtime (.arr items) = 0x5B :: (writtenItems runtime items ++ [0x5D]) := by
  rw [written, dumps, List.cons_append, escapeAngles_cons, escapeAngles_append]
  rfl

theorem written_obj (members : List (Str × Json)) :
    written runtime (.obj members) = 0x7B :: (writtenMembers runtime members ++ [0x7D]) := by
  rw [written, dumps, List.cons_append, escapeAngles_cons, escapeAngles_append]
  rfl

theorem writtenItems_cons_cons (item next : Json) (items : List Json) :
    writtenItems runtime (item :: next :: items) = written runtime item ++ 0x2C :: writtenItems runtime (next :: items) := by
  rw [writtenItems, dumpsItems, escapeAngles_append, escapeAngles_cons]
  · rfl
  · simp

/-- A key with its colon. -/
def writtenKey (key : Str) : Str := 0x22 :: (escapeAngles (key.flatMap dumpsChar) ++ [0x22, 0x3A])

theorem escapeAngles_key (key text : Str) : escapeAngles (dumpsString key ++ 0x3A :: text) = writtenKey key ++ escapeAngles text := by
  rw [escapeAngles_append, escapeAngles_dumpsString, escapeAngles_cons, writtenKey]
  simp only [List.cons_append, List.append_assoc]
  rfl

theorem writtenMembers_singleton (key : Str) (value : Json) :
    writtenMembers runtime [(key, value)] = writtenKey key ++ written runtime value := by
  rw [writtenMembers, dumpsMembers, escapeAngles_key]
  rfl

theorem writtenMembers_cons_cons (key : Str) (value : Json) (next : Str × Json) (members : List (Str × Json)) :
    writtenMembers runtime ((key, value) :: next :: members) =
      writtenKey key ++ (written runtime value ++ 0x2C :: writtenMembers runtime (next :: members)) := by
  rw [writtenMembers, dumpsMembers, List.append_assoc, List.cons_append, escapeAngles_key, escapeAngles_append, escapeAngles_cons]
  · rfl
  · simp

end

/-! ## Scanning values -/

section

variable {runtime : Runtime}

/-- A written value starts like this: not with a space, as a closing bracket or as a byte order mark. -/
structure StartsValue (c : CodePoint) : Prop where
  noSpace : isJsonSpace c = false
  noBracket : c ≠ 0x5D
  noMark : c ≠ 0xFEFF

theorem startsValue_of_isNumeric {c : CodePoint} (numeric : isNumeric c = true) : StartsValue c := by
  refine ⟨?_, ?_, ?_⟩
  · by_contra space
    rw [Bool.not_eq_false] at space
    simp only [isJsonSpace, Bool.or_eq_true, beq_iff_eq] at space
    rcases space with ((rfl | rfl) | rfl) | rfl <;> cases numeric
  · rintro rfl
    cases numeric
  · rintro rfl
    cases numeric

theorem written_head (lawful : runtime.Lawful) {value : Json} (plain : allValues isPlain value = true) :
    ∃ c more, written runtime value = c :: more ∧ StartsValue c := by
  have number {text : Str} (spells : SpellsNumber text) : ∃ c more, escapeAngles text = c :: more ∧ StartsValue c := by
    obtain ⟨c, more, rfl, -⟩ := spells.head
    exact ⟨c, more, spells.escapeAngles_eq, startsValue_of_isNumeric (spells.numeric c List.mem_cons_self)⟩
  match value with
  | .null | .bool true | .bool false => exact ⟨_, _, rfl, by decide, by decide, by decide⟩
  | .int value => exact number (spellsNumber_dumpsInt value)
  | .float literal =>
    simp only [allValues, isPlain, Bool.and_eq_true] at plain
    exact number (spellsNumber_of_float (lawful.literal literal plain.1 plain.2))
  | .str text => exact ⟨_, _, written_str runtime text, by decide, by decide, by decide⟩
  | .arr items => exact ⟨_, _, written_arr runtime items, by decide, by decide, by decide⟩
  | .obj members => exact ⟨_, _, written_obj runtime members, by decide, by decide, by decide⟩

theorem skipSpace_cons {c : CodePoint} (noSpace : isJsonSpace c = false) (text : Str) : skipSpace (c :: text) = c :: text := by
  simp [skipSpace, noSpace]

theorem skipSpace_written (lawful : runtime.Lawful) {value : Json} (plain : allValues isPlain value = true) (rest : Str) :
    skipSpace (written runtime value ++ rest) = written runtime value ++ rest := by
  obtain ⟨c, more, isHead, starts⟩ := written_head lawful plain
  rw [isHead, List.cons_append, skipSpace_cons starts.noSpace]

theorem hasDuplicateKey_rereadMembers (runtime : Runtime) (members : List (Str × Json)) :
    hasDuplicateKey (rereadMembers runtime members) = hasDuplicateKey members := by
  have sameKeys (key : Str) (members : List (Str × Json)) :
      (rereadMembers runtime members).any (fun member => member.1 == key) = members.any fun member => member.1 == key := by
    induction members with
    | nil => rfl
    | cons member members inductionHypothesis => simp [rereadMembers, inductionHypothesis]
  induction members with
  | nil => rfl
  | cons member members inductionHypothesis =>
    rw [rereadMembers, hasDuplicateKey, hasDuplicateKey, sameKeys, inductionHypothesis]

section

variable {fuel depth : Nat} {rest : Str}

theorem scanValue_quote : scanValue (fuel + 1) depth (0x22 :: rest) =
    (scanString (rest.length + 1) rest).map fun scanned => (.str scanned.1, scanned.2) := by
  rw [scanValue.eq_def]
  simp only [beq_self_eq_true, if_true]
  cases scanString (rest.length + 1) rest <;> rfl

theorem scanValue_bracket {first : CodePoint} {after : Str} (skipped : skipSpace rest = first :: after) (nonempty : first ≠ 0x5D) :
    scanValue (fuel + 1) (depth + 1) (0x5B :: rest) =
      (scanItems fuel depth (first :: after)).map fun scanned => (.arr scanned.1, scanned.2) := by
  rw [scanValue.eq_def]
  simp only [skipped, beq_eq_false_iff_ne.mpr nonempty, Bool.false_eq_true, if_false]
  cases scanItems fuel depth (first :: after) <;> rfl

theorem scanValue_brace {first : CodePoint} {after : Str} {members : List (Str × Json)} {more : Str}
    (skipped : skipSpace rest = first :: after) (nonempty : first ≠ 0x7D)
    (scanned : scanMembers fuel depth (first :: after) = .ok (members, more)) (unique : hasDuplicateKey members = false) :
    scanValue (fuel + 1) (depth + 1) (0x7B :: rest) = .ok (.obj members, more) := by
  rw [scanValue.eq_def]
  simp only [show ((0x7B : CodePoint) == 0x22) = false from by decide, beq_self_eq_true, if_true, skipped,
    beq_eq_false_iff_ne.mpr nonempty, Bool.false_eq_true, if_false, scanned, ok_bind_eq, unique]
  rfl

theorem scanValue_number {text : Str} (spells : SpellsNumber text) :
    scanValue (fuel + 1) depth (text ++ rest) = scanNumber (text ++ rest) := by
  rw [← spells.scanAtom_eq rest]
  obtain ⟨c, more, rfl, -⟩ := spells.head
  have numeric := spells.numeric c List.mem_cons_self
  have other {letter : CodePoint} (isOther : isNumeric letter = false) : (c == letter) = false := by
    rw [beq_eq_false_iff_ne]
    rintro rfl
    rw [isOther] at numeric
    cases numeric
  rw [List.cons_append, scanValue.eq_def]
  simp only [other (show isNumeric 0x22 = false from by decide), other (show isNumeric 0x7B = false from by decide),
    other (show isNumeric 0x5B = false from by decide), Bool.false_eq_true, if_false]

theorem scanItems_last {text : Str} {item : Json} (scanned : scanValue fuel depth text = .ok (item, 0x5D :: rest)) :
    scanItems (fuel + 1) depth text = .ok ([item], rest) := by
  rw [scanItems, scanned]
  rfl

theorem scanItems_next {text more : Str} {item : Json} {items : List Json}
    (scanned : scanValue fuel depth text = .ok (item, 0x2C :: more))
    (others : scanItems fuel depth (skipSpace more) = .ok (items, rest)) :
    scanItems (fuel + 1) depth text = .ok (item :: items, rest) := by
  rw [scanItems, scanned]
  simp only [ok_bind_eq, skipSpace_cons (show isJsonSpace 0x2C = false from by decide), others]
  rfl

theorem scanMembers_last {text more : Str} {key : Str} {value : Json}
    (scannedKey : scanString (text.length + 1) text = .ok (key, 0x3A :: more))
    (scanned : scanValue fuel depth (skipSpace more) = .ok (value, 0x7D :: rest)) :
    scanMembers (fuel + 1) depth (0x22 :: text) = .ok ([(key, value)], rest) := by
  rw [scanMembers, scannedKey]
  simp only [ok_bind_eq, skipSpace_cons (show isJsonSpace 0x3A = false from by decide), scanned,
    skipSpace_cons (show isJsonSpace 0x7D = false from by decide)]
  rfl

theorem scanMembers_next {text more after : Str} {key : Str} {value : Json} {members : List (Str × Json)}
    (scannedKey : scanString (text.length + 1) text = .ok (key, 0x3A :: more))
    (scanned : scanValue fuel depth (skipSpace more) = .ok (value, 0x2C :: after))
    (others : scanMembers fuel depth (skipSpace after) = .ok (members, rest)) :
    scanMembers (fuel + 1) depth (0x22 :: text) = .ok ((key, value) :: members, rest) := by
  rw [scanMembers, scannedKey]
  simp only [ok_bind_eq, skipSpace_cons (show isJsonSpace 0x3A = false from by decide), scanned,
    skipSpace_cons (show isJsonSpace 0x2C = false from by decide), others]
  rfl

end

theorem writtenItems_head (lawful : runtime.Lawful) {item : Json} (items : List Json) (plain : allValues isPlain item = true) :
    ∃ c more, writtenItems runtime (item :: items) = c :: more ∧ StartsValue c := by
  obtain ⟨c, more, isHead, starts⟩ := written_head lawful plain
  match items with
  | [] => exact ⟨c, more, isHead, starts⟩
  | next :: items =>
    rw [writtenItems_cons_cons, isHead]
    exact ⟨c, _, rfl, starts⟩

theorem writtenMembers_head (runtime : Runtime) (member : Str × Json) (members : List (Str × Json)) :
    ∃ more, writtenMembers runtime (member :: members) = 0x22 :: more := by
  match member, members with
  | (key, value), [] =>
    rw [writtenMembers_singleton]
    exact ⟨_, rfl⟩
  | (key, value), next :: members =>
    rw [writtenMembers_cons_cons]
    exact ⟨_, rfl⟩

/-- The key of a member, and what follows its colon. -/
theorem scanString_writtenKey (key text : Str) :
    ∃ more, writtenKey key ++ text = 0x22 :: more ∧ scanString (more.length + 1) more = .ok (key, 0x3A :: text) := by
  refine ⟨escapeAngles (key.flatMap dumpsChar) ++ 0x22 :: 0x3A :: text, ?_, scanString_dumps key _⟩
  simp [writtenKey]

mutual

/-- A written value is read back. -/
theorem scanValue_written (lawful : runtime.Lawful) (fuel depth : Nat) (rest : Str) :
    (value : Json) → allValues isPlain value = true → allValues isShort value = true → nesting value ≤ depth →
      2 * (written runtime value).length < fuel → Ends rest →
      scanValue fuel depth (written runtime value ++ rest) = .ok (reread runtime value, rest)
  | .null, _, _, _, enough, _ => by
    obtain ⟨fuel, rfl⟩ := Nat.exists_eq_succ_of_ne_zero (Nat.ne_zero_of_lt enough)
    rfl
  | .bool true, _, _, _, enough, _ => by
    obtain ⟨fuel, rfl⟩ := Nat.exists_eq_succ_of_ne_zero (Nat.ne_zero_of_lt enough)
    rfl
  | .bool false, _, _, _, enough, _ => by
    obtain ⟨fuel, rfl⟩ := Nat.exists_eq_succ_of_ne_zero (Nat.ne_zero_of_lt enough)
    rfl
  | .int value, _, short, _, enough, ends => by
    obtain ⟨fuel, rfl⟩ := Nat.exists_eq_succ_of_ne_zero (Nat.ne_zero_of_lt enough)
    have spells := spellsNumber_dumpsInt value
    rw [written, dumps, spells.escapeAngles_eq, scanValue_number spells]
    exact scanNumber_dumpsInt (of_decide_eq_true short) ends
  | .float literal, plain, _, _, enough, ends => by
    obtain ⟨fuel, rfl⟩ := Nat.exists_eq_succ_of_ne_zero (Nat.ne_zero_of_lt enough)
    simp only [allValues, isPlain, Bool.and_eq_true] at plain
    have isLiteral := lawful.literal literal plain.1 plain.2
    have spells := spellsNumber_of_float isLiteral
    rw [written, dumps, spells.escapeAngles_eq, scanValue_number spells]
    exact scanNumber_float isLiteral ends
  | .str text, _, _, _, enough, _ => by
    obtain ⟨fuel, rfl⟩ := Nat.exists_eq_succ_of_ne_zero (Nat.ne_zero_of_lt enough)
    rw [written_str, List.cons_append, List.append_assoc, scanValue_quote, List.singleton_append, scanString_dumps]
    rfl
  | .arr items, plain, short, shallow, enough, _ => by
    obtain ⟨fuel, rfl⟩ := Nat.exists_eq_succ_of_ne_zero (Nat.ne_zero_of_lt enough)
    obtain ⟨depth, rfl⟩ := Nat.exists_eq_succ_of_ne_zero (Nat.ne_zero_of_lt shallow)
    match items with
    | [] => rfl
    | item :: items =>
      simp only [allValues, Bool.and_eq_true] at plain short
      obtain ⟨c, more, isHead, starts⟩ :=
        writtenItems_head lawful items (by simpa [allItems] using (Bool.and_eq_true_iff.mp plain.2).1)
      rw [written_arr, List.length_cons, List.length_append] at enough
      have scanned := scanItems_written lawful fuel depth rest (item :: items) (by simp) plain.2 short.2
        (Nat.le_of_succ_le_succ shallow) (by omega)
      have text : writtenItems runtime (item :: items) ++ 0x5D :: rest = c :: (more ++ 0x5D :: rest) := by rw [isHead]; rfl
      rw [text] at scanned
      rw [written_arr, List.cons_append, List.append_assoc, List.singleton_append, text,
        scanValue_bracket (skipSpace_cons starts.noSpace _) starts.noBracket, scanned]
      rfl
  | .obj members, plain, short, shallow, enough, _ => by
    obtain ⟨fuel, rfl⟩ := Nat.exists_eq_succ_of_ne_zero (Nat.ne_zero_of_lt enough)
    obtain ⟨depth, rfl⟩ := Nat.exists_eq_succ_of_ne_zero (Nat.ne_zero_of_lt shallow)
    match members with
    | [] => rfl
    | member :: members =>
      simp only [allValues, isPlain, Bool.and_eq_true, Bool.not_eq_true'] at plain short
      obtain ⟨more, isHead⟩ := writtenMembers_head runtime member members
      rw [written_obj, List.length_cons, List.length_append] at enough
      have scanned := scanMembers_written lawful fuel depth rest (member :: members) (by simp) plain.2 short.2
        (Nat.le_of_succ_le_succ shallow) (by omega)
      have text : writtenMembers runtime (member :: members) ++ 0x7D :: rest = 0x22 :: (more ++ 0x7D :: rest) := by rw [isHead]; rfl
      rw [text] at scanned
      rw [written_obj, List.cons_append, List.append_assoc, List.singleton_append, text]
      exact scanValue_brace (skipSpace_cons (by decide) _) (by decide) scanned
        ((hasDuplicateKey_rereadMembers runtime _).trans plain.1)

theorem scanItems_written (lawful : runtime.Lawful) (fuel depth : Nat) (rest : Str) :
    (items : List Json) → items ≠ [] → allItems isPlain items = true → allItems isShort items = true →
      itemsNesting items ≤ depth → 2 * (writtenItems runtime items).length + 1 < fuel →
      scanItems fuel depth (writtenItems runtime items ++ 0x5D :: rest) = .ok (rereadItems runtime items, rest)
  | [], nonempty, _, _, _, _ => absurd rfl nonempty
  | [item], _, plain, short, shallow, enough => by
    obtain ⟨fuel, rfl⟩ := Nat.exists_eq_succ_of_ne_zero (Nat.ne_zero_of_lt enough)
    simp only [allItems, itemsNesting, Bool.and_true] at plain short shallow
    have size : (writtenItems runtime [item]).length = (written runtime item).length := rfl
    exact scanItems_last (scanValue_written lawful fuel depth _ item plain short (by omega) (by omega) (.inr (.inl rfl)))
  | item :: next :: items, _, plain, short, shallow, enough => by
    obtain ⟨fuel, rfl⟩ := Nat.exists_eq_succ_of_ne_zero (Nat.ne_zero_of_lt enough)
    rw [allItems, Bool.and_eq_true] at plain short
    rw [itemsNesting] at shallow
    rw [writtenItems_cons_cons, List.length_append, List.length_cons] at enough
    have others := scanItems_written lawful fuel depth rest (next :: items) (by simp) plain.2 short.2 (by omega) (by omega)
    have scanned := scanValue_written lawful fuel depth (0x2C :: (writtenItems runtime (next :: items) ++ 0x5D :: rest)) item
      plain.1 short.1 (by omega) (by omega) (.inl rfl)
    rw [writtenItems_cons_cons, List.append_assoc, List.cons_append]
    refine scanItems_next scanned ?_
    obtain ⟨c, more, isHead, starts⟩ := writtenItems_head lawful items (Bool.and_eq_true_iff.mp plain.2).1
    rw [isHead, List.cons_append, skipSpace_cons starts.noSpace, ← List.cons_append, ← isHead]
    exact others

theorem scanMembers_written (lawful : runtime.Lawful) (fuel depth : Nat) (rest : Str) :
    (members : List (Str × Json)) → members ≠ [] → allMembers isPlain members = true → allMembers isShort members = true →
      membersNesting members ≤ depth → 2 * (writtenMembers runtime members).length + 1 < fuel →
      scanMembers fuel depth (writtenMembers runtime members ++ 0x7D :: rest) = .ok (rereadMembers runtime members, rest)
  | [], nonempty, _, _, _, _ => absurd rfl nonempty
  | [(key, value)], _, plain, short, shallow, enough => by
    obtain ⟨fuel, rfl⟩ := Nat.exists_eq_succ_of_ne_zero (Nat.ne_zero_of_lt enough)
    simp only [allMembers, membersNesting, Bool.and_true] at plain short shallow
    rw [writtenMembers_singleton, List.length_append] at enough
    rw [writtenMembers_singleton, List.append_assoc]
    obtain ⟨more, isKey, scannedKey⟩ := scanString_writtenKey key (written runtime value ++ 0x7D :: rest)
    rw [isKey]
    refine scanMembers_last scannedKey ?_
    rw [skipSpace_written lawful plain]
    exact scanValue_written lawful fuel depth _ value plain short (by omega) (by omega) (.inr (.inr rfl))
  | (key, value) :: next :: members, _, plain, short, shallow, enough => by
    obtain ⟨fuel, rfl⟩ := Nat.exists_eq_succ_of_ne_zero (Nat.ne_zero_of_lt enough)
    rw [allMembers, Bool.and_eq_true] at plain short
    rw [membersNesting] at shallow
    rw [writtenMembers_cons_cons, List.length_append, List.length_append, List.length_cons] at enough
    have others := scanMembers_written lawful fuel depth rest (next :: members) (by simp) plain.2 short.2 (by omega) (by omega)
    rw [writtenMembers_cons_cons, List.append_assoc, List.append_assoc, List.cons_append]
    obtain ⟨more, isKey, scannedKey⟩ := scanString_writtenKey key
      (written runtime value ++ 0x2C :: (writtenMembers runtime (next :: members) ++ 0x7D :: rest))
    obtain ⟨tail, isHead⟩ := writtenMembers_head runtime next members
    rw [isKey]
    refine scanMembers_next scannedKey ?_ (?_ : scanMembers fuel depth (skipSpace (writtenMembers runtime (next :: members) ++
      0x7D :: rest)) = _)
    · rw [skipSpace_written lawful plain.1]
      exact scanValue_written lawful fuel depth _ value plain.1 short.1 (by omega) (by omega) (.inl rfl)
    · rw [isHead, List.cons_append, skipSpace_cons (by decide), ← List.cons_append, ← isHead]
      exact others

end

/-- An escaped text is read back. -/
theorem loads_written (lawful : runtime.Lawful) {value : Json} (plain : allValues isPlain value = true)
    (short : allValues isShort value = true) (shallow : nesting value ≤ runtime.maxDepth) :
    loads runtime (written runtime value) = .ok (reread runtime value) := by
  obtain ⟨c, more, isHead, starts⟩ := written_head lawful plain
  have scanned := scanValue_written lawful (2 * (written runtime value).length + 2) runtime.maxDepth [] value plain short shallow
    (by omega) trivial
  have skipped := skipSpace_written lawful plain []
  rw [List.append_nil] at scanned skipped
  rw [loads, skipped, scanned, if_neg]
  · rfl
  · rw [isHead, List.head?_cons, Option.some.injEq]
    exact starts.noMark

end

/-! ## Sorted keys -/

mutual

/-- Induction over a value and the values in it. -/
@[elab_as_elim]
theorem induct {motive : Json → Prop} (null : motive .null) (bool : ∀ value, motive (.bool value))
    (int : ∀ value, motive (.int value)) (float : ∀ literal, motive (.float literal)) (str : ∀ text, motive (.str text))
    (arr : ∀ items, (∀ item ∈ items, motive item) → motive (.arr items))
    (obj : ∀ members, (∀ member ∈ members, motive member.2) → motive (.obj members)) : (value : Json) → motive value
  | .null => null
  | .bool value => bool value
  | .int value => int value
  | .float literal => float literal
  | .str text => str text
  | .arr items => arr items (inductItems null bool int float str arr obj items)
  | .obj members => obj members (inductMembers null bool int float str arr obj members)

theorem inductItems {motive : Json → Prop} (null : motive .null) (bool : ∀ value, motive (.bool value))
    (int : ∀ value, motive (.int value)) (float : ∀ literal, motive (.float literal)) (str : ∀ text, motive (.str text))
    (arr : ∀ items, (∀ item ∈ items, motive item) → motive (.arr items))
    (obj : ∀ members, (∀ member ∈ members, motive member.2) → motive (.obj members)) :
    (items : List Json) → ∀ item ∈ items, motive item
  | [] => fun _ listed => nomatch listed
  | item :: items =>
    List.forall_mem_cons.mpr ⟨induct null bool int float str arr obj item, inductItems null bool int float str arr obj items⟩

theorem inductMembers {motive : Json → Prop} (null : motive .null) (bool : ∀ value, motive (.bool value))
    (int : ∀ value, motive (.int value)) (float : ∀ literal, motive (.float literal)) (str : ∀ text, motive (.str text))
    (arr : ∀ items, (∀ item ∈ items, motive item) → motive (.arr items))
    (obj : ∀ members, (∀ member ∈ members, motive member.2) → motive (.obj members)) :
    (members : List (Str × Json)) → ∀ member ∈ members, motive member.2
  | [] => fun _ listed => nomatch listed
  | (_, value) :: members =>
    List.forall_mem_cons.mpr ⟨induct null bool int float str arr obj value, inductMembers null bool int float str arr obj members⟩

end

theorem hasDuplicateKey_eq_false_iff {members : List (Str × Json)} :
    hasDuplicateKey members = false ↔ (members.map Prod.fst).Nodup := by
  induction members with
  | nil => simp [hasDuplicateKey]
  | cons member members inductionHypothesis =>
    rw [hasDuplicateKey, Bool.or_eq_false_iff, inductionHypothesis, List.map_cons, List.nodup_cons]
    refine and_congr_left fun _ => ?_
    rw [List.any_eq_false, List.mem_map, not_exists]
    exact forall_congr' fun other => by simp

theorem allItems_iff {holds : Json → Bool} {items : List Json} :
    allItems holds items = true ↔ ∀ item ∈ items, allValues holds item = true := by
  induction items with
  | nil => simp [allItems]
  | cons item items inductionHypothesis => rw [allItems, Bool.and_eq_true, inductionHypothesis, List.forall_mem_cons]

theorem allMembers_iff {holds : Json → Bool} {members : List (Str × Json)} :
    allMembers holds members = true ↔ ∀ member ∈ members, allValues holds member.2 = true := by
  induction members with
  | nil => simp [allMembers]
  | cons member members inductionHypothesis => rw [allMembers, Bool.and_eq_true, inductionHypothesis, List.forall_mem_cons]

theorem itemsNesting_le_iff {items : List Json} {depth : Nat} : itemsNesting items ≤ depth ↔ ∀ item ∈ items, nesting item ≤ depth := by
  induction items with
  | nil => simp [itemsNesting]
  | cons item items inductionHypothesis => rw [itemsNesting, Nat.max_le, inductionHypothesis, List.forall_mem_cons]

theorem membersNesting_le_iff {members : List (Str × Json)} {depth : Nat} :
    membersNesting members ≤ depth ↔ ∀ member ∈ members, nesting member.2 ≤ depth := by
  induction members with
  | nil => simp [membersNesting]
  | cons member members inductionHypothesis =>
    rw [membersNesting, Nat.max_le, inductionHypothesis, List.forall_mem_cons]

theorem rereadItems_eq_map (runtime : Runtime) (items : List Json) : rereadItems runtime items = items.map (reread runtime) := by
  induction items with
  | nil => rfl
  | cons item items inductionHypothesis => rw [rereadItems, inductionHypothesis, List.map_cons]

theorem itemsSortKeys_eq_map (items : List Json) : itemsSortKeys items = items.map sortKeys := by
  induction items with
  | nil => rfl
  | cons item items inductionHypothesis => rw [itemsSortKeys, inductionHypothesis, List.map_cons]

/-- A member with its value changed. -/
def onValue (change : Json → Json) (member : Str × Json) : Str × Json := (member.1, change member.2)

theorem rereadMembers_eq_map (runtime : Runtime) (members : List (Str × Json)) :
    rereadMembers runtime members = members.map (onValue (reread runtime)) := by
  induction members with
  | nil => rfl
  | cons member members inductionHypothesis => rw [rereadMembers, inductionHypothesis, List.map_cons, onValue]

theorem membersSortKeys_eq_map (members : List (Str × Json)) : membersSortKeys members = members.map (onValue sortKeys) := by
  induction members with
  | nil => rfl
  | cons member members inductionHypothesis => rw [membersSortKeys, inductionHypothesis, List.map_cons, onValue]

theorem perm_sortMembers (members : List (Str × Json)) : (sortMembers members).Perm members := List.perm_insertionSort _ members

/-- Sorting looks at the keys only. -/
theorem sortMembers_map (change : Json → Json) (members : List (Str × Json)) :
    sortMembers (members.map (onValue change)) = (sortMembers members).map (onValue change) := by
  unfold sortMembers
  exact (List.map_insertionSort (fun first second : Str × Json => first.1 ≤ second.1)
    (fun first second : Str × Json => first.1 ≤ second.1) (onValue change) members fun _ _ _ _ => Iff.rfl).symm

instance : IsTrans (Str × Json) fun first second => first.1 ≤ second.1 := ⟨fun _ _ _ => le_trans⟩

instance : Std.Total fun first second : Str × Json => first.1 ≤ second.1 := ⟨fun _ _ => le_total _ _⟩

theorem sortMembers_sortMembers (members : List (Str × Json)) : sortMembers (sortMembers members) = sortMembers members :=
  (List.pairwise_insertionSort (fun first second : Str × Json => first.1 ≤ second.1) members).insertionSort_eq

/-- Sorting keeps what does not depend on an order. -/
theorem allValues_sortKeys {holds : Json → Bool} (arr : ∀ items others, holds (.arr items) = holds (.arr others))
    (obj : ∀ members, holds (.obj members) = true → holds (.obj (sortMembers (membersSortKeys members))) = true) {value : Json}
    (all : allValues holds value = true) : allValues holds (sortKeys value) = true := by
  induction value using induct with
  | null | bool _ | int _ | float _ | str _ => exact all
  | arr items inductionHypothesis =>
    rw [allValues, Bool.and_eq_true, allItems_iff] at all
    rw [sortKeys, allValues, Bool.and_eq_true, allItems_iff, itemsSortKeys_eq_map, List.forall_mem_map]
    exact ⟨(arr _ items).trans all.1, fun item listed => inductionHypothesis item listed (all.2 item listed)⟩
  | obj members inductionHypothesis =>
    rw [allValues, Bool.and_eq_true, allMembers_iff] at all
    rw [sortKeys, allValues, Bool.and_eq_true, allMembers_iff]
    refine ⟨obj members all.1, fun member listed => ?_⟩
    rw [(perm_sortMembers _).mem_iff, membersSortKeys_eq_map] at listed
    obtain ⟨before, inMembers, rfl⟩ := List.mem_map.mp listed
    exact inductionHypothesis before inMembers (all.2 before inMembers)

theorem isPlain_sortKeys {value : Json} (plain : allValues isPlain value = true) : allValues isPlain (sortKeys value) = true := by
  refine allValues_sortKeys (fun _ _ => rfl) (fun members unique => ?_) plain
  rw [isPlain, Bool.not_eq_true', hasDuplicateKey_eq_false_iff] at unique ⊢
  rw [((perm_sortMembers _).map Prod.fst).nodup_iff, membersSortKeys_eq_map, List.map_map]
  exact unique

theorem isShort_sortKeys {value : Json} (short : allValues isShort value = true) : allValues isShort (sortKeys value) = true :=
  allValues_sortKeys (fun _ _ => rfl) (fun _ _ => rfl) short

theorem nesting_sortKeys (value : Json) : nesting (sortKeys value) ≤ nesting value := by
  induction value using induct with
  | null | bool _ | int _ | float _ | str _ => exact Nat.le_refl _
  | arr items inductionHypothesis =>
    rw [sortKeys, nesting, nesting, Nat.succ_le_succ_iff, itemsNesting_le_iff, itemsSortKeys_eq_map, List.forall_mem_map]
    exact fun item listed => (inductionHypothesis item listed).trans (itemsNesting_le_iff.mp (Nat.le_refl _) item listed)
  | obj members inductionHypothesis =>
    rw [sortKeys, nesting, nesting, Nat.succ_le_succ_iff, membersNesting_le_iff]
    intro member listed
    rw [(perm_sortMembers _).mem_iff, membersSortKeys_eq_map] at listed
    obtain ⟨before, inMembers, rfl⟩ := List.mem_map.mp listed
    exact (inductionHypothesis before inMembers).trans (membersNesting_le_iff.mp (Nat.le_refl _) before inMembers)

/-! ## The same value -/

theorem map_onValue_congr {change other : Json → Json} {members : List (Str × Json)}
    (same : ∀ member ∈ members, change member.2 = other member.2) : members.map (onValue change) = members.map (onValue other) :=
  List.map_congr_left fun member listed => congrArg (Prod.mk member.1) (same member listed)

theorem map_onValue_map (change other : Json → Json) (members : List (Str × Json)) :
    (members.map (onValue change)).map (onValue other) = members.map (onValue (other ∘ change)) := List.map_map

theorem sortKeys_reread (runtime : Runtime) (value : Json) : sortKeys (reread runtime value) = reread runtime (sortKeys value) := by
  induction value using induct with
  | null | bool _ | int _ | float _ | str _ => rfl
  | arr items inductionHypothesis =>
    rw [reread, sortKeys, sortKeys, reread, rereadItems_eq_map, itemsSortKeys_eq_map, itemsSortKeys_eq_map, rereadItems_eq_map,
      List.map_map, List.map_map]
    exact congrArg Json.arr (List.map_congr_left inductionHypothesis)
  | obj members inductionHypothesis =>
    rw [reread, sortKeys, sortKeys, reread, rereadMembers_eq_map, membersSortKeys_eq_map, membersSortKeys_eq_map,
      rereadMembers_eq_map, ← sortMembers_map, map_onValue_map, map_onValue_map]
    exact congrArg (Json.obj ∘ sortMembers) (map_onValue_congr inductionHypothesis)

theorem sortKeys_sortKeys (value : Json) : sortKeys (sortKeys value) = sortKeys value := by
  induction value using induct with
  | null | bool _ | int _ | float _ | str _ => rfl
  | arr items inductionHypothesis =>
    rw [sortKeys, sortKeys, itemsSortKeys_eq_map, itemsSortKeys_eq_map, List.map_map]
    exact congrArg Json.arr (List.map_congr_left inductionHypothesis)
  | obj members inductionHypothesis =>
    rw [sortKeys, sortKeys, membersSortKeys_eq_map, membersSortKeys_eq_map, sortMembers_map, sortMembers_sortMembers,
      ← sortMembers_map, map_onValue_map]
    exact congrArg (Json.obj ∘ sortMembers) (map_onValue_congr inductionHypothesis)

theorem reread_reread {runtime : Runtime} (lawful : runtime.Lawful) {value : Json} (plain : allValues isPlain value = true) :
    reread runtime (reread runtime value) = reread runtime value := by
  induction value using induct with
  | null | bool _ | int _ | str _ => rfl
  | float literal =>
    simp only [allValues, isPlain, Bool.and_eq_true] at plain
    exact congrArg Json.float (lawful.stable literal plain.1 plain.2)
  | arr items inductionHypothesis =>
    rw [allValues, Bool.and_eq_true, allItems_iff] at plain
    rw [reread, reread, rereadItems_eq_map, rereadItems_eq_map, List.map_map]
    exact congrArg Json.arr (List.map_congr_left fun item listed => inductionHypothesis item listed (plain.2 item listed))
  | obj members inductionHypothesis =>
    rw [allValues, Bool.and_eq_true, allMembers_iff] at plain
    rw [reread, reread, rereadMembers_eq_map, rereadMembers_eq_map, map_onValue_map]
    exact congrArg Json.obj (map_onValue_congr fun member listed => inductionHypothesis member listed (plain.2 member listed))

/-- A value written with sorted keys and escaped angle brackets reads back as the same value. -/
theorem loads_written_sortKeys {runtime : Runtime} (lawful : runtime.Lawful) {value : Json} (plain : allValues isPlain value = true)
    (short : allValues isShort value = true) (shallow : nesting value ≤ runtime.maxDepth) :
    ∃ decoded, loads runtime (written runtime (sortKeys value)) = .ok decoded ∧ SameValue runtime decoded value := by
  refine ⟨_, loads_written lawful (isPlain_sortKeys plain) (isShort_sortKeys short) ((nesting_sortKeys value).trans shallow), ?_⟩
  rw [SameValue, sortKeys_reread, sortKeys_sortKeys, reread_reread lawful (isPlain_sortKeys plain)]

end Oveo.Lib.Json
