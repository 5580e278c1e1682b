import Oveo.Lib.JsonText

/-! # Scanning what was written

The strings and numbers of a JSON text whose angle brackets are escaped.  A text is written inside
out and scanned outside in, so every lemma about a scanner carries what follows the scanned text. -/

namespace Oveo.Lib.Json

/-! ## Escaping -/

/-- `text.replace(c, replacement)` for one character. -/
def replaceChar (c : CodePoint) (replacement text : Str) : Str :=
  text.flatMap fun other => if other = c then replacement else [other]

/-- `<` and `>` as escapes. -/
def escapeAngles (text : Str) : Str :=
  replaceChar 0x3E (Lib.str "\\u003e") (replaceChar 0x3C (Lib.str "\\u003c") text)

/-- One character of an escaped text. -/
def escapeAngle (c : CodePoint) : Str :=
  if c = 0x3C then Lib.str "\\u003c" else if c = 0x3E then Lib.str "\\u003e" else [c]

theorem escapeAngles_eq_flatMap (text : Str) : escapeAngles text = text.flatMap escapeAngle := by
  unfold escapeAngles replaceChar
  rw [List.flatMap_assoc]
  refine List.flatMap_congr fun c _ => ?_
  by_cases less : c = 0x3C
  · rw [less]
    decide
  · by_cases greater : c = 0x3E
    · rw [greater]
      decide
    · simp [escapeAngle, less, greater]

@[simp] theorem escapeAngles_nil : escapeAngles [] = [] := rfl

@[simp] theorem escapeAngles_append (left right : Str) : escapeAngles (left ++ right) = escapeAngles left ++ escapeAngles right := by
  simp [escapeAngles_eq_flatMap]

theorem escapeAngles_cons (c : CodePoint) (text : Str) : escapeAngles (c :: text) = escapeAngle c ++ escapeAngles text := by
  simp [escapeAngles_eq_flatMap]

/-- The text between angle brackets stays as it is. -/
theorem escapeAngles_eq_self {text : Str} (plain : ∀ c ∈ text, c ≠ 0x3C ∧ c ≠ 0x3E) : escapeAngles text = text := by
  induction text with
  | nil => rfl
  | cons c text inductionHypothesis =>
    obtain ⟨⟨less, greater⟩, plain⟩ := List.forall_mem_cons.mp plain
    rw [escapeAngles_cons, inductionHypothesis plain, escapeAngle, if_neg less, if_neg greater]
    rfl

theorem angles_not_mem_escapeAngles (text : Str) : 0x3C ∉ escapeAngles text ∧ 0x3E ∉ escapeAngles text := by
  rw [escapeAngles_eq_flatMap]
  have one (c : CodePoint) : 0x3C ∉ escapeAngle c ∧ 0x3E ∉ escapeAngle c := by
    unfold escapeAngle
    split
    next => decide
    next less =>
      split
      next => decide
      next greater => exact ⟨by simpa using Ne.symm less, by simpa using Ne.symm greater⟩
  constructor
  · intro listed
    obtain ⟨c, -, inside⟩ := List.mem_flatMap.mp listed
    exact (one c).1 inside
  · intro listed
    obtain ⟨c, -, inside⟩ := List.mem_flatMap.mp listed
    exact (one c).2 inside

/-- What an escaped text is built from is not shorter. -/
theorem length_le_length_escapeAngles (text : Str) : text.length ≤ (escapeAngles text).length := by
  induction text with
  | nil => exact Nat.le_refl 0
  | cons c text inductionHypothesis =>
    have positive : 1 ≤ (escapeAngle c).length := by
      unfold escapeAngle
      split
      next => decide
      next => split <;> simp [Lib.str]
    rw [escapeAngles_cons, List.length_append, List.length_cons]
    omega

/-! ## Strings -/

theorem hexDigit?_toDigits : ∀ digit : Fin 16, ((Nat.toDigits 16 digit).map codePoint).map hexDigit? = [some digit.val] := by
  decide

/-- One hexadecimal digit. -/
theorem toDigits_hex {value : Nat} (small : value < 16) :
    ∃ low, (Nat.toDigits 16 value).map codePoint = [low] ∧ hexDigit? low = some value := by
  have digit := hexDigit?_toDigits ⟨value, small⟩
  cases text : (Nat.toDigits 16 value).map codePoint with
  | nil => simp [text] at digit
  | cons low more =>
    simp only [text, List.map_cons, List.cons.injEq, List.map_eq_nil_iff] at digit
    exact ⟨low, by rw [digit.2], digit.1⟩

theorem ne_angle_of_hexDigit? {c : CodePoint} {value : Nat} (isDigit : hexDigit? c = some value) : c ≠ 0x3C ∧ c ≠ 0x3E := by
  constructor
  · rintro rfl
    cases isDigit
  · rintro rfl
    cases isDigit

theorem unicodeEscape?_of_hex4? {text rest : Str} {value : Nat} (isHex : hex4? text = some (value, rest))
    (alone : isHighSurrogate value = false) : unicodeEscape? text = some (Fin.ofNat _ value, rest) := by
  rw [unicodeEscape?, isHex]
  simp [alone]

/-- The escape of a control character. -/
theorem unicodeEscape?_control {high : CodePoint} {tens value : Nat} (isHigh : hexDigit? high = some tens) (few : tens ≤ 1)
    (small : value < 16) (rest : Str) :
    unicodeEscape? (0x30 :: 0x30 :: high :: ((Nat.toDigits 16 value).map codePoint ++ rest)) =
      some (Fin.ofNat _ (tens * 16 + value), rest) := by
  obtain ⟨low, isLow, isValue⟩ := toDigits_hex small
  have zero : hexDigit? 0x30 = some 0 := by decide
  have isHex : hex4? (0x30 :: 0x30 :: high :: ([low] ++ rest)) = some (tens * 16 + value, rest) := by
    simp [hex4?, zero, isHigh, isValue]
  rw [isLow]
  refine unicodeEscape?_of_hex4? isHex ?_
  simp only [isHighSurrogate, Bool.and_eq_false_iff, decide_eq_false_iff_not]
  omega

/-- A scan that goes on after one character. -/
def consScanned (c : CodePoint) (scanned : Except LoadError (Str × Str)) : Except LoadError (Str × Str) :=
  scanned.map fun scanned => (c :: scanned.1, scanned.2)

section

variable {fuel : Nat} {c value : CodePoint} {rest after : Str}

theorem scanString_plain (noQuote : c ≠ 0x22) (noBackslash : c ≠ 0x5C) (printable : 0x1F < c.val) :
    scanString (fuel + 1) (c :: rest) = consScanned c (scanString fuel rest) := by
  rw [scanString.eq_def]
  simp only [beq_eq_false_iff_ne.mpr noQuote, beq_eq_false_iff_ne.mpr noBackslash, Bool.false_eq_true, if_false,
    if_neg (Nat.not_le.mpr printable)]
  cases scanString fuel rest <;> rfl

theorem scanString_simple (notHex : c ≠ codePoint 'u') (isSimple : simpleEscape? c = some value) :
    scanString (fuel + 1) (0x5C :: c :: rest) = consScanned value (scanString fuel rest) := by
  rw [scanString, if_neg (by decide), if_pos (by decide)]
  simp only [beq_eq_false_iff_ne.mpr notHex, isSimple, Bool.false_eq_true, if_false]
  cases scanString fuel rest <;> rfl

theorem scanString_unicode (isEscape : unicodeEscape? rest = some (value, after)) :
    scanString (fuel + 1) (0x5C :: 0x75 :: rest) = consScanned value (scanString fuel after) := by
  rw [scanString, if_neg (by decide), if_pos (by decide)]
  simp only [show ((0x75 : CodePoint) == codePoint 'u') = true from by decide, isEscape, if_true]
  cases scanString fuel after <;> rfl

end

/-- The characters with an escape of one letter. -/
def lettered : List CodePoint := [0x22, 0x5C, 0x0A, 0x0D, 0x09, 0x0C, 0x08]

/-- How the other characters are written. -/
theorem dumpsChar_of_not_lettered {c : CodePoint} (other : c ∉ lettered) :
    dumpsChar c = if c.val < 0x20 then
      0x5C :: 0x75 :: 0x30 :: 0x30 :: (if c.val < 0x10 then 0x30 else 0x31) :: (Nat.toDigits 16 (c.val % 16)).map codePoint
    else [c] := by
  simp only [lettered, List.mem_cons, List.not_mem_nil, or_false, not_or] at other
  obtain ⟨quote, backslash, lineFeed, carriageReturn, tab, formFeed, backspace⟩ := other
  simp only [dumpsChar, beq_eq_false_iff_ne.mpr quote, beq_eq_false_iff_ne.mpr backslash, beq_eq_false_iff_ne.mpr lineFeed,
    beq_eq_false_iff_ne.mpr carriageReturn, beq_eq_false_iff_ne.mpr tab, beq_eq_false_iff_ne.mpr formFeed,
    beq_eq_false_iff_ne.mpr backspace, Bool.false_eq_true, if_false]
  split
  next => split <;> rfl
  next => rfl

/-- A written character is scanned in one step. -/
theorem scanString_char (c : CodePoint) (fuel : Nat) (rest : Str) :
    scanString (fuel + 1) (escapeAngles (dumpsChar c) ++ rest) = consScanned c (scanString fuel rest) := by
  by_cases isLettered : c ∈ lettered
  · simp only [lettered, List.mem_cons, List.not_mem_nil, or_false] at isLettered
    rcases isLettered with rfl | rfl | rfl | rfl | rfl | rfl | rfl
    all_goals exact scanString_simple (by decide) (by decide)
  · rw [dumpsChar_of_not_lettered isLettered]
    split
    next control =>
      have small : c.val % 16 < 16 := Nat.mod_lt _ (by omega)
      have plain : ∀ other ∈ (0x5C :: 0x75 :: 0x30 :: 0x30 :: (if c.val < 0x10 then 0x30 else 0x31) ::
          (Nat.toDigits 16 (c.val % 16)).map codePoint : Str), other ≠ 0x3C ∧ other ≠ 0x3E := by
        obtain ⟨low, isLow, isValue⟩ := toDigits_hex small
        simp only [isLow, List.forall_mem_cons]
        refine ⟨by decide, by decide, by decide, by decide, ?_, ne_angle_of_hexDigit? isValue, by simp⟩
        split <;> decide
      rw [escapeAngles_eq_self plain]
      refine scanString_unicode (?_ : _ = some (c, rest))
      by_cases low : c.val < 0x10
      · rw [if_pos low]
        refine (unicodeEscape?_control (by rfl : hexDigit? 0x30 = some 0) (by omega) small rest).trans ?_
        congr 2
        apply Fin.ext
        simp [Fin.ofNat]
        omega
      · rw [if_neg low]
        refine (unicodeEscape?_control (by rfl : hexDigit? 0x31 = some 1) (by omega) small rest).trans ?_
        congr 2
        apply Fin.ext
        simp [Fin.ofNat]
        omega
    next printable =>
      rw [escapeAngles_cons, escapeAngles_nil, List.append_nil, escapeAngle]
      split
      next less =>
        rw [less]
        exact scanString_unicode (unicodeEscape?_of_hex4? (by rfl) (by decide))
      next =>
        split
        next greater =>
          rw [greater]
          exact scanString_unicode (unicodeEscape?_of_hex4? (by rfl) (by decide))
        next =>
          simp only [lettered, List.mem_cons, not_or] at isLettered
          exact scanString_plain isLettered.1 isLettered.2.1 (by omega)

/-- A written string is scanned up to its closing quote. -/
theorem scanString_text {text : Str} {fuel : Nat} (enough : text.length < fuel) (rest : Str) :
    scanString fuel (escapeAngles (text.flatMap dumpsChar) ++ 0x22 :: rest) = .ok (text, rest) := by
  induction text generalizing fuel with
  | nil =>
    obtain ⟨fuel, rfl⟩ := Nat.exists_eq_succ_of_ne_zero (Nat.ne_zero_of_lt enough)
    rw [scanString.eq_def]
    rfl
  | cons c text inductionHypothesis =>
    obtain ⟨fuel, rfl⟩ := Nat.exists_eq_succ_of_ne_zero (Nat.ne_zero_of_lt enough)
    rw [List.flatMap_cons, escapeAngles_append, List.append_assoc, scanString_char,
      inductionHypothesis (by simpa using enough)]
    rfl

theorem length_le_length_flatMap_dumpsChar (text : Str) : text.length ≤ (text.flatMap dumpsChar).length := by
  induction text with
  | nil => exact Nat.le_refl 0
  | cons c text inductionHypothesis =>
    have positive : 1 ≤ (dumpsChar c).length := by
      by_cases isLettered : c ∈ lettered
      · simp only [lettered, List.mem_cons, List.not_mem_nil, or_false] at isLettered
        rcases isLettered with rfl | rfl | rfl | rfl | rfl | rfl | rfl
        all_goals decide
      · rw [dumpsChar_of_not_lettered isLettered]
        split <;> simp
    rw [List.flatMap_cons, List.length_append, List.length_cons]
    omega

/-- `scan_once` on a written string. -/
theorem scanString_dumps (text rest : Str) :
    scanString ((escapeAngles (text.flatMap dumpsChar) ++ 0x22 :: rest).length + 1)
      (escapeAngles (text.flatMap dumpsChar) ++ 0x22 :: rest) = .ok (text, rest) := by
  refine scanString_text ?_ rest
  have written := length_le_length_flatMap_dumpsChar text
  have escaped := length_le_length_escapeAngles (text.flatMap dumpsChar)
  rw [List.length_append]
  omega

theorem escapeAngles_dumpsString (text : Str) :
    escapeAngles (dumpsString text) = 0x22 :: (escapeAngles (text.flatMap dumpsChar) ++ [0x22]) := by
  rw [dumpsString, List.cons_append, escapeAngles_cons, escapeAngles_append]
  rfl

/-! ## Numbers -/

/-- What may follow a number: nothing, a comma or a closing bracket. -/
def Ends : Str → Prop
  | [] => True
  | c :: _ => c = 0x2C ∨ c = 0x5D ∨ c = 0x7D

theorem Ends.not_decimal {c : CodePoint} {rest : Str} (ends : Ends (c :: rest)) : isDecimal c = false := by
  rcases ends with rfl | rfl | rfl <;> decide

theorem Ends.takeWhile_isDecimal {rest : Str} (ends : Ends rest) : rest.takeWhile isDecimal = [] ∧ rest.dropWhile isDecimal = rest := by
  cases rest with
  | nil => exact ⟨rfl, rfl⟩
  | cons c rest => simp [ends.not_decimal]

theorem Ends.fractionPart {rest : Str} (ends : Ends rest) : fractionPart rest = ([], rest) := by
  cases rest with
  | nil => rfl
  | cons c rest => rcases ends with rfl | rfl | rfl <;> rfl

theorem Ends.exponentPart {rest : Str} (ends : Ends rest) : exponentPart rest = ([], rest) := by
  cases rest with
  | nil => rfl
  | cons c rest => rcases ends with rfl | rfl | rfl <;> rfl

theorem isDecimal_of_mem_digits {value : Nat} {c : CodePoint} (listed : c ∈ digits value) : isDecimal c = true := by
  obtain ⟨digit, isDigit, rfl⟩ := List.mem_map.mp listed
  have decimal := Nat.isDigit_of_mem_toDigits (by omega) (by omega) isDigit
  simp only [Char.isDigit, Bool.and_eq_true, decide_eq_true_eq, UInt32.le_iff_toNat_le] at decimal
  rw [isDecimal, Bool.and_eq_true, decide_eq_true_eq, decide_eq_true_eq]
  exact decimal

theorem digits_ne_nil (value : Nat) : digits value ≠ [] := by
  simp [digits, Nat.toDigits_ne_nil]

theorem decimalValue_digits (value : Nat) : decimalValue (digits value) = value := by
  rw [decimalValue, digits, List.foldl_map]
  exact Nat.ofDigitChars_ten_toDigits

/-- Only zero is spelled with a leading zero. -/
theorem digits_head {value : Nat} (positive : 0 < value) {c : CodePoint} {more : Str} (spelled : digits value = c :: more) :
    c ≠ codePoint '0' := by
  induction value using Nat.strongRecOn generalizing more with
  | ind value inductionHypothesis =>
    by_cases small : value < 10
    · rw [digits, Nat.toDigits_of_lt_base small, List.map_singleton, List.cons.injEq] at spelled
      rw [← spelled.1]
      exact codePoint_injective.ne ((by decide : ∀ digit < 10, 0 < digit → Nat.digitChar digit ≠ '0') value small positive)
    · rw [digits, Nat.toDigits_of_base_le (by omega) (by omega), List.map_append] at spelled
      obtain ⟨first, rest, isFirst⟩ := List.exists_cons_of_ne_nil (digits_ne_nil (value / 10))
      rw [← digits, isFirst, List.cons_append, List.cons.injEq] at spelled
      exact inductionHypothesis (value / 10) (by omega) (by omega) (spelled.1 ▸ isFirst)

/-- The digits in front of what follows a number. -/
theorem integerPart?_digits (value : Nat) {rest : Str} (ends : Ends rest) :
    integerPart? (digits value ++ rest) = some (digits value, rest) := by
  by_cases positive : 0 < value
  · obtain ⟨c, more, spelled⟩ := List.exists_cons_of_ne_nil (digits_ne_nil value)
    have decimals : ∀ other ∈ digits value, isDecimal other = true := fun other => isDecimal_of_mem_digits
    have isFirst : isDecimal c = true := decimals c (by simp [spelled])
    rw [spelled, List.cons_append, integerPart?]
    simp only [beq_eq_false_iff_ne.mpr (digits_head positive spelled), Bool.false_eq_true, if_false, isFirst, if_true]
    rw [← List.cons_append, ← spelled, List.takeWhile_append_of_pos decimals, List.dropWhile_append_of_pos decimals,
      ends.takeWhile_isDecimal.1, ends.takeWhile_isDecimal.2, List.append_nil]
  · rw [Nat.eq_zero_of_not_pos positive]
    rfl

/-- An integer is read back, unless it has more digits than `int` takes. -/
theorem scanNumber_dumpsInt {value : Int} (short : (digits value.natAbs).length ≤ maxIntDigits) {rest : Str} (ends : Ends rest) :
    scanNumber (dumpsInt value ++ rest) = .ok (.int value, rest) := by
  have read := integerPart?_digits value.natAbs ends
  have fits : ¬ maxIntDigits < (digits value.natAbs).length := Nat.not_lt.mpr short
  unfold dumpsInt
  split
  next negative =>
    rw [List.cons_append, scanNumber]
    simp only [beq_self_eq_true, if_true, read, ends.fractionPart, ends.exponentPart, List.isEmpty_nil, Bool.and_self, fits,
      if_false, List.isEmpty_cons, Bool.false_eq_true, decimalValue_digits]
    congr 3
    omega
  next positive =>
    obtain ⟨c, more, spelled⟩ := List.exists_cons_of_ne_nil (digits_ne_nil value.natAbs)
    have isFirst : isDecimal c = true := isDecimal_of_mem_digits (by simp [spelled] : c ∈ digits value.natAbs)
    have noSign : (c == codePoint '-') = false := by
      rw [beq_eq_false_iff_ne]
      rintro rfl
      cases isFirst
    rw [scanNumber.eq_def, spelled, List.cons_append]
    simp only [noSign, Bool.false_eq_true, if_false]
    rw [← List.cons_append, ← spelled]
    simp only [read, ends.fractionPart, ends.exponentPart, List.isEmpty_nil, Bool.and_self, if_true, fits, if_false,
      decimalValue_digits]
    congr 3
    omega

/-! ## Floats -/

theorem Ends.takeWhile_append {rest : Str} (ends : Ends rest) (text : Str) :
    (text ++ rest).takeWhile isDecimal = text.takeWhile isDecimal ∧
      (text ++ rest).dropWhile isDecimal = text.dropWhile isDecimal ++ rest := by
  induction text with
  | nil => exact ends.takeWhile_isDecimal
  | cons c text inductionHypothesis =>
    by_cases decimal : isDecimal c = true <;> simp [decimal, inductionHypothesis]

theorem Ends.integerPart?_append {text digits more rest : Str} (ends : Ends rest)
    (read : integerPart? text = some (digits, more)) : integerPart? (text ++ rest) = some (digits, more ++ rest) := by
  cases text with
  | nil => cases read
  | cons c text =>
    obtain ⟨taken, dropped⟩ := ends.takeWhile_append (c :: text)
    simp only [integerPart?, List.cons_append] at read taken dropped ⊢
    split at read
    next zero =>
      cases read
      rw [if_pos zero]
    next nonzero =>
      split at read
      next decimal =>
        cases read
        rw [if_neg nonzero, if_pos decimal, taken, dropped]
      next => cases read

theorem fractionPart_of_ne {c : CodePoint} (noPoint : c ≠ 0x2E) (text : Str) : fractionPart (c :: text) = ([], c :: text) := by
  unfold fractionPart
  split
  next same =>
    cases same
    exact absurd rfl noPoint
  next => rfl

theorem Ends.fractionPart_append {rest : Str} (ends : Ends rest) (text : Str) :
    Json.fractionPart (text ++ rest) = ((Json.fractionPart text).1, (Json.fractionPart text).2 ++ rest) := by
  match text with
  | [] => exact ends.fractionPart
  | c :: text =>
    by_cases point : c = 0x2E
    · subst point
      match text with
      | [] =>
        cases rest with
        | nil => rfl
        | cons d rest => simp [Json.fractionPart, ends.not_decimal]
      | d :: text =>
        obtain ⟨taken, dropped⟩ := ends.takeWhile_append (d :: text)
        simp only [Json.fractionPart, List.cons_append] at taken dropped ⊢
        split
        next => rw [taken, dropped]
        next => rfl
    · rw [List.cons_append, fractionPart_of_ne point, fractionPart_of_ne point]
      rfl

/-- The sign of an exponent. -/
def exponentSign : Str → Str × Str
  | s :: rest => if s == codePoint '-' || s == codePoint '+' then ([s], rest) else ([], s :: rest)
  | [] => ([], [])

/-- The digits of an exponent after its letter and its sign. -/
def exponentDigits (text : Str) (e : CodePoint) (sign digits : Str) : Str × Str :=
  match digits with
  | d :: more =>
    if isDecimal d then (e :: sign ++ (d :: more).takeWhile isDecimal, (d :: more).dropWhile isDecimal) else ([], text)
  | [] => ([], text)

theorem exponentPart_cons (e : CodePoint) (text : Str) :
    exponentPart (e :: text) =
      if e == codePoint 'e' || e == codePoint 'E' then
        exponentDigits (e :: text) e (exponentSign text).1 (exponentSign text).2
      else ([], e :: text) := by
  match text with
  | [] => rfl
  | s :: text =>
    simp only [exponentPart, exponentSign]
    by_cases signed : (s == codePoint '-' || s == codePoint '+') = true
    · rw [if_pos signed]
      cases text <;> rfl
    · rw [if_neg signed]
      rfl

theorem Ends.exponentSign_append {rest : Str} (ends : Ends rest) (text : Str) :
    exponentSign (text ++ rest) = ((exponentSign text).1, (exponentSign text).2 ++ rest) := by
  match text with
  | [] =>
    match rest with
    | [] => rfl
    | c :: rest => rcases ends with rfl | rfl | rfl <;> rfl
  | s :: text =>
    simp only [exponentSign, List.cons_append]
    split <;> rfl

theorem Ends.exponentDigits_append {rest : Str} (ends : Ends rest) (text : Str) (e : CodePoint) (sign digits : Str) :
    exponentDigits (text ++ rest) e sign (digits ++ rest) =
      ((exponentDigits text e sign digits).1, (exponentDigits text e sign digits).2 ++ rest) := by
  match digits with
  | [] =>
    match rest with
    | [] => simp [exponentDigits]
    | c :: rest => simp [exponentDigits, ends.not_decimal]
  | d :: digits =>
    obtain ⟨taken, dropped⟩ := ends.takeWhile_append (d :: digits)
    simp only [exponentDigits, List.cons_append] at taken dropped ⊢
    split
    next => rw [taken, dropped]
    next => rfl

theorem Ends.exponentPart_append {rest : Str} (ends : Ends rest) (text : Str) :
    Json.exponentPart (text ++ rest) = ((Json.exponentPart text).1, (Json.exponentPart text).2 ++ rest) := by
  match text with
  | [] => exact ends.exponentPart
  | e :: text =>
    rw [List.cons_append, exponentPart_cons, exponentPart_cons]
    split
    next => rw [ends.exponentSign_append, ← List.cons_append, ends.exponentDigits_append]
    next => rfl

/-- The parts of a number make up its text. -/
theorem integerPart?_text {text digits more : Str} (read : integerPart? text = some (digits, more)) : digits ++ more = text := by
  cases text with
  | nil => cases read
  | cons c text =>
    simp only [integerPart?] at read
    split at read
    next =>
      cases read
      rfl
    next =>
      split at read
      next =>
        cases read
        exact List.takeWhile_append_dropWhile
      next => cases read

theorem fractionPart_text (text : Str) : (fractionPart text).1 ++ (fractionPart text).2 = text := by
  unfold fractionPart
  split
  next c rest =>
    split
    next => exact congrArg (0x2E :: ·) List.takeWhile_append_dropWhile
    next => rfl
  next => rfl

theorem exponentPart_text (text : Str) : (exponentPart text).1 ++ (exponentPart text).2 = text := by
  match text with
  | [] => rfl
  | e :: text =>
    rw [exponentPart_cons]
    split
    next =>
      have signed : (exponentSign text).1 ++ (exponentSign text).2 = text := by
        match text with
        | [] => rfl
        | s :: text =>
          simp only [exponentSign]
          split <;> rfl
      unfold exponentDigits
      split
      next d more isDigits =>
        split
        next =>
          rw [List.append_assoc, List.takeWhile_append_dropWhile, ← isDigits, List.cons_append, signed]
        next => rfl
      next => rfl
    next => rfl

/-- Does the parser read all of this text as a float? -/
def isFloatLiteral (text : Str) : Bool :=
  match scanNumber text with
  | .ok (.float _, []) => true
  | _ => false

/-- The sign of a number. -/
def numberSign (c : CodePoint) (text : Str) : Str × Str :=
  if c == codePoint '-' then ([c], text) else ([], c :: text)

/-- The part of `scanNumber` after the sign. -/
def scanUnsigned (sign unsigned : Str) : Except LoadError (Json × Str) :=
  match integerPart? unsigned with
  | none => .error .malformed
  | some (digits, more) =>
    let fraction := fractionPart more
    let exponent := exponentPart fraction.2
    if fraction.1.isEmpty && exponent.1.isEmpty then
      if maxIntDigits < digits.length then .error .malformed
      else .ok (.int (if sign.isEmpty then decimalValue digits else -decimalValue digits), exponent.2)
    else .ok (.float (sign ++ digits ++ fraction.1 ++ exponent.1), exponent.2)

theorem scanNumber_cons (c : CodePoint) (text : Str) :
    scanNumber (c :: text) = scanUnsigned (numberSign c text).1 (numberSign c text).2 := by
  by_cases negative : (c == codePoint '-') = true <;> simp only [scanNumber, scanUnsigned, numberSign, negative] <;> rfl

theorem numberSign_text (c : CodePoint) (text : Str) : (numberSign c text).1 ++ (numberSign c text).2 = c :: text := by
  unfold numberSign
  split <;> rfl

/-- The parts of a float literal: with a fraction or an exponent, and nothing behind them. -/
theorem isFloatLiteral_parts {text : Str} (literal : isFloatLiteral text = true) :
    ∃ c rest digits more, text = c :: rest ∧ integerPart? (numberSign c rest).2 = some (digits, more) ∧
      ¬ ((fractionPart more).1.isEmpty && (exponentPart (fractionPart more).2).1.isEmpty) = true ∧
        (exponentPart (fractionPart more).2).2 = [] := by
  unfold isFloatLiteral at literal
  split at literal
  next read scanned =>
    match text with
    | [] => cases scanned
    | c :: text =>
      rw [scanNumber_cons, scanUnsigned] at scanned
      split at scanned
      next => cases scanned
      next digits more isDigits =>
        simp only at scanned
        split at scanned
        next =>
          split at scanned
          next => cases scanned
          next => cases scanned
        next isFloat =>
          simp only [Except.ok.injEq, Prod.mk.injEq] at scanned
          exact ⟨c, text, digits, more, rfl, isDigits, isFloat, scanned.2⟩
  next => cases literal

/-- A float literal is read as itself, whatever follows a number. -/
theorem scanNumber_float {text rest : Str} (literal : isFloatLiteral text = true) (ends : Ends rest) :
    scanNumber (text ++ rest) = .ok (.float text, rest) := by
  obtain ⟨c, text, digits, more, rfl, isDigits, isFloat, nothing⟩ := isFloatLiteral_parts literal
  have follows : numberSign c (text ++ rest) = ((numberSign c text).1, (numberSign c text).2 ++ rest) := by
    unfold numberSign
    split <;> rfl
  rw [List.cons_append, scanNumber_cons, follows, scanUnsigned]
  simp only [ends.integerPart?_append isDigits, ends.fractionPart_append, ends.exponentPart_append]
  rw [if_neg isFloat]
  simp only [Except.ok.injEq, Prod.mk.injEq, Json.float.injEq]
  refine ⟨?_, by rw [nothing, List.nil_append]⟩
  have isExponent := exponentPart_text (fractionPart more).2
  rw [nothing, List.append_nil] at isExponent
  rw [List.append_assoc, List.append_assoc, isExponent, fractionPart_text, integerPart?_text isDigits, numberSign_text]

/-- What a number is spelled with. -/
def isNumeric (c : CodePoint) : Bool :=
  isDecimal c || c == codePoint '-' || c == codePoint '+' || c == codePoint '.' || c == codePoint 'e' || c == codePoint 'E'

theorem isNumeric_of_takeWhile {text : Str} {c : CodePoint} (listed : c ∈ text.takeWhile isDecimal) : isNumeric c = true := by
  simp [isNumeric, List.mem_takeWhile_imp listed]

theorem isNumeric_integerPart? {text digits more : Str} (read : integerPart? text = some (digits, more)) {c : CodePoint}
    (listed : c ∈ digits) : isNumeric c = true := by
  cases text with
  | nil => cases read
  | cons first text =>
    simp only [integerPart?] at read
    split at read
    next zero =>
      cases read
      rw [List.mem_singleton.mp listed, eq_of_beq zero]
      decide
    next =>
      split at read
      next =>
        cases read
        exact isNumeric_of_takeWhile listed
      next => cases read

theorem isNumeric_fractionPart {text : Str} {c : CodePoint} (listed : c ∈ (fractionPart text).1) : isNumeric c = true := by
  unfold fractionPart at listed
  split at listed
  next =>
    split at listed
    next =>
      rcases List.mem_cons.mp listed with rfl | digit
      · decide
      · exact isNumeric_of_takeWhile digit
    next => cases listed
  next => cases listed

theorem isNumeric_exponentPart {text : Str} {c : CodePoint} (listed : c ∈ (exponentPart text).1) : isNumeric c = true := by
  match text with
  | [] => cases listed
  | e :: text =>
    rw [exponentPart_cons] at listed
    split at listed
    next letter =>
      unfold exponentDigits at listed
      split at listed
      next =>
        split at listed
        next =>
          rcases List.mem_append.mp listed with front | digit
          · rcases List.mem_cons.mp front with rfl | sign
            · rcases Bool.or_eq_true_iff.mp letter with is | is <;> rw [eq_of_beq is] <;> decide
            · unfold exponentSign at sign
              split at sign
              next =>
                split at sign
                next signed =>
                  rw [List.mem_singleton.mp sign]
                  rcases Bool.or_eq_true_iff.mp signed with is | is <;> rw [eq_of_beq is] <;> decide
                next => cases sign
              next => cases sign
          · exact isNumeric_of_takeWhile digit
        next => cases listed
      next => cases listed
    next => cases listed

/-- A number starts with a digit or a minus, and has no other characters than those of numbers. -/
structure SpellsNumber (text : Str) : Prop where
  head : ∃ c more, text = c :: more ∧ (isDecimal c = true ∨ c = codePoint '-' ∧ ∃ d rest, more = d :: rest ∧ isDecimal d = true)
  numeric : ∀ c ∈ text, isNumeric c = true

theorem integerPart?_head {text digits more : Str} (read : integerPart? text = some (digits, more)) :
    ∃ c rest, text = c :: rest ∧ isDecimal c = true := by
  cases text with
  | nil => cases read
  | cons c text =>
    refine ⟨c, text, rfl, ?_⟩
    simp only [integerPart?] at read
    split at read
    next zero =>
      rw [eq_of_beq zero]
      decide
    next =>
      split at read
      next decimal => exact decimal
      next => cases read

theorem spellsNumber_of_signed {c : CodePoint} {rest digits : Str} {more : Str}
    (isDigits : integerPart? (numberSign c rest).2 = some (digits, more)) (numeric : ∀ d ∈ (numberSign c rest).2, isNumeric d = true) :
    SpellsNumber (c :: rest) := by
  obtain ⟨d, tail, unsigned, decimal⟩ := integerPart?_head isDigits
  unfold numberSign at unsigned numeric
  split at unsigned
  next negative =>
    rw [if_pos negative] at numeric
    refine ⟨⟨c, rest, rfl, .inr ⟨eq_of_beq negative, d, tail, unsigned, decimal⟩⟩, List.forall_mem_cons.mpr ⟨?_, numeric⟩⟩
    rw [eq_of_beq negative]
    decide
  next positive =>
    rw [if_neg positive] at numeric
    cases unsigned
    exact ⟨⟨c, rest, rfl, .inl decimal⟩, numeric⟩

theorem spellsNumber_of_float {text : Str} (literal : isFloatLiteral text = true) : SpellsNumber text := by
  obtain ⟨c, rest, digits, more, rfl, isDigits, -, nothing⟩ := isFloatLiteral_parts literal
  refine spellsNumber_of_signed isDigits fun d listed => ?_
  have isExponent := exponentPart_text (fractionPart more).2
  rw [nothing, List.append_nil] at isExponent
  rw [← integerPart?_text isDigits, ← fractionPart_text more, ← isExponent, List.mem_append, List.mem_append] at listed
  rcases listed with digit | fraction | exponent
  · exact isNumeric_integerPart? isDigits digit
  · exact isNumeric_fractionPart fraction
  · exact isNumeric_exponentPart exponent

theorem spellsNumber_dumpsInt (value : Int) : SpellsNumber (dumpsInt value) := by
  have decimals : ∀ c ∈ digits value.natAbs, isDecimal c = true := fun c => isDecimal_of_mem_digits
  have numeric : ∀ c ∈ digits value.natAbs, isNumeric c = true := fun c listed => by simp [isNumeric, decimals c listed]
  obtain ⟨d, more, spelled⟩ := List.exists_cons_of_ne_nil (digits_ne_nil value.natAbs)
  have isFirst : isDecimal d = true := decimals d (by simp [spelled])
  unfold dumpsInt
  split
  next => exact ⟨⟨_, _, rfl, .inr ⟨rfl, d, more, spelled, isFirst⟩⟩, List.forall_mem_cons.mpr ⟨by decide, numeric⟩⟩
  next => exact ⟨⟨d, more, spelled, .inl isFirst⟩, numeric⟩

/-- A number has nothing to escape. -/
theorem SpellsNumber.escapeAngles_eq {text : Str} (spells : SpellsNumber text) : escapeAngles text = text :=
  escapeAngles_eq_self fun c listed => by
    have numeric := spells.numeric c listed
    constructor
    · rintro rfl
      cases numeric
    · rintro rfl
      cases numeric

theorem not_isPrefixOf_of_ne {first c : CodePoint} (differ : first ≠ c) (word text : Str) :
    (first :: word).isPrefixOf (c :: text) = false := by
  simp [List.isPrefixOf, differ]

/-- A number is no constant. -/
theorem SpellsNumber.scanAtom_eq {text : Str} (spells : SpellsNumber text) (rest : Str) :
    scanAtom (text ++ rest) = scanNumber (text ++ rest) := by
  obtain ⟨c, more, rfl, begins⟩ := spells.head
  have first {letter : CodePoint} (notDigit : isDecimal letter = false) (noMinus : letter ≠ codePoint '-') : letter ≠ c := by
    rintro rfl
    rcases begins with decimal | ⟨minus, -⟩
    · rw [notDigit] at decimal
      cases decimal
    · exact noMinus minus
  have infinity : (Lib.str "-Infinity").isPrefixOf (c :: (more ++ rest)) = false := by
    rcases begins with decimal | ⟨rfl, d, tail, rfl, decimal⟩
    · refine not_isPrefixOf_of_ne ?_ _ _
      rintro rfl
      cases decimal
    · have differ : codePoint 'I' ≠ d := by
        rintro rfl
        cases decimal
      exact Bool.and_eq_false_iff.mpr (.inr (not_isPrefixOf_of_ne differ _ _))
  have word (name : String) {letter : CodePoint} {tail : Str} (spelled : Lib.str name = letter :: tail)
      (notDigit : isDecimal letter = false) (noMinus : letter ≠ codePoint '-') :
      (Lib.str name).isPrefixOf (c :: (more ++ rest)) = false := by
    rw [spelled]
    exact not_isPrefixOf_of_ne (first notDigit noMinus) _ _
  rw [List.cons_append, scanAtom, afterPrefix?, afterPrefix?, afterPrefix?, word "null" rfl (by decide) (by decide),
    word "true" rfl (by decide) (by decide), word "false" rfl (by decide) (by decide), word "NaN" rfl (by decide) (by decide),
    word "Infinity" rfl (by decide) (by decide), infinity]
  rfl

end Oveo.Lib.Json
