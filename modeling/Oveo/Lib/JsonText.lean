import Oveo.Lib.Json
import Oveo.Lib.Utf8

/-! # JSON text

The parser and the writer of Python's `json` module.  A parse failure keeps apart the three
kinds the program can tell: a constant such as `NaN`, a repeated key, and malformed text. -/

namespace Oveo.Lib.Json

/-- What depends on the interpreter: how deep a value may be nested before the parser exhausts
the stack, and how a float literal is written again. -/
structure Runtime where
  maxDepth : Nat
  floatText : Str → Str

inductive LoadError where
  | constant
  | duplicateKey
  | malformed
deriving DecidableEq, Repr

/-- Decimal digits of an integer literal past which `int` refuses it. -/
def maxIntDigits : Nat := 4300

def isJsonSpace (c : CodePoint) : Bool := c == 0x20 || c == 0x09 || c == 0x0A || c == 0x0D

def skipSpace (text : Str) : Str := text.dropWhile isJsonSpace

/-! ## Strings -/

def hexDigit? (c : CodePoint) : Option Nat :=
  if 0x30 ≤ c.val && c.val ≤ 0x39 then some (c.val - 0x30)
  else if 0x41 ≤ c.val && c.val ≤ 0x46 then some (c.val - 0x41 + 10)
  else if 0x61 ≤ c.val && c.val ≤ 0x66 then some (c.val - 0x61 + 10)
  else none

/-- Four hexadecimal digits and what follows them. -/
def hex4? : Str → Option (Nat × Str)
  | a :: b :: c :: d :: rest =>
    match hexDigit? a, hexDigit? b, hexDigit? c, hexDigit? d with
    | some a, some b, some c, some d => some (((a * 16 + b) * 16 + c) * 16 + d, rest)
    | _, _, _, _ => none
  | _ => none

def isHighSurrogate (value : Nat) : Bool := 0xD800 ≤ value && value ≤ 0xDBFF

def isLowSurrogate (value : Nat) : Bool := 0xDC00 ≤ value && value ≤ 0xDFFF

/-- What follows `\u`: a high surrogate is joined with a low one that follows as an escape. -/
def unicodeEscape? (text : Str) : Option (CodePoint × Str) :=
  match hex4? text with
  | none => none
  | some (value, rest) =>
    let alone := some (Fin.ofNat _ value, rest)
    if isHighSurrogate value then
      match rest with
      | 0x5C :: 0x75 :: escape =>
        match hex4? escape with
        | none => none
        | some (low, after) =>
          if isLowSurrogate low then
            some (Fin.ofNat _ (0x10000 + (value - 0xD800) * 0x400 + (low - 0xDC00)), after)
          else alone
      | _ => alone
    else alone

/-- The escapes of one character after a backslash. -/
def simpleEscape? (c : CodePoint) : Option CodePoint :=
  if c == 0x22 || c == 0x5C || c == codePoint '/' then some c
  else if c == codePoint 'b' then some 0x08
  else if c == codePoint 'f' then some 0x0C
  else if c == codePoint 'n' then some 0x0A
  else if c == codePoint 'r' then some 0x0D
  else if c == codePoint 't' then some 0x09
  else none

/-- A string after its opening quote, in strict mode: no control characters. -/
def scanString : Nat → Str → Except LoadError (Str × Str)
  | 0, _ => .error .malformed
  | _, [] => .error .malformed
  | fuel + 1, c :: rest =>
    if c == 0x22 then .ok ([], rest)
    else if c == 0x5C then
      match rest with
      | [] => .error .malformed
      | escaped :: rest =>
        if escaped == codePoint 'u' then
          match unicodeEscape? rest with
          | none => .error .malformed
          | some (value, rest) => do
            let (text, rest) ← scanString fuel rest
            return (value :: text, rest)
        else
          match simpleEscape? escaped with
          | none => .error .malformed
          | some value => do
            let (text, rest) ← scanString fuel rest
            return (value :: text, rest)
    else if c.val ≤ 0x1F then .error .malformed
    else do
      let (text, rest) ← scanString fuel rest
      return (c :: text, rest)

/-! ## Numbers -/

def isDecimal (c : CodePoint) : Bool := 0x30 ≤ c.val && c.val ≤ 0x39

/-- The value of decimal digits. -/
def decimalValue (digits : Str) : Nat := digits.foldl (fun value c => 10 * value + (c.val - 0x30)) 0

/-- The integer part of a number: `0`, or digits that do not start with `0`. -/
def integerPart? (text : Str) : Option (Str × Str) :=
  match text with
  | c :: rest =>
    if c == codePoint '0' then some ([c], rest)
    else if isDecimal c then some (text.takeWhile isDecimal, text.dropWhile isDecimal)
    else none
  | [] => none

/-- A fraction, if one follows. -/
def fractionPart (text : Str) : Str × Str :=
  match text with
  | 0x2E :: c :: rest =>
    if isDecimal c then (0x2E :: (c :: rest).takeWhile isDecimal, (c :: rest).dropWhile isDecimal) else ([], text)
  | _ => ([], text)

/-- An exponent, if one follows. -/
def exponentPart (text : Str) : Str × Str :=
  match text with
  | e :: rest =>
    if e == codePoint 'e' || e == codePoint 'E' then
      let (sign, digits) : Str × Str :=
        match rest with
        | s :: rest' => if s == codePoint '-' || s == codePoint '+' then ([s], rest') else ([], rest)
        | [] => ([], [])
      match digits with
      | d :: _ =>
        if isDecimal d then (e :: sign ++ digits.takeWhile isDecimal, digits.dropWhile isDecimal) else ([], text)
      | [] => ([], text)
    else ([], text)
  | [] => ([], [])

/-- A number at the start of the text. -/
def scanNumber (text : Str) : Except LoadError (Json × Str) :=
  let (sign, unsigned) : Str × Str :=
    match text with
    | c :: rest => if c == codePoint '-' then ([c], rest) else ([], text)
    | [] => ([], [])
  match integerPart? unsigned with
  | none => .error .malformed
  | some (digits, rest) =>
    let (fraction, rest) := fractionPart rest
    let (exponent, rest) := exponentPart rest
    if fraction.isEmpty && exponent.isEmpty then
      if maxIntDigits < digits.length then .error .malformed
      else
        let value : Int := decimalValue digits
        .ok (.int (if sign.isEmpty then value else -value), rest)
    else .ok (.float (sign ++ digits ++ fraction ++ exponent), rest)

/-! ## Values -/

/-- `_object_without_duplicate_keys`: every key once. -/
def hasDuplicateKey : List (Str × Json) → Bool
  | [] => false
  | (key, _) :: members => members.any (fun member => member.1 == key) || hasDuplicateKey members

/-- A constant or a number. -/
def scanAtom (text : Str) : Except LoadError (Json × Str) :=
  if let some rest := afterPrefix? (Lib.str "null") text then .ok (.null, rest)
  else if let some rest := afterPrefix? (Lib.str "true") text then .ok (.bool true, rest)
  else if let some rest := afterPrefix? (Lib.str "false") text then .ok (.bool false, rest)
  else if (Lib.str "NaN").isPrefixOf text || (Lib.str "Infinity").isPrefixOf text || (Lib.str "-Infinity").isPrefixOf text then
    .error .constant
  else scanNumber text

mutual

/-- `scan_once`, with fuel for the text and the nesting still allowed. -/
def scanValue : Nat → Nat → Str → Except LoadError (Json × Str)
  | 0, _, _ => .error .malformed
  | _ + 1, _, [] => .error .malformed
  | fuel + 1, depth, c :: rest =>
    if c == 0x22 then do
      let (text, rest) ← scanString (rest.length + 1) rest
      return (.str text, rest)
    else if c == 0x7B then
      match depth, skipSpace rest with
      | 0, _ => .error .malformed
      | depth + 1, first :: after =>
        if first == 0x7D then .ok (.obj [], after)
        else do
          let (members, rest) ← scanMembers fuel depth (first :: after)
          if hasDuplicateKey members then throw .duplicateKey
          return (.obj members, rest)
      | _ + 1, [] => .error .malformed
    else if c == 0x5B then
      match depth, skipSpace rest with
      | 0, _ => .error .malformed
      | depth + 1, first :: after =>
        if first == 0x5D then .ok (.arr [], after)
        else do
          let (items, rest) ← scanItems fuel depth (first :: after)
          return (.arr items, rest)
      | _ + 1, [] => .error .malformed
    else scanAtom (c :: rest)

/-- The items of an array from the first one on, and what follows its bracket. -/
def scanItems : Nat → Nat → Str → Except LoadError (List Json × Str)
  | 0, _, _ => .error .malformed
  | fuel + 1, depth, text => do
    let (item, rest) ← scanValue fuel depth text
    match skipSpace rest with
    | 0x5D :: rest => return ([item], rest)
    | 0x2C :: rest =>
      let (items, rest) ← scanItems fuel depth (skipSpace rest)
      return (item :: items, rest)
    | _ => throw .malformed

/-- The members of an object from the first key on, and what follows its brace. -/
def scanMembers : Nat → Nat → Str → Except LoadError (List (Str × Json) × Str)
  | 0, _, _ => .error .malformed
  | fuel + 1, depth, text =>
    match text with
    | 0x22 :: rest => do
      let (key, rest) ← scanString (rest.length + 1) rest
      match skipSpace rest with
      | 0x3A :: rest =>
        let (value, rest) ← scanValue fuel depth (skipSpace rest)
        match skipSpace rest with
        | 0x7D :: rest => return ([(key, value)], rest)
        | 0x2C :: rest =>
          let (members, rest) ← scanMembers fuel depth (skipSpace rest)
          return ((key, value) :: members, rest)
        | _ => throw .malformed
      | _ => throw .malformed
    | _ => .error .malformed

end

/-- `json.loads` with the hooks of `_load_object`. -/
def loads (runtime : Runtime) (text : Str) : Except LoadError Json :=
  if text.head? = some 0xFEFF then .error .malformed
  else do
    let (value, rest) ← scanValue (2 * text.length + 2) runtime.maxDepth (skipSpace text)
    if (skipSpace rest).isEmpty then return value else throw .malformed

/-! ## Floats -/

/-- A float literal as sign, mantissa and power of ten. -/
def floatParts (literal : Str) : Bool × Nat × Int :=
  let negative := literal.head? == some (codePoint '-')
  let unsigned := if negative then literal.drop 1 else literal
  let whole := unsigned.takeWhile isDecimal
  let (fraction, rest) := fractionPart (unsigned.dropWhile isDecimal)
  let fraction := fraction.drop 1
  let exponent : Int :=
    match rest.drop 1 with
    | c :: digits =>
      if c == codePoint '-' then -(decimalValue digits : Int)
      else if c == codePoint '+' then decimalValue digits
      else decimalValue (c :: digits)
    | [] => 0
  (negative, decimalValue (whole ++ fraction), exponent - fraction.length)

/-- Compares `mantissa * 10 ^ exponent` with a fraction. -/
def decimalLe (mantissa : Nat) (exponent : Int) (numerator denominator : Nat) : Bool :=
  if 0 ≤ exponent then mantissa * 10 ^ exponent.toNat * denominator ≤ numerator
  else mantissa * denominator ≤ numerator * 10 ^ (-exponent).toNat

def decimalLt (mantissa : Nat) (exponent : Int) (numerator denominator : Nat) : Bool :=
  if 0 ≤ exponent then mantissa * 10 ^ exponent.toNat * denominator < numerator
  else mantissa * denominator < numerator * 10 ^ (-exponent).toNat

/-- Does the literal round to 1.0? -/
def floatIsOne (literal : Str) : Bool :=
  let (negative, mantissa, exponent) := floatParts literal
  !negative && !decimalLt mantissa exponent (2 ^ 54 - 1) (2 ^ 54) && decimalLe mantissa exponent (2 ^ 53 + 1) (2 ^ 53)

/-- `math.isfinite`: does the literal round to a finite double? -/
def floatIsFinite (literal : Str) : Bool :=
  let (_, mantissa, exponent) := floatParts literal
  decimalLt mantissa exponent (2 ^ 1024 - 2 ^ 970) 1

/-! ## Writing -/

/-- One character of a string with `ensure_ascii=False`. -/
def dumpsChar (c : CodePoint) : Str :=
  if c == 0x22 then Lib.str "\\\""
  else if c == 0x5C then Lib.str "\\\\"
  else if c == 0x0A then Lib.str "\\n"
  else if c == 0x0D then Lib.str "\\r"
  else if c == 0x09 then Lib.str "\\t"
  else if c == 0x0C then Lib.str "\\f"
  else if c == 0x08 then Lib.str "\\b"
  else if c.val < 0x20 then
    Lib.str "\\u00" ++ (if c.val < 0x10 then Lib.str "0" else Lib.str "1") ++ ((Nat.toDigits 16 (c.val % 16)).map codePoint)
  else [c]

def dumpsString (text : Str) : Str := 0x22 :: text.flatMap dumpsChar ++ [0x22]

def dumpsInt (value : Int) : Str :=
  if value < 0 then codePoint '-' :: digits value.natAbs else digits value.natAbs

mutual

/-- `json.dumps(value, ensure_ascii=False, separators=(",", ":"))`. -/
def dumps (runtime : Runtime) : Json → Str
  | .null => Lib.str "null"
  | .bool true => Lib.str "true"
  | .bool false => Lib.str "false"
  | .int value => dumpsInt value
  | .float literal => runtime.floatText literal
  | .str text => dumpsString text
  | .arr items => 0x5B :: dumpsItems runtime items ++ [0x5D]
  | .obj members => 0x7B :: dumpsMembers runtime members ++ [0x7D]

def dumpsItems (runtime : Runtime) : List Json → Str
  | [] => []
  | [item] => dumps runtime item
  | item :: items => dumps runtime item ++ 0x2C :: dumpsItems runtime items

def dumpsMembers (runtime : Runtime) : List (Str × Json) → Str
  | [] => []
  | [(key, value)] => dumpsString key ++ 0x3A :: dumps runtime value
  | (key, value) :: members => dumpsString key ++ 0x3A :: dumps runtime value ++ 0x2C :: dumpsMembers runtime members

end

mutual

/-- Is there a surrogate in any string, keys included? -/
def hasSurrogate : Json → Bool
  | .str text => text.any isSurrogate
  | .arr items => itemsHaveSurrogate items
  | .obj members => membersHaveSurrogate members
  | .null | .bool _ | .int _ | .float _ => false

def itemsHaveSurrogate : List Json → Bool
  | [] => false
  | item :: items => hasSurrogate item || itemsHaveSurrogate items

def membersHaveSurrogate : List (Str × Json) → Bool
  | [] => false
  | (key, value) :: members => key.any isSurrogate || hasSurrogate value || membersHaveSurrogate members

end

/-! ## Measures -/

mutual

/-- How many levels of values lie below this one. -/
def height : Json → Nat
  | .arr items => itemsHeight items
  | .obj members => membersHeight members
  | .null | .bool _ | .int _ | .float _ | .str _ => 0

def itemsHeight : List Json → Nat
  | [] => 0
  | item :: items => max (height item + 1) (itemsHeight items)

def membersHeight : List (Str × Json) → Nat
  | [] => 0
  | (_, value) :: members => max (height value + 1) (membersHeight members)

end

mutual

/-- The number of values in this one, itself included. -/
def nodes : Json → Nat
  | .arr items => 1 + itemsNodes items
  | .obj members => 1 + membersNodes members
  | .null | .bool _ | .int _ | .float _ | .str _ => 1

def itemsNodes : List Json → Nat
  | [] => 0
  | item :: items => nodes item + itemsNodes items

def membersNodes : List (Str × Json) → Nat
  | [] => 0
  | (_, value) :: members => nodes value + membersNodes members

end

mutual

/-- Is every float in this value finite? -/
def allFinite : Json → Bool
  | .float literal => floatIsFinite literal
  | .arr items => itemsAllFinite items
  | .obj members => membersAllFinite members
  | .null | .bool _ | .int _ | .str _ => true

def itemsAllFinite : List Json → Bool
  | [] => true
  | item :: items => allFinite item && itemsAllFinite items

def membersAllFinite : List (Str × Json) → Bool
  | [] => true
  | (_, value) :: members => allFinite value && membersAllFinite members

end

/-- A value read from an object without surrogates has none. -/
theorem hasSurrogate_of_get? {members : List (Str × Json)} {key : Str} {value : Json}
    (clean : membersHaveSurrogate members = false) (found : get? members key = some value) :
    hasSurrogate value = false := by
  induction members with
  | nil => cases found
  | cons member members inductionHypothesis =>
    obtain ⟨name, first⟩ := member
    simp only [membersHaveSurrogate, Bool.or_eq_false_iff] at clean
    by_cases here : name = key
    · simp only [get?, here, beq_self_eq_true, List.find?_cons_of_pos, Option.map_some, Option.some.injEq] at found
      rw [← found]
      exact clean.1.2
    · refine inductionHypothesis clean.2 ?_
      simpa [get?, here] using found

end Oveo.Lib.Json
