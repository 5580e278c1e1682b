import Oveo.Lib.Text

/-! # UTF-16

Text as code units.  `encode` is Python's `"utf-16"` codec with `surrogatepass`, less the byte
order mark, and `decode?` the strict one back.  `decode` joins the pairs and keeps a half that is
alone, so it says what a text is after joining whether or not all its halves meet. -/

namespace Oveo.Lib.Utf16

abbrev CodeUnit := Fin 0x10000

def isHigh (unit : CodeUnit) : Bool := 0xD800 ≤ unit.val && unit.val ≤ 0xDBFF

def isLow (unit : CodeUnit) : Bool := 0xDC00 ≤ unit.val && unit.val ≤ 0xDFFF

def encodePoint (c : CodePoint) : List CodeUnit :=
  if small : c.val < 0x10000 then [⟨c.val, small⟩]
  else
    [⟨0xD800 + (c.val - 0x10000) / 0x400, by omega⟩, ⟨0xDC00 + (c.val - 0x10000) % 0x400, by omega⟩]

def encode (text : Str) : List CodeUnit := text.flatMap encodePoint

/-- The character of a unit that is not paired. -/
def point (unit : CodeUnit) : CodePoint := ⟨unit.val, by omega⟩

/-- The character of a high and a low half. -/
def join (high low : CodeUnit) : CodePoint :=
  Fin.ofNat _ (0x10000 + (high.val - 0xD800) * 0x400 + (low.val - 0xDC00))

def decode : List CodeUnit → Str
  | [] => []
  | [unit] => [point unit]
  | first :: second :: rest =>
    if isHigh first && isLow second then join first second :: decode rest else point first :: decode (second :: rest)

/-- The strict decoder: no half may be alone. -/
def decode? : List CodeUnit → Option Str
  | [] => some []
  | [unit] => if isHigh unit || isLow unit then none else some [point unit]
  | first :: second :: rest =>
    if isHigh first && isLow second then (decode? rest).map fun text => join first second :: text
    else if isHigh first || isLow first then none
    else (decode? (second :: rest)).map fun text => point first :: text

/-- A text with the pairs that meet in it joined. -/
def joinPairs (text : Str) : Str := decode (encode text)

@[simp] theorem encode_nil : encode [] = [] := rfl

@[simp] theorem encode_append (left right : Str) : encode (left ++ right) = encode left ++ encode right :=
  List.flatMap_append

@[simp] theorem joinPairs_nil : joinPairs [] = [] := rfl

theorem decode_cons_of_not_high {unit : CodeUnit} (notHigh : isHigh unit = false) (rest : List CodeUnit) :
    decode (unit :: rest) = point unit :: decode rest := by
  cases rest with
  | nil => rfl
  | cons second rest => rw [decode, notHigh, Bool.false_and, if_neg Bool.false_ne_true]

/-- What the strict decoder accepts has no half left over that could meet what follows. -/
theorem decode_append {units more : List CodeUnit} {text : Str} (decoded : decode? units = some text) :
    decode (units ++ more) = text ++ decode more := by
  fun_induction decode? units generalizing text with
  | case1 =>
    cases decoded
    rfl
  | case2 => cases decoded
  | case3 unit alone =>
    simp only [Bool.or_eq_true, not_or, Bool.not_eq_true] at alone
    cases decoded
    exact decode_cons_of_not_high alone.1 more
  | case4 first second rest pair inductionHypothesis =>
    obtain ⟨text, inner, rfl⟩ := Option.map_eq_some_iff.mp decoded
    rw [List.cons_append, List.cons_append, decode, if_pos pair, inductionHypothesis inner, List.cons_append]
  | case5 => cases decoded
  | case6 first second rest notPair alone inductionHypothesis =>
    simp only [Bool.or_eq_true, not_or, Bool.not_eq_true] at alone
    obtain ⟨text, inner, rfl⟩ := Option.map_eq_some_iff.mp decoded
    rw [List.cons_append, decode_cons_of_not_high alone.1, inductionHypothesis inner, List.cons_append]

theorem join_of_large {c : CodePoint} (large : ¬ c.val < 0x10000) :
    join ⟨0xD800 + (c.val - 0x10000) / 0x400, by omega⟩ ⟨0xDC00 + (c.val - 0x10000) % 0x400, by omega⟩ = c := by
  have bound := c.isLt
  apply Fin.ext
  simp only [join, Fin.ofNat]
  omega

theorem isHigh_of_large {c : CodePoint} (large : ¬ c.val < 0x10000) :
    isHigh ⟨0xD800 + (c.val - 0x10000) / 0x400, by omega⟩ = true := by
  have bound := c.isLt
  simp only [isHigh, Bool.and_eq_true, decide_eq_true_eq]
  omega

theorem isLow_of_large {c : CodePoint} :
    isLow ⟨0xDC00 + (c.val - 0x10000) % 0x400, by omega⟩ = true := by
  simp only [isLow, Bool.and_eq_true, decide_eq_true_eq]
  omega

theorem decode?_cons_of_single {unit : CodeUnit} (single : (isHigh unit || isLow unit) = false) (rest : List CodeUnit) :
    decode? (unit :: rest) = (decode? rest).map fun text => point unit :: text := by
  have notHigh : isHigh unit = false := (Bool.or_eq_false_iff.mp single).1
  cases rest with
  | nil => simp [decode?, single]
  | cons second rest => rw [decode?, single, notHigh, Bool.false_and, if_neg Bool.false_ne_true, if_neg Bool.false_ne_true]

/-- A character that is the high half of a pair. -/
def highHalf (c : CodePoint) : Bool := 0xD800 ≤ c.val && c.val ≤ 0xDBFF

/-- A character that is the low half of a pair. -/
def lowHalf (c : CodePoint) : Bool := 0xDC00 ≤ c.val && c.val ≤ 0xDFFF

theorem isSurrogate_eq (c : CodePoint) : isSurrogate c = (highHalf c || lowHalf c) := by
  rw [Bool.eq_iff_iff]
  simp only [isSurrogate, highHalf, lowHalf, Bool.or_eq_true, Bool.and_eq_true, decide_eq_true_eq]
  omega

/-- A character that is no half is decoded by itself, whatever follows. -/
theorem decode?_encodePoint_append {c : CodePoint} (whole : isSurrogate c = false) (rest : List CodeUnit) :
    decode? (encodePoint c ++ rest) = (decode? rest).map fun text => c :: text := by
  unfold encodePoint
  split
  next small =>
    have single : (isHigh ⟨c.val, small⟩ || isLow ⟨c.val, small⟩) = false := (isSurrogate_eq c).symm.trans whole
    rw [List.singleton_append, decode?_cons_of_single single]
    rfl
  next large =>
    rw [List.cons_append, List.singleton_append, decode?, isHigh_of_large large, isLow_of_large, Bool.true_and, if_pos rfl,
      join_of_large large]

/-- A text without surrogates is what its units decode to. -/
theorem decode?_encode {text : Str} (paired : text.any isSurrogate = false) : decode? (encode text) = some text := by
  induction text with
  | nil => rfl
  | cons c text inductionHypothesis =>
    rw [List.any_cons, Bool.or_eq_false_iff] at paired
    show decode? (encodePoint c ++ encode text) = some (c :: text)
    rw [decode?_encodePoint_append paired.1, inductionHypothesis paired.2, Option.map_some]

/-! ## Halves in a text -/

/-- Some half of a text is not beside its other half. -/
def loneHalf : Str → Bool
  | [] => false
  | [c] => isSurrogate c
  | first :: second :: rest =>
    if highHalf first && lowHalf second then loneHalf rest else isSurrogate first || loneHalf (second :: rest)

/-- The character that two halves write. -/
def joinHalves (high low : CodePoint) : CodePoint :=
  Fin.ofNat _ (0x10000 + (high.val - 0xD800) * 0x400 + (low.val - 0xDC00))

/-- A text in which every high half and the low half after it are one character. -/
def pairsJoined : Str → Str
  | [] => []
  | [c] => [c]
  | first :: second :: rest =>
    if highHalf first && lowHalf second then joinHalves first second :: pairsJoined rest
    else first :: pairsJoined (second :: rest)

theorem small_of_isSurrogate {c : CodePoint} (surrogate : isSurrogate c = true) : c.val < 0x10000 := by
  simp only [isSurrogate, Bool.and_eq_true, decide_eq_true_eq] at surrogate
  omega

theorem encodePoint_of_small {c : CodePoint} (small : c.val < 0x10000) : encodePoint c = [⟨c.val, small⟩] := dif_pos small

/-- The first unit of a character is a low half only where the character is. -/
theorem head_isLow (c : CodePoint) (rest : List CodeUnit) :
    ∃ unit units, encodePoint c ++ rest = unit :: units ∧ isLow unit = lowHalf c := by
  unfold encodePoint
  split
  next small => exact ⟨_, _, rfl, rfl⟩
  next large =>
    refine ⟨_, _, rfl, ?_⟩
    have bound := c.isLt
    rw [Bool.eq_iff_iff]
    simp only [isLow, lowHalf, Bool.and_eq_true, decide_eq_true_eq]
    omega

/-- Decoding what a text encodes joins its pairs, or refuses it where a half is alone. -/
theorem decode?_encode_eq (text : Str) : decode? (encode text) = if loneHalf text then none else some (pairsJoined text) := by
  fun_induction loneHalf text with
  | case1 => rfl
  | case2 c =>
    cases surrogate : isSurrogate c with
    | false => exact decode?_encodePoint_append surrogate []
    | true =>
      have small := small_of_isSurrogate surrogate
      have half : (isHigh ⟨c.val, small⟩ || isLow ⟨c.val, small⟩) = true := (isSurrogate_eq c).symm.trans surrogate
      show decode? (encodePoint c ++ []) = none
      rw [encodePoint_of_small small, List.append_nil, decode?, if_pos half]
  | case3 first second rest pair inductionHypothesis =>
    have halves := Bool.and_eq_true_iff.mp pair
    have smallFirst := small_of_isSurrogate (by rw [isSurrogate_eq, halves.1, Bool.true_or])
    have smallSecond := small_of_isSurrogate (by rw [isSurrogate_eq second, halves.2, Bool.or_true])
    show decode? (encodePoint first ++ (encodePoint second ++ encode rest)) = _
    rw [encodePoint_of_small smallFirst, encodePoint_of_small smallSecond, List.singleton_append, List.singleton_append, pairsJoined,
      if_pos pair]
    show (if highHalf first && lowHalf second then _ else _) = _
    rw [if_pos pair, inductionHypothesis]
    split <;> rfl
  | case4 first second rest notPair inductionHypothesis =>
    show decode? (encodePoint first ++ encode (second :: rest)) = _
    rw [pairsJoined, if_neg notPair]
    cases surrogate : isSurrogate first with
    | false =>
      rw [decode?_encodePoint_append surrogate, inductionHypothesis, Bool.false_or]
      split <;> rfl
    | true =>
      have small := small_of_isSurrogate surrogate
      have half : (isHigh ⟨first.val, small⟩ || isLow ⟨first.val, small⟩) = true := (isSurrogate_eq first).symm.trans surrogate
      obtain ⟨unit, units, isHead, low⟩ := head_isLow second (encode rest)
      have notBoth : ¬ (isHigh ⟨first.val, small⟩ && isLow unit) = true := by
        rw [low]
        exact notPair
      show decode? (encodePoint first ++ (encodePoint second ++ encode rest)) = none
      rw [isHead, encodePoint_of_small small, List.singleton_append, decode?, if_neg notBoth, if_pos half]

/-- Where no pair is cut, the parts of a text are joined by themselves. -/
theorem halves_append (left right : Str)
    (apart : ∀ high low, left.getLast? = some high → right.head? = some low → (highHalf high && lowHalf low) = false) :
    loneHalf (left ++ right) = (loneHalf left || loneHalf right) ∧ pairsJoined (left ++ right) = pairsJoined left ++ pairsJoined right := by
  fun_induction loneHalf left with
  | case1 => exact ⟨rfl, rfl⟩
  | case2 c =>
    cases right with
    | nil => exact ⟨(Bool.or_false _).symm, rfl⟩
    | cons next rest =>
      have notPair := apart c next rfl rfl
      exact ⟨by simp [loneHalf, notPair], by simp [pairsJoined, notPair]⟩
  | case3 first second rest pair inductionHypothesis =>
    obtain ⟨lone, joined⟩ := inductionHypothesis fun high low isLast isHead => by
      refine apart high low ?_ isHead
      rw [List.getLast?_cons_cons, List.getLast?_cons, isLast, Option.getD_some]
    constructor
    · rw [List.cons_append, List.cons_append, loneHalf, if_pos pair, lone]
    · rw [List.cons_append, List.cons_append, pairsJoined, if_pos pair, joined, pairsJoined, if_pos pair, List.cons_append]
  | case4 first second rest notPair inductionHypothesis =>
    obtain ⟨lone, joined⟩ := inductionHypothesis fun high low isLast isHead => apart high low isLast isHead
    rw [List.cons_append] at lone joined
    constructor
    · rw [List.cons_append, List.cons_append, loneHalf, if_neg notPair, lone, Bool.or_assoc]
    · rw [List.cons_append, List.cons_append, pairsJoined, if_neg notPair, joined, pairsJoined, if_neg notPair, List.cons_append]

theorem isSurrogate_joinHalves (high low : CodePoint) (pair : (highHalf high && lowHalf low) = true) :
    isSurrogate (joinHalves high low) = false := by
  simp only [highHalf, lowHalf, Bool.and_eq_true, decide_eq_true_eq] at pair
  have inRange : 0x10000 + (high.val - 0xD800) * 0x400 + (low.val - 0xDC00) < 0x110000 := by omega
  rw [← Bool.not_eq_true]
  simp only [isSurrogate, joinHalves, Fin.ofNat, Nat.mod_eq_of_lt inRange, Bool.and_eq_true, decide_eq_true_eq]
  omega

/-- No half is left in a text whose halves all meet. -/
theorem any_isSurrogate_pairsJoined {text : Str} (whole : loneHalf text = false) : (pairsJoined text).any isSurrogate = false := by
  fun_induction loneHalf text with
  | case1 => rfl
  | case2 c => simpa [pairsJoined] using whole
  | case3 first second rest pair inductionHypothesis =>
    rw [pairsJoined, if_pos pair, List.any_cons, isSurrogate_joinHalves first second pair, inductionHypothesis whole]
    rfl
  | case4 first second rest notPair inductionHypothesis =>
    obtain ⟨notFirst, others⟩ := Bool.or_eq_false_iff.mp whole
    rw [pairsJoined, if_neg notPair, List.any_cons, notFirst, inductionHypothesis others]
    rfl

end Oveo.Lib.Utf16
