import Mathlib.Algebra.GroupWithZero.Nat
import Mathlib.Algebra.Ring.Int.Defs
import Mathlib.Data.List.Basic
import Mathlib.Data.List.Infix
import Mathlib.Data.List.TakeWhile

/-! # Text as code points

A Python string is a sequence of code points, lone surrogates included, so text is a list
of them rather than a `String`.  The searching functions are the ones the program calls:
substring tests, the first occurrence of a word, stripping, and counting words.

`Unbordered` words are those no proper prefix of which is also a suffix.  An occurrence of
such a word cannot begin inside a text that avoids it and end in a copy of the word, which
is what makes scanning for delimiters unambiguous. -/

namespace Oveo.Lib

abbrev CodePoint := Fin 0x110000

instance codePointsNeZero : NeZero 0x110000 := ⟨by decide⟩

abbrev Str := List CodePoint

instance strLawfulBEq : LawfulBEq Str := inferInstance

theorem toNat_lt_codePoints (c : Char) : c.toNat < 0x110000 := by
  have valid := c.valid
  unfold UInt32.isValidChar Nat.isValidChar at valid
  show c.val.toNat < _
  omega

def codePoint (c : Char) : CodePoint := ⟨c.toNat, toNat_lt_codePoints c⟩

def str (s : String) : Str := s.toList.map codePoint

def isSurrogate (c : CodePoint) : Bool := 0xD800 ≤ c.val && c.val ≤ 0xDFFF

/-- `str.isspace` for one character; also what `\s` matches. -/
def isSpace (c : CodePoint) : Bool :=
  (0x09 ≤ c.val && c.val ≤ 0x0D) || (0x1C ≤ c.val && c.val ≤ 0x20) || c.val == 0x85 ||
  c.val == 0xA0 || c.val == 0x1680 || (0x2000 ≤ c.val && c.val ≤ 0x200A) ||
  c.val == 0x2028 || c.val == 0x2029 || c.val == 0x202F || c.val == 0x205F || c.val == 0x3000

/-- `str.strip()`. -/
def strip (text : Str) : Str :=
  ((text.dropWhile isSpace).reverse.dropWhile isSpace).reverse

/-- `not text.strip()`. -/
def isBlank (text : Str) : Bool := text.all isSpace

theorem isBlank_iff_strip (text : Str) : isBlank text = true ↔ strip text = [] := by
  simp only [isBlank, strip, List.reverse_eq_nil_iff, List.dropWhile_eq_nil_iff, List.mem_reverse,
    List.all_eq_true]
  constructor
  · intro spaces c member
    exact spaces c ((List.dropWhile_suffix isSpace).subset member)
  · intro kept c member
    rw [← @List.takeWhile_append_dropWhile _ isSpace text] at member
    rcases List.mem_append.mp member with leading | rest
    · exact List.mem_takeWhile_imp leading
    · exact kept c rest

/-- The number of maximal runs of non-space characters, `len(re.findall(r"\S+", text))`. -/
def countWords : Str → Nat
  | [] => 0
  | [c] => if isSpace c then 0 else 1
  | c :: next :: rest =>
    (if !isSpace c && isSpace next then 1 else 0) + countWords (next :: rest)

/-- `needle in text`. -/
def occursIn (needle : Str) : Str → Bool
  | [] => needle.isEmpty
  | c :: rest => needle.isPrefixOf (c :: rest) || occursIn needle rest

/-- `text.startswith(word)`, with what follows the word. -/
def afterPrefix? (word text : Str) : Option Str :=
  if word.isPrefixOf text then some (text.drop word.length) else none

/-- The text before the first occurrence of a word and the text after it. -/
def splitAtFirst (word : Str) : Str → Option (Str × Str)
  | [] => if word.isEmpty then some ([], []) else none
  | c :: rest =>
    if word.isPrefixOf (c :: rest) then some ([], (c :: rest).drop word.length)
    else (splitAtFirst word rest).map fun (before, after) => (c :: before, after)

theorem occursIn_iff (needle text : Str) : occursIn needle text = true ↔ needle <:+: text := by
  induction text with
  | nil => simp [occursIn, List.infix_nil]
  | cons c rest inductionHypothesis =>
    simp [occursIn, inductionHypothesis, List.infix_cons_iff]

theorem afterPrefix?_eq_some {word text rest : Str} :
    afterPrefix? word text = some rest ↔ text = word ++ rest := by
  unfold afterPrefix?
  constructor
  · intro found
    split at found
    next isPrefix =>
      obtain ⟨tail, rfl⟩ := List.isPrefixOf_iff_prefix.mp isPrefix
      simpa using found
    next => cases found
  · rintro rfl
    simp

@[simp] theorem afterPrefix?_append (word rest : Str) : afterPrefix? word (word ++ rest) = some rest :=
  afterPrefix?_eq_some.mpr rfl

/-- No proper non-empty prefix of the word is also a suffix of it. -/
def Unbordered (word : Str) : Prop :=
  ∀ k, 0 < k → k < word.length → ¬ (word.drop k <+: word)

/-- A text avoids a word when the word occurs nowhere in it. -/
def Avoids (word text : Str) : Prop := ¬ (word <:+: text)

theorem Avoids.of_cons {word text : Str} {c : CodePoint} (avoids : Avoids word (c :: text)) :
    Avoids word text := fun occurs => avoids (occurs.trans (List.suffix_cons c text).isInfix)

/-- An unbordered word cannot start in a non-empty text that avoids it when what follows the
text is a copy of the word, or nothing. -/
theorem not_prefix_of_avoids {word text rest : Str} (unbordered : Unbordered word)
    (nonempty : text ≠ []) (avoids : Avoids word text) (follows : rest = [] ∨ word <+: rest) :
    ¬ (word <+: text ++ rest) := by
  intro isPrefix
  by_cases short : word.length ≤ text.length
  · have within : word <+: text :=
      List.prefix_of_prefix_length_le isPrefix (List.prefix_append text rest) short
    exact avoids within.isInfix
  · rcases follows with rfl | wordFollows
    · have := isPrefix.length_le
      simp at this
      omega
    · have textPrefix : text <+: word :=
        List.prefix_of_prefix_length_le (List.prefix_append text rest) isPrefix (by omega)
      obtain ⟨tail, rfl⟩ := textPrefix
      have tailPrefix : tail <+: rest := by
        simpa [List.prefix_append_right_inj] using isPrefix
      have border : tail <+: text ++ tail :=
        List.prefix_of_prefix_length_le tailPrefix wordFollows (by simp)
      have positive : 0 < text.length := List.length_pos_iff.mpr nonempty
      refine unbordered text.length positive ?_ (by simpa using border)
      simp only [List.length_append] at short ⊢
      omega

/-- What is split at a word is put together from the parts and the word. -/
theorem splitAtFirst_eq_some {word text before after : Str} (found : splitAtFirst word text = some (before, after)) :
    text = before ++ (word ++ after) := by
  induction text generalizing before with
  | nil =>
    rw [splitAtFirst] at found
    split at found
    next isEmpty =>
      cases found
      rw [List.isEmpty_iff.mp isEmpty]
      rfl
    next => cases found
  | cons c text inductionHypothesis =>
    rw [splitAtFirst] at found
    split at found
    next isPrefix =>
      cases found
      obtain ⟨rest, isRest⟩ := List.isPrefixOf_iff_prefix.mp isPrefix
      rw [← isRest, List.drop_left, List.nil_append]
    next =>
      obtain ⟨⟨rest, behind⟩, isRest, same⟩ := Option.map_eq_some_iff.mp found
      cases same
      rw [inductionHypothesis isRest, List.cons_append]

/-- In a text that avoids an unbordered word and is followed by a copy of it, the first
occurrence of the word is that copy. -/
theorem splitAtFirst_of_avoids {mark word text rest : Str} (unbordered : Unbordered mark)
    (marked : mark <+: word) (avoids : Avoids mark text) (nonempty : word ≠ []) :
    splitAtFirst word (text ++ (word ++ rest)) = some (text, rest) := by
  induction text with
  | nil =>
    cases word with
    | nil => exact absurd rfl nonempty
    | cons c tail => simp [splitAtFirst, List.isPrefixOf_iff_prefix]
  | cons c text inductionHypothesis =>
    have notHere : ¬ (word <+: c :: text ++ (word ++ rest)) := fun isPrefix =>
      not_prefix_of_avoids unbordered (by simp) avoids
        (.inr (marked.trans (List.prefix_append word rest))) (marked.trans isPrefix)
    simp only [List.cons_append] at notHere ⊢
    simp [splitAtFirst, List.isPrefixOf_iff_prefix, notHere, inductionHypothesis avoids.of_cons]

/-- The decimal digits of a number, most significant first. -/
def digits (n : Nat) : Str := (Nat.toDigits 10 n).map codePoint

/-- Python's `f"{n:06d}"`. -/
def pad6 (n : Nat) : Str := List.replicate (6 - (digits n).length) (codePoint '0') ++ digits n

theorem codePoint_injective : Function.Injective codePoint := by
  intro first second equal
  have sameNat : first.toNat = second.toNat := congrArg (fun c : CodePoint => c.val) equal
  exact Char.ext (UInt32.toNat_inj.mp sameNat)

theorem pad6_eq_map (n : Nat) :
    pad6 n = (List.replicate (6 - (Nat.toDigits 10 n).length) '0' ++ Nat.toDigits 10 n).map codePoint := by
  simp [pad6, digits]

/-- Padding loses nothing: the digits still spell the number. -/
theorem pad6_injective : Function.Injective pad6 := by
  intro first second equal
  rw [pad6_eq_map, pad6_eq_map] at equal
  have sameDigits := congrArg (fun text => Nat.ofDigitChars 10 text 0)
    (List.map_injective_iff.mpr codePoint_injective equal)
  simpa [Nat.ofDigitChars_append, Nat.ofDigitChars_ten_toDigits] using sameDigits

theorem length_pad6 {n : Nat} (small : n < 1000000) : (pad6 n).length = 6 := by
  have short : (Nat.toDigits 10 n).length ≤ 6 := (Nat.length_toDigits_le_iff (by omega) (by omega)).mpr small
  simp only [pad6_eq_map, List.length_map, List.length_append, List.length_replicate]
  omega

theorem digits_injective : Function.Injective digits := by
  intro first second equal
  have sameDigits := congrArg (fun text => Nat.ofDigitChars 10 text 0)
    (List.map_injective_iff.mpr codePoint_injective equal)
  simpa [Nat.ofDigitChars_ten_toDigits] using sameDigits

/-! ## Fields between colons -/

def colon : CodePoint := codePoint ':'

/-- `":".join(fields)`. -/
def joinColons (fields : List Str) : Str := [colon].intercalate fields

theorem colon_not_mem_digits (n : Nat) : colon ∉ digits n := by
  intro listed
  obtain ⟨c, isDigit, same⟩ := List.mem_map.mp listed
  have digit := Nat.isDigit_of_mem_toDigits (by omega) (by omega) isDigit
  rw [codePoint_injective same] at digit
  cases digit

/-- Fields without colons can be read back. -/
theorem joinColons_inj {fields others : List Str} (fieldsPlain : ∀ field ∈ fields, colon ∉ field)
    (othersPlain : ∀ field ∈ others, colon ∉ field) (nonempty : fields ≠ []) (othersNonempty : others ≠ [])
    (same : joinColons fields = joinColons others) : fields = others := by
  have split := congrArg (List.splitOn colon) same
  rwa [joinColons, joinColons, List.splitOn_intercalate colon fieldsPlain nonempty,
    List.splitOn_intercalate colon othersPlain othersNonempty] at split

/-- The last field can be read back whatever stands before it. -/
theorem lastField_inj {left other field last : Str} (plain : colon ∉ field) (lastPlain : colon ∉ last)
    (same : left ++ colon :: field = other ++ colon :: last) : left = other ∧ field = last := by
  rcases List.append_eq_append_iff.mp same with ⟨middle, leftPart, rest⟩ | ⟨middle, leftPart, rest⟩
  · cases middle with
    | nil => exact ⟨by simpa using leftPart.symm, by simpa using rest⟩
    | cons c middle =>
      rw [List.cons_append, List.cons.injEq] at rest
      exact absurd (rest.2 ▸ by simp) plain
  · cases middle with
    | nil => exact ⟨by simpa using leftPart, by simpa using rest.symm⟩
    | cons c middle =>
      rw [List.cons_append, List.cons.injEq] at rest
      exact absurd (rest.2 ▸ by simp) lastPlain

end Oveo.Lib
