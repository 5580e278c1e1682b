import Oveo.Lib.Text

/-! # UTF-8

The incremental strict decoder of Python's `codecs`, one byte at a time: it refuses a byte as
soon as no valid sequence continues with it, so how the bytes are cut into chunks cannot
matter (`decode_append`).  `utf8Size` is the length of a text's encoding, and `utf8Encode` the encoding
with `surrogatepass`, from which the text can be told. -/

namespace Oveo.Lib

/-- `len(chr(c).encode())`. -/
def utf8Width (c : CodePoint) : Nat :=
  if c.val < 0x80 then 1 else if c.val < 0x800 then 2 else if c.val < 0x10000 then 3 else 4

/-- `len(text.encode())` for a text without surrogates. -/
def utf8Size (text : Str) : Nat := (text.map utf8Width).sum

@[simp] theorem utf8Size_nil : utf8Size [] = 0 := rfl

@[simp] theorem utf8Size_append (left right : Str) : utf8Size (left ++ right) = utf8Size left + utf8Size right := by
  simp [utf8Size]

/-! ## Encoding -/

/-- `chr(c).encode("utf-8", "surrogatepass")`. -/
def utf8EncodePoint (c : CodePoint) : List UInt8 :=
  if c.val < 0x80 then [.ofNat c.val]
  else if c.val < 0x800 then [.ofNat (0xC0 + c.val / 0x40), .ofNat (0x80 + c.val % 0x40)]
  else if c.val < 0x10000 then
    [.ofNat (0xE0 + c.val / 0x1000), .ofNat (0x80 + c.val / 0x40 % 0x40), .ofNat (0x80 + c.val % 0x40)]
  else
    [.ofNat (0xF0 + c.val / 0x40000), .ofNat (0x80 + c.val / 0x1000 % 0x40), .ofNat (0x80 + c.val / 0x40 % 0x40),
      .ofNat (0x80 + c.val % 0x40)]

/-- `text.encode("utf-8", "surrogatepass")`. -/
def utf8Encode (text : Str) : List UInt8 := text.flatMap utf8EncodePoint

theorem byte_inj {first second : Nat} (isFirst : first < 256) (isSecond : second < 256) :
    UInt8.ofNat first = UInt8.ofNat second ↔ first = second := by
  rw [← UInt8.toNat_inj, UInt8.toNat_ofNat', UInt8.toNat_ofNat', Nat.mod_eq_of_lt isFirst, Nat.mod_eq_of_lt isSecond]

theorem utf8EncodePoint_ne_nil (c : CodePoint) : utf8EncodePoint c ≠ [] := by
  unfold utf8EncodePoint
  split_ifs <;> exact List.cons_ne_nil _ _

/-- The first byte tells how many follow, and each of them gives its bits back. -/
theorem utf8EncodePoint_append_inj {first second : CodePoint} {left right : List UInt8}
    (same : utf8EncodePoint first ++ left = utf8EncodePoint second ++ right) : first = second ∧ left = right := by
  have firstBound := first.isLt
  have secondBound := second.isLt
  rw [Fin.ext_iff]
  unfold utf8EncodePoint at same
  split_ifs at same <;>
    simp (disch := omega) only [List.cons_append, List.nil_append, List.cons.injEq, byte_inj] at same
  -- two widths whose first bytes lie in different ranges
  all_goals try omega
  all_goals exact ⟨by omega, by tauto⟩

theorem utf8Encode_injective : Function.Injective utf8Encode := by
  intro first second same
  induction first generalizing second with
  | nil =>
    cases second with
    | nil => rfl
    | cons c second => exact absurd (List.append_eq_nil_iff.mp same.symm).1 (utf8EncodePoint_ne_nil c)
  | cons c first inductionHypothesis =>
    cases second with
    | nil => exact absurd (List.append_eq_nil_iff.mp same).1 (utf8EncodePoint_ne_nil c)
    | cons d second =>
      obtain ⟨isPoint, isRest⟩ := utf8EncodePoint_append_inj same
      rw [isPoint, inductionHypothesis isRest]

/-! ## Decoding -/

/-- What the decoder holds between two bytes: how many continuation bytes it still expects, the
range of the next one, and the bits read so far. -/
structure Utf8 where
  owed : Nat
  low : Nat
  high : Nat
  value : Nat
deriving DecidableEq, Repr

namespace Utf8

/-- Between two characters. -/
def start : Utf8 := ⟨0, 0, 0, 0⟩

/-- The first byte of a character. -/
def lead (byte : Nat) : Option (Utf8 × Str) :=
  if byte < 0x80 then some (start, [Fin.ofNat _ byte])
  else if 0xC2 ≤ byte ∧ byte ≤ 0xDF then some (⟨1, 0x80, 0xBF, byte - 0xC0⟩, [])
  else if byte = 0xE0 then some (⟨2, 0xA0, 0xBF, 0⟩, [])
  else if byte = 0xED then some (⟨2, 0x80, 0x9F, 0xD⟩, [])
  else if 0xE1 ≤ byte ∧ byte ≤ 0xEF then some (⟨2, 0x80, 0xBF, byte - 0xE0⟩, [])
  else if byte = 0xF0 then some (⟨3, 0x90, 0xBF, 0⟩, [])
  else if 0xF1 ≤ byte ∧ byte ≤ 0xF3 then some (⟨3, 0x80, 0xBF, byte - 0xF0⟩, [])
  else if byte = 0xF4 then some (⟨3, 0x80, 0x8F, 4⟩, [])
  else none

/-- One byte: the state after it and the character it completes, or `none` where it is invalid. -/
def next (state : Utf8) (byte : Nat) : Option (Utf8 × Str) :=
  match state.owed with
  | 0 => lead byte
  | owed + 1 =>
    if state.low ≤ byte ∧ byte ≤ state.high then
      let value := state.value * 64 + (byte - 0x80)
      if owed = 0 then some (start, [Fin.ofNat _ value]) else some (⟨owed, 0x80, 0xBF, value⟩, [])
    else none

/-- `decode(chunk, final=False)`: `none` where it raises. -/
def decode (state : Utf8) : List UInt8 → Option (Utf8 × Str)
  | [] => some (state, [])
  | byte :: bytes =>
    match next state byte.toNat with
    | none => none
    | some (state, text) => (decode state bytes).map fun (state, rest) => (state, text ++ rest)

/-- Does `decode(b"", final=True)` pass? -/
def isFinal (state : Utf8) : Bool := state.owed == 0

theorem decode_append (state : Utf8) (left right : List UInt8) :
    decode state (left ++ right) = (decode state left).bind fun (state, text) =>
      (decode state right).map fun (state, rest) => (state, text ++ rest) := by
  induction left generalizing state with
  | nil => cases found : decode state right <;> simp [decode, found]
  | cons byte left inductionHypothesis =>
    simp only [List.cons_append, decode]
    cases next state byte.toNat with
    | none => rfl
    | some entry =>
      obtain ⟨state, text⟩ := entry
      simp only [inductionHypothesis]
      cases decode state left with
      | none => rfl
      | some entry =>
        obtain ⟨state, rest⟩ := entry
        cases found : decode state right <;> simp [found]

/-- A byte after which nothing is owed completes a character. -/
theorem next_completes {state state' : Utf8} {byte : Nat} {text : Str} (taken : next state byte = some (state', text))
    (complete : state'.owed = 0) : text ≠ [] := by
  unfold next at taken
  split at taken
  next =>
    unfold lead at taken
    split at taken
    · cases taken
      exact List.cons_ne_nil _ _
    · repeat' split at taken
      all_goals cases taken
      all_goals cases complete
  next =>
    split at taken
    next =>
      dsimp only at taken
      split at taken
      next =>
        cases taken
        exact List.cons_ne_nil _ _
      next unfinished =>
        cases taken
        exact absurd complete unfinished
    next => cases taken

/-- Bytes that leave nothing owed decode to at least one character. -/
theorem decode_ne_nil {state state' : Utf8} {bytes : List UInt8} {text : Str}
    (decoded : decode state bytes = some (state', text)) (nonempty : bytes ≠ []) (complete : state'.owed = 0) :
    text ≠ [] := by
  induction bytes generalizing state text with
  | nil => exact absurd rfl nonempty
  | cons byte bytes inductionHypothesis =>
    simp only [decode] at decoded
    split at decoded
    next => cases decoded
    next middle head taken =>
      obtain ⟨⟨state, rest⟩, tail, equal⟩ := Option.map_eq_some_iff.mp decoded
      cases equal
      intro empty
      obtain ⟨noHead, noRest⟩ := List.append_eq_nil_iff.mp empty
      by_cases last : bytes = []
      · subst last
        cases tail
        exact next_completes taken complete noHead
      · exact inductionHypothesis tail last noRest

end Utf8

end Oveo.Lib
