import Oveo.Lib.Utf16

/-! # Surrogate pairs split over deltas

JSON escapes write a character outside the basic plane as two halves, and a provider may send them
in different events.  A high half at the end of a delta is held back until the next one. -/

namespace Oveo.Provider

open Oveo.Lib

/-- `"\ud800" <= c <= "\udbff"`. -/
def isHighSurrogate (c : CodePoint) : Bool := 0xD800 ≤ c.val && c.val ≤ 0xDBFF

/-- `_split_trailing_surrogate`. -/
def splitTrailingSurrogate (text : Str) : Str × Str :=
  match text.getLast? with
  | some last => if isHighSurrogate last then (text.dropLast, [last]) else (text, [])
  | none => (text, [])

/-- `_joined_surrogates`, or `none` where it refuses a lone half. -/
def joinedSurrogates (text : Str) : Option Str :=
  if text.any isSurrogate then Utf16.decode? (Utf16.encode text) else some text

theorem splitTrailingSurrogate_append (text : Str) :
    (splitTrailingSurrogate text).1 ++ (splitTrailingSurrogate text).2 = text := by
  unfold splitTrailingSurrogate
  split
  next last isLast =>
    split
    · exact List.dropLast_append_getLast? last isLast
    · exact List.append_nil text
  next => exact List.append_nil text

theorem joinedSurrogates_eq (text : Str) : joinedSurrogates text = Utf16.decode? (Utf16.encode text) := by
  unfold joinedSurrogates
  split
  · rfl
  next paired => exact (Utf16.decode?_encode (by simpa using paired)).symm

/-- What is passed on is joined for good, whatever comes after it. -/
theorem joinPairs_of_joined {text delta : Str} (joined : joinedSurrogates text = some delta) (more : Str) :
    Utf16.joinPairs (text ++ more) = delta ++ Utf16.joinPairs more := by
  rw [joinedSurrogates_eq] at joined
  rw [Utf16.joinPairs, Utf16.encode_append, Utf16.decode_append joined]
  rfl

end Oveo.Provider
