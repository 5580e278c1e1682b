import Oveo.Lib.Text

/-! # JSON values

Values as Python's `json` module represents them.  An object keeps its members in order; a
Python `dict` holds each key once, so the accessors read the first member with a key.  A
number with a fraction or an exponent keeps its literal. -/

namespace Oveo.Lib

inductive Json where
  | null
  | bool (value : Bool)
  | int (value : Int)
  | float (literal : Str)
  | str (value : Str)
  | arr (items : List Json)
  | obj (members : List (Str × Json))

namespace Json

/-- `value.get(key)` of a `dict`. -/
def get? (members : List (Str × Json)) (key : Str) : Option Json :=
  (members.find? fun member => member.1 == key).map Prod.snd

/-- `frozenset(value) == expected`. -/
def hasExactKeys (members : List (Str × Json)) (expected : List Str) : Bool :=
  members.all (fun member => expected.contains member.1) &&
    expected.all fun key => (get? members key).isSome

/-- `required <= frozenset(value) <= required | optional`. -/
def hasKeys (members : List (Str × Json)) (required optional : List Str) : Bool :=
  members.all (fun member => required.contains member.1 || optional.contains member.1) &&
    required.all fun key => (get? members key).isSome

/-- A closed set of keys names every key that is there. -/
theorem mem_of_hasExactKeys {members : List (Str × Json)} {expected : List Str} {key : Str} {value : Json}
    (closed : hasExactKeys members expected = true) (found : get? members key = some value) : key ∈ expected := by
  obtain ⟨member, found, -⟩ := Option.map_eq_some_iff.mp found
  simp only [hasExactKeys, Bool.and_eq_true, List.all_eq_true] at closed
  have listed := closed.1 member (List.mem_of_find?_eq_some found)
  rw [← show member.1 = key by simpa using List.find?_some found]
  simpa using listed

end Json

end Oveo.Lib
