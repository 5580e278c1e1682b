import Oveo.Lib.Text

/-! # Handoff merge groups

Whether a merge request fits the input budget is the model's tokenizer's answer, a parameter here. -/

namespace Oveo.Context

open Oveo.Lib

variable (fits : List Str → Bool)

/-- The loop of `_bounded_handoff_groups`; `none` where it raises. -/
def groupExtracts (groups : List (List Str)) (current : List Str) : List Str → Option (List (List Str))
  | [] => some (if current.isEmpty then groups else groups ++ [current])
  | extract :: extracts =>
    if fits (current ++ [extract]) then groupExtracts groups (current ++ [extract]) extracts
    else if current.isEmpty then none
    else groupExtracts (groups ++ [current]) [extract] extracts

/-- `_bounded_handoff_groups`. -/
def boundedHandoffGroups (extracts : List Str) : Option (List (List Str)) := groupExtracts fits [] [] extracts

end Oveo.Context
