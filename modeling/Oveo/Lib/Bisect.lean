import Mathlib.Data.Nat.Basic
import Oveo.Lib.Fallible

/-! # Binary search for the last success

A search over `[low, stop)` that probes the middle, remembers the last success and goes on above
it, or below a failure.  A probe may raise, which ends the search. -/

namespace Oveo.Lib

universe u v

variable {ε : Type u} {β : Type v}

/-- The search from one range on. -/
def bisectFrom (probe : Nat → Except ε (Option β)) : Nat → Nat → Nat → Option (Nat × β) → Except ε (Option (Nat × β))
  | 0, _, _, best => .ok best
  | fuel + 1, low, stop, best =>
    if low < stop then
      let middle := (low + stop - 1) / 2
      match probe middle with
      | .error error => .error error
      | .ok (some found) => bisectFrom probe fuel (middle + 1) stop (some (middle, found))
      | .ok none => bisectFrom probe fuel low middle best
    else .ok best

/-- Each probe halves the range, so its length is fuel enough. -/
def bisect (probe : Nat → Except ε (Option β)) (low stop : Nat) : Except ε (Option (Nat × β)) :=
  bisectFrom probe (stop - low) low stop none

section

variable {probe : Nat → Except ε (Option β)} {fuel low stop : Nat} {best : Option (Nat × β)}

/-- What is found was probed. -/
theorem bisectFrom_found {index : Nat} {found : β} (searched : bisectFrom probe fuel low stop best = .ok (some (index, found))) :
    best = some (index, found) ∨ low ≤ index ∧ index < stop ∧ probe index = .ok (some found) := by
  induction fuel generalizing low stop best with
  | zero => exact .inl (Except.ok.inj searched)
  | succ fuel inductionHypothesis =>
    rw [bisectFrom] at searched
    split at searched
    next inRange =>
      simp only at searched
      split at searched
      next => cases searched
      next success isSuccess =>
        rcases inductionHypothesis searched with isBest | ⟨above, below, probed⟩
        · simp only [Option.some.injEq, Prod.mk.injEq] at isBest
          obtain ⟨rfl, rfl⟩ := isBest
          exact .inr ⟨by omega, by omega, isSuccess⟩
        · exact .inr ⟨by omega, below, probed⟩
      next isFailure =>
        rcases inductionHypothesis searched with isBest | ⟨above, below, probed⟩
        · exact .inl isBest
        · exact .inr ⟨above, by omega, probed⟩
    next => exact .inl (Except.ok.inj searched)

/-- A success is never forgotten. -/
theorem bisectFrom_some {success : Nat × β} : bisectFrom probe fuel low stop (some success) ≠ .ok none := by
  induction fuel generalizing low stop success with
  | zero => simp [bisectFrom]
  | succ fuel inductionHypothesis =>
    rw [bisectFrom]
    split
    next =>
      simp only
      split
      next => simp
      next => exact inductionHypothesis
      next => exact inductionHypothesis
    next => simp

/-- Where nothing is found, the first index failed. -/
theorem bisectFrom_none (enough : stop - low ≤ fuel) (nonempty : low < stop)
    (searched : bisectFrom probe fuel low stop none = .ok none) : probe low = .ok none := by
  induction fuel generalizing low stop with
  | zero => omega
  | succ fuel inductionHypothesis =>
    rw [bisectFrom, if_pos nonempty] at searched
    simp only at searched
    split at searched
    next => cases searched
    next => exact absurd searched bisectFrom_some
    next isFailure =>
      by_cases first : low < (low + stop - 1) / 2
      · exact inductionHypothesis (by omega) first searched
      · rwa [show (low + stop - 1) / 2 = low by omega] at isFailure

/-- What lies behind what is found is the end or a failure. -/
theorem bisectFrom_next {last : Nat} (enough : stop - low ≤ fuel) (ordered : low ≤ stop)
    (isLow : ∀ index found, best = some (index, found) → index + 1 = low) (behind : stop = last ∨ probe stop = .ok none)
    {index : Nat} {found : β} (searched : bisectFrom probe fuel low stop best = .ok (some (index, found))) :
    index + 1 = last ∨ probe (index + 1) = .ok none := by
  have ended (passedEnd : stop ≤ low) (isBest : best = some (index, found)) : index + 1 = last ∨ probe (index + 1) = .ok none := by
    rw [isLow index found isBest, Nat.le_antisymm ordered passedEnd]
    exact behind
  induction fuel generalizing low stop best with
  | zero => exact ended (by omega) (Except.ok.inj searched)
  | succ fuel inductionHypothesis =>
    rw [bisectFrom] at searched
    split at searched
    next inRange =>
      simp only at searched
      split at searched
      next => cases searched
      next success isSuccess =>
        have isLow (index : Nat) (found : β) (isBest : some ((low + stop - 1) / 2, success) = some (index, found)) :
            index + 1 = (low + stop - 1) / 2 + 1 := by
          cases isBest
          rfl
        refine inductionHypothesis (by omega) (by omega) isLow behind searched fun isEnd isBest => ?_
        rw [isLow index found isBest, Nat.le_antisymm (by omega) isEnd]
        exact behind
      next isFailure =>
        refine inductionHypothesis (by omega) (by omega) isLow (.inr isFailure) searched fun isEnd isBest => ?_
        rw [isLow index found isBest, Nat.le_antisymm (by omega) isEnd]
        exact .inr isFailure
    next isEmpty => exact ended (by omega) (Except.ok.inj searched)

/-- What a search raises was raised by a probe. -/
theorem bisectFrom_error {error : ε} (searched : bisectFrom probe fuel low stop best = .error error) :
    ∃ index, low ≤ index ∧ index < stop ∧ probe index = .error error := by
  induction fuel generalizing low stop best with
  | zero => cases searched
  | succ fuel inductionHypothesis =>
    rw [bisectFrom] at searched
    split at searched
    next inRange =>
      simp only at searched
      split at searched
      next raised =>
        cases searched
        exact ⟨_, by omega, by omega, raised⟩
      next =>
        obtain ⟨index, above, below, raised⟩ := inductionHypothesis searched
        exact ⟨index, by omega, below, raised⟩
      next =>
        obtain ⟨index, above, below, raised⟩ := inductionHypothesis searched
        exact ⟨index, above, by omega, raised⟩
    next => cases searched

/-! ## A whole search -/

theorem bisect_found {index : Nat} {found : β} (searched : bisect probe low stop = .ok (some (index, found))) :
    low ≤ index ∧ index < stop ∧ probe index = .ok (some found) :=
  (bisectFrom_found searched).resolve_left (by simp)

theorem bisect_none (nonempty : low < stop) (searched : bisect probe low stop = .ok none) : probe low = .ok none :=
  bisectFrom_none (Nat.le_refl _) nonempty searched

theorem bisect_next (nonempty : low < stop) {index : Nat} {found : β} (searched : bisect probe low stop = .ok (some (index, found))) :
    index + 1 = stop ∨ probe (index + 1) = .ok none :=
  bisectFrom_next (Nat.le_refl _) (Nat.le_of_lt nonempty) (by simp) (.inl rfl) searched

/-- Where every index below a success is one, what is found is the last success. -/
theorem bisect_last (nonempty : low < stop) {index other : Nat} {found : β} (searched : bisect probe low stop = .ok (some (index, found)))
    (downward : ∀ first second, first ≤ second → second < stop → (∃ found, probe second = .ok (some found)) →
      ∃ found, probe first = .ok (some found))
    (inRange : other < stop) (success : ∃ found, probe other = .ok (some found)) : other ≤ index := by
  by_contra behind
  rcases bisect_next nonempty searched with isEnd | isFailure
  · omega
  · obtain ⟨found, isSuccess⟩ := downward (index + 1) other (by omega) inRange success
    rw [isFailure] at isSuccess
    cases isSuccess

theorem bisect_error {error : ε} (searched : bisect probe low stop = .error error) :
    ∃ index, low ≤ index ∧ index < stop ∧ probe index = .error error := bisectFrom_error searched

end

end Oveo.Lib
