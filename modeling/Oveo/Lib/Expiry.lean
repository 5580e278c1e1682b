import Mathlib.Data.List.TakeWhile
import Mathlib.Order.Lattice
import Oveo.Lib.Keyed

/-! # Queues that expire

A queue of times, the oldest first.  What is not after a bound is dropped from its front, now or later:
`Keeps` says that a queue still has everything recorded after a bound, so what counts after any later
bound is the same in the queue and in the record. -/

namespace Oveo.Lib

universe u

variable {τ : Type u} [LinearOrder τ]

/-- Drop what is not after a bound from the front. -/
def expire (bound : τ) (queue : List τ) : List τ := queue.dropWhile fun time => decide (time ≤ bound)

/-- The times after a bound. -/
def timesAfter (bound : τ) (times : List τ) : List τ := times.filter fun time => decide (bound < time)

/-- A queue has all that was recorded after a bound. -/
def Keeps (bound : τ) (recorded queue : List τ) : Prop :=
  ∃ expired, recorded = expired ++ queue ∧ ∀ time ∈ expired, time ≤ bound

variable {bound later time : τ} {recorded queue : List τ}

theorem timesAfter_append (bound : τ) (left right : List τ) :
    timesAfter bound (left ++ right) = timesAfter bound left ++ timesAfter bound right := List.filter_append left right

theorem timesAfter_eq_nil (expired : ∀ time ∈ queue, time ≤ bound) : timesAfter bound queue = [] := by
  refine List.filter_eq_nil_iff.mpr fun time listed => ?_
  simpa using expired time listed

/-- In a queue in order, dropping from the front drops all there is to drop. -/
theorem expire_eq_timesAfter (ordered : queue.Pairwise (· ≤ ·)) (bound : τ) : expire bound queue = timesAfter bound queue := by
  induction queue with
  | nil => rfl
  | cons first rest inductionHypothesis =>
    obtain ⟨least, ordered⟩ := List.pairwise_cons.mp ordered
    by_cases isExpired : first ≤ bound
    · have dropped : expire bound (first :: rest) = expire bound rest := List.dropWhile_cons_of_pos (by simpa using isExpired)
      have skipped : timesAfter bound (first :: rest) = timesAfter bound rest := List.filter_cons_of_neg (by simpa using isExpired)
      rw [dropped, skipped, inductionHypothesis ordered]
    · have stays : expire bound (first :: rest) = first :: rest := List.dropWhile_cons_of_neg (by simpa using isExpired)
      rw [stays]
      refine (List.filter_eq_self.mpr fun time listed => ?_).symm
      rcases List.mem_cons.mp listed with rfl | inRest
      · simpa using isExpired
      · simpa using (lt_of_not_ge isExpired).trans_le (least time inRest)

theorem Keeps.refl (bound : τ) (recorded : List τ) : Keeps bound recorded recorded :=
  ⟨[], rfl, fun _ listed => nomatch listed⟩

/-- Nothing has to be kept of what expired. -/
theorem Keeps.nil (expired : ∀ time ∈ recorded, time ≤ bound) : Keeps bound recorded [] :=
  ⟨recorded, (List.append_nil recorded).symm, expired⟩

theorem Keeps.mono (keeps : Keeps bound recorded queue) (notBefore : bound ≤ later) : Keeps later recorded queue := by
  obtain ⟨expired, split, before⟩ := keeps
  exact ⟨expired, split, fun time listed => (before time listed).trans notBefore⟩

theorem Keeps.concat (keeps : Keeps bound recorded queue) (time : τ) : Keeps bound (recorded ++ [time]) (queue ++ [time]) := by
  obtain ⟨expired, rfl, before⟩ := keeps
  exact ⟨expired, List.append_assoc expired queue [time], before⟩

theorem Keeps.expire (keeps : Keeps bound recorded queue) : Keeps bound recorded (expire bound queue) := by
  obtain ⟨expired, rfl, before⟩ := keeps
  refine ⟨expired ++ queue.takeWhile fun time => decide (time ≤ bound), ?_, fun time listed => ?_⟩
  · rw [List.append_assoc]
    exact congrArg _ List.takeWhile_append_dropWhile.symm
  · rcases List.mem_append.mp listed with inExpired | taken
    · exact before time inExpired
    · simpa using List.mem_takeWhile_imp taken

theorem Keeps.ordered (keeps : Keeps bound recorded queue) (ordered : recorded.Pairwise (· ≤ ·)) : queue.Pairwise (· ≤ ·) := by
  obtain ⟨expired, rfl, -⟩ := keeps
  exact (List.pairwise_append.mp ordered).2.1

/-- What counts is the same in the queue and in the record. -/
theorem Keeps.timesAfter_eq (keeps : Keeps bound recorded queue) : timesAfter bound queue = timesAfter bound recorded := by
  obtain ⟨expired, rfl, before⟩ := keeps
  rw [timesAfter_append, timesAfter_eq_nil before, List.nil_append]

theorem timesAfter_timesAfter (notBefore : bound ≤ later) (times : List τ) :
    timesAfter later (timesAfter bound times) = timesAfter later times := by
  unfold timesAfter
  rw [List.filter_filter]
  refine List.filter_congr fun time _ => ?_
  rw [Bool.eq_iff_iff]
  simp only [Bool.and_eq_true, decide_eq_true_eq]
  exact ⟨And.left, fun isLater => ⟨isLater, notBefore.trans_lt isLater⟩⟩

/-- Fewer than `limit` times are after a bound exactly if the `limit`-th newest is not. -/
theorem length_timesAfter_lt_iff (ordered : queue.Pairwise (· ≤ ·)) {limit : Nat} (positive : 0 < limit) :
    (timesAfter bound queue).length < limit ↔
      ∀ time, limit ≤ queue.length → queue[queue.length - limit]? = some time → time ≤ bound := by
  have last : queue.Pairwise fun first second => decide (bound < first) = true → decide (bound < second) = true :=
    ordered.imp fun le => by
      simp only [decide_eq_true_eq]
      exact fun isAfter => isAfter.trans_le le
  have isDrop : timesAfter bound queue = queue.drop (queue.length - (timesAfter bound queue).length) := filter_eq_drop last
  have shorter : (timesAfter bound queue).length ≤ queue.length := List.length_filter_le _ _
  constructor
  · intro few time enough found
    by_contra notBefore
    have isAfter : bound < time := lt_of_not_ge notBefore
    obtain ⟨front, back, isSplit, isFront⟩ : ∃ front back, queue = front ++ time :: back ∧ front.length = queue.length - limit := by
      obtain ⟨inside, isTime⟩ := List.getElem?_eq_some_iff.mp found
      refine ⟨queue.take (queue.length - limit), queue.drop (queue.length - limit + 1), ?_, by simp⟩
      rw [← isTime, List.getElem_cons_drop, List.take_append_drop]
    -- The time and all behind it are after the bound, and these are as many as the limit.
    have others : ∀ other ∈ time :: back, bound < other := by
      intro other listed
      rw [isSplit] at ordered
      rcases List.mem_cons.mp listed with rfl | behind
      · exact isAfter
      · exact isAfter.trans_le ((List.pairwise_cons.mp (List.pairwise_append.mp ordered).2.1).1 other behind)
    have counted : (timesAfter bound queue).length = (timesAfter bound front).length + (time :: back).length := by
      rw [isSplit, timesAfter_append, List.length_append]
      exact congrArg _ (congrArg List.length (List.filter_eq_self.mpr fun other listed => decide_eq_true (others other listed)))
    have length : queue.length = front.length + (time :: back).length := by rw [isSplit, List.length_append]
    omega
  · intro expired
    by_contra many
    have enough : limit ≤ queue.length := by omega
    have inside : queue.length - limit < queue.length := by omega
    have before := expired _ enough (List.getElem?_eq_getElem inside)
    have listed : queue[queue.length - limit] ∈ timesAfter bound queue := by
      rw [isDrop]
      exact List.mem_drop_iff_getElem.mpr ⟨(timesAfter bound queue).length - limit, by omega, by congr 1; omega⟩
    exact not_lt_of_ge before (by simpa using (List.mem_filter.mp listed).2)

end Oveo.Lib
