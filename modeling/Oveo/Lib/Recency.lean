import Mathlib.Data.List.Nodup

/-! # Caches in the order of use

A dictionary that keeps its entries in the order of their last use, the least recently used first, and drops
entries from the front when there are too many.  `Sound` says that every entry is right of its key: use,
storing and eviction keep that, so a hit is as good as the value that was stored. -/

namespace Oveo.Lib

universe u v

/-- A cache of at most so many entries, each under a key of its own. -/
structure Recency (κ : Type u) (β : Type v) (size : Nat) where
  entries : List (κ × β)
  distinct : (entries.map Prod.fst).Nodup
  bounded : entries.length ≤ size

namespace Recency

variable {κ : Type u} {β : Type v} {size : Nat}

def empty : Recency κ β size := ⟨[], List.nodup_nil, Nat.zero_le _⟩

/-- Every entry is right of its key. -/
def Sound (holds : κ → β → Prop) (cache : Recency κ β size) : Prop := ∀ entry ∈ cache.entries, holds entry.1 entry.2

variable {holds : κ → β → Prop}

theorem sound_empty : Sound holds (empty : Recency κ β size) := fun _ listed => nomatch listed

/-! ## Operations -/

/-- Entries from the front go until there are not too many. -/
def evict (size : Nat) : List (κ × β) → List (κ × β)
  | [] => []
  | first :: rest => if size < (first :: rest).length then evict size rest else first :: rest

theorem evict_suffix (size : Nat) (entries : List (κ × β)) : evict size entries <:+ entries := by
  induction entries with
  | nil => exact List.suffix_rfl
  | cons first rest inductionHypothesis =>
    rw [evict]
    split
    next => exact inductionHypothesis.trans (List.suffix_cons first rest)
    next => exact List.suffix_rfl

theorem length_evict (size : Nat) (entries : List (κ × β)) : (evict size entries).length ≤ size := by
  induction entries with
  | nil => exact Nat.zero_le _
  | cons first rest inductionHypothesis =>
    rw [evict]
    split
    next => exact inductionHypothesis
    next within => exact Nat.le_of_not_lt within

variable [DecidableEq κ] {key : κ} {value : β} {cache : Recency κ β size}

def get? (cache : Recency κ β size) (key : κ) : Option β := (cache.entries.find? fun entry => entry.1 == key).map Prod.snd

/-- The entry of a key goes to the end. -/
def toEnd (key : κ) (entries : List (κ × β)) : List (κ × β) :=
  entries.filter (fun entry => entry.1 != key) ++ entries.filter fun entry => entry.1 == key

/-- The value of a key is replaced in its place; a new key comes last. -/
def assign (key : κ) (value : β) (entries : List (κ × β)) : List (κ × β) :=
  if entries.any fun entry => entry.1 == key then entries.map fun entry => if entry.1 = key then (key, value) else entry
  else entries ++ [(key, value)]

theorem toEnd_perm (key : κ) (entries : List (κ × β)) : (toEnd key entries).Perm entries := by
  have split := List.filter_append_perm (fun entry : κ × β => entry.1 == key) entries
  exact List.perm_append_comm.trans split

theorem nodup_assign {entries : List (κ × β)} (distinct : (entries.map Prod.fst).Nodup) (key : κ) (value : β) :
    ((assign key value entries).map Prod.fst).Nodup := by
  rw [assign]
  split
  next =>
    have same : (entries.map fun entry => if entry.1 = key then (key, value) else entry).map Prod.fst = entries.map Prod.fst := by
      rw [List.map_map]
      refine List.map_congr_left fun entry _ => ?_
      by_cases isKey : entry.1 = key
      · simp [isKey]
      · simp [isKey]
    rwa [same]
  next absent =>
    rw [List.map_append, List.map_singleton]
    refine distinct.append (List.nodup_singleton key) (List.disjoint_singleton.mpr fun listed => absent ?_)
    obtain ⟨entry, inside, isKey⟩ := List.mem_map.mp listed
    exact List.any_eq_true.mpr ⟨entry, inside, beq_iff_eq.mpr isKey⟩

/-- A key is used. -/
def use (cache : Recency κ β size) (key : κ) : Recency κ β size where
  entries := toEnd key cache.entries
  distinct := ((toEnd_perm key cache.entries).map Prod.fst).nodup_iff.mpr cache.distinct
  bounded := by
    rw [(toEnd_perm key cache.entries).length_eq]
    exact cache.bounded

/-- A value is stored under a key, the last one used. -/
def store (cache : Recency κ β size) (key : κ) (value : β) : Recency κ β size where
  entries := evict size (toEnd key (assign key value cache.entries))
  distinct := by
    have isPerm := (toEnd_perm key (assign key value cache.entries)).map Prod.fst
    exact ((evict_suffix size _).sublist.map Prod.fst).nodup (isPerm.nodup_iff.mpr (nodup_assign cache.distinct key value))
  bounded := length_evict size _

/-! ## A hit is right -/

/-- A hit is right of the key that was asked for. -/
theorem Sound.get? (sound : Sound holds cache) (found : cache.get? key = some value) : holds key value := by
  obtain ⟨entry, isFirst, rfl⟩ := Option.map_eq_some_iff.mp found
  have isKey : entry.1 = key := by simpa using List.find?_some isFirst
  rw [← isKey]
  exact sound entry (List.mem_of_find?_eq_some isFirst)

theorem Sound.use (sound : Sound holds cache) (key : κ) : Sound holds (cache.use key) := fun entry listed =>
  sound entry ((toEnd_perm key cache.entries).mem_iff.mp listed)

theorem Sound.store (sound : Sound holds cache) (isRight : holds key value) : Sound holds (cache.store key value) := by
  intro entry listed
  have assigned := (toEnd_perm key _).mem_iff.mp ((evict_suffix size _).subset listed)
  rw [assign] at assigned
  split at assigned
  next =>
    obtain ⟨old, isOld, rfl⟩ := List.mem_map.mp assigned
    split
    next => exact isRight
    next => exact sound old isOld
  next =>
    rcases List.mem_append.mp assigned with old | new
    · exact sound entry old
    · cases List.mem_singleton.mp new
      exact isRight

end Recency

end Oveo.Lib
