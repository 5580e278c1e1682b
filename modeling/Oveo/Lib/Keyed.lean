import Mathlib.Data.List.Nodup

/-! # Entries with keys

A list of processes, rows or files each under a key of its own.  One entry changes at a time and
keeps its key, so the keys stay as they are, and every other entry has another key. -/

namespace Oveo.Lib

universe u v

variable {α : Type u} {κ : Type v} {key : α → κ} {entries : List α} {index : Nat} {old new entry : α}

theorem map_key_set (found : entries[index]? = some old) (sameKey : key new = key old) :
    (entries.set index new).map key = entries.map key := by
  induction entries generalizing index with
  | nil => rfl
  | cons first rest inductionHypothesis =>
    cases index with
    | zero =>
      have same : first = old := by simpa using found
      simp [sameKey, same]
    | succ index => simpa using inductionHypothesis (by simpa using found)

/-- What is in the list after an entry changed. -/
theorem mem_set_of_nodup (nodup : (entries.map key).Nodup) (found : entries[index]? = some old)
    (member : entry ∈ entries.set index new) : entry = new ∨ entry ∈ entries ∧ key entry ≠ key old := by
  induction entries generalizing index with
  | nil => cases found
  | cons first rest inductionHypothesis =>
    obtain ⟨absent, nodup⟩ := List.nodup_cons.mp nodup
    cases index with
    | zero =>
      have same : first = old := by simpa using found
      rcases List.mem_cons.mp member with changed | kept
      · exact .inl changed
      · exact .inr ⟨List.mem_cons_of_mem _ kept, fun equal => absent (same ▸ equal ▸ List.mem_map_of_mem kept)⟩
    | succ index =>
      have found : rest[index]? = some old := by simpa using found
      rcases List.mem_cons.mp member with rfl | kept
      · have present : key old ∈ rest.map key := List.mem_map_of_mem (List.mem_of_getElem? found)
        exact .inr ⟨List.mem_cons_self, fun equal => absent (equal ▸ present)⟩
      · rcases inductionHypothesis nodup found kept with changed | ⟨kept, other⟩
        · exact .inl changed
        · exact .inr ⟨List.mem_cons_of_mem _ kept, other⟩

/-- What is left when an entry is removed has other keys. -/
theorem key_ne_of_mem_eraseIdx (nodup : (entries.map key).Nodup) (found : entries[index]? = some old)
    (member : entry ∈ entries.eraseIdx index) : key entry ≠ key old := by
  obtain ⟨place, different, isEntry⟩ := List.mem_eraseIdx_iff_getElem?.mp member
  intro same
  have inside : place < (entries.map key).length := by simpa using (List.getElem?_eq_some_iff.mp isEntry).1
  have sameKey : (entries.map key)[place]? = (entries.map key)[index]? := by
    rw [List.getElem?_map, List.getElem?_map, isEntry, found, Option.map_some, Option.map_some, same]
  exact different ((List.getElem?_inj inside nodup).mp sameKey)

theorem nodup_append_key (nodup : (entries.map key).Nodup) (fresh : key new ∉ entries.map key) :
    ((entries ++ [new]).map key).Nodup := by
  rw [List.map_append, List.map_singleton]
  exact nodup.append (List.nodup_singleton _) (List.disjoint_singleton.mpr fresh)

theorem nodup_filter_key (nodup : (entries.map key).Nodup) (select : α → Bool) : ((entries.filter select).map key).Nodup :=
  nodup.sublist (List.filter_sublist.map key)

/-- Looking a key up finds the entry it is the key of. -/
theorem find?_key_eq_some [BEq κ] [LawfulBEq κ] (nodup : (entries.map key).Nodup) {place : κ} :
    entries.find? (fun entry => key entry == place) = some entry ↔ entry ∈ entries ∧ key entry = place := by
  constructor
  · intro found
    exact ⟨List.mem_of_find?_eq_some found, by simpa using List.find?_some found⟩
  · intro ⟨listed, isKey⟩
    cases found : entries.find? fun entry => key entry == place with
    | none =>
      have other := List.find?_eq_none.mp found entry listed
      simp [isKey] at other
    | some first =>
      have same : key first = place := by simpa using List.find?_some found
      rw [List.inj_on_of_nodup_map nodup (List.mem_of_find?_eq_some found) listed (same.trans isKey.symm)]

/-- Where the entries that are selected come last, selecting them drops the others. -/
theorem filter_eq_drop {select : α → Bool} (last : entries.Pairwise fun first second => select first = true → select second = true) :
    entries.filter select = entries.drop (entries.length - (entries.filter select).length) := by
  induction entries with
  | nil => rfl
  | cons first rest inductionHypothesis =>
    obtain ⟨after, last⟩ := List.pairwise_cons.mp last
    by_cases selected : select first = true
    · have all : (first :: rest).filter select = first :: rest :=
        List.filter_eq_self.mpr (List.forall_mem_cons.mpr ⟨selected, fun entry member => after entry member selected⟩)
      rw [all, Nat.sub_self, List.drop_zero]
    · have fewer : (rest.filter select).length ≤ rest.length := List.length_filter_le _ _
      rw [List.filter_cons_of_neg selected, List.length_cons, Nat.succ_sub fewer, List.drop_succ_cons]
      exact inductionHypothesis last

end Oveo.Lib
