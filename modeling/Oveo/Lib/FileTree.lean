import Mathlib.Data.List.Infix

/-! # File trees

A file system as a list of paths with what is there; the root is always a directory.  Directories and
files are only created where nothing is, so a tree grows at its end until a part of it is removed. -/

namespace Oveo.Lib

universe u v

inductive FileEntry (β : Type v) where
  | directory
  | file (content : β)
  /-- A link or a device. -/
  | other
deriving DecidableEq, Repr

abbrev FileTree (ν : Type u) (β : Type v) := List (List ν × FileEntry β)

namespace FileTree

section

variable {ν : Type u} {β : Type v} [DecidableEq ν]

def entryAt? (tree : FileTree ν β) (path : List ν) : Option (FileEntry β) :=
  (tree.find? fun entry => entry.1 == path).map Prod.snd

/-- Make the directories of `parts` below `base`, those that are missing; `false` where something else is
in the way. -/
def makeDirectories (tree : FileTree ν β) (base : List ν) : List ν → FileTree ν β × Bool
  | [] => (tree, true)
  | part :: parts =>
    match tree.entryAt? (base ++ [part]) with
    | some .directory => makeDirectories tree (base ++ [part]) parts
    | some (.file _) | some .other => (tree, false)
    | none => makeDirectories (tree ++ [(base ++ [part], .directory)]) (base ++ [part]) parts

/-- Create a file in a directory, exclusively. -/
def createFile (tree : FileTree ν β) (path : List ν) (content : β) : FileTree ν β × Bool :=
  match path.dropLast.isEmpty, tree.entryAt? path.dropLast, tree.entryAt? path with
  | true, _, none | false, some .directory, none => (tree ++ [(path, .file content)], true)
  | _, _, _ => (tree, false)

/-- Remove a path and everything below it. -/
def removeBelow (tree : FileTree ν β) (root : List ν) : FileTree ν β := tree.filter fun entry => !root.isPrefixOf entry.1

/-- The path below a root, but not the root itself. -/
def below? (root path : List ν) : Option (List ν) :=
  if root.isPrefixOf path && root.length != path.length then some (path.drop root.length) else none

/-- The regular files below a root. -/
def filesBelow (tree : FileTree ν β) (root : List ν) : List (List ν × β) :=
  tree.filterMap fun entry =>
    match entry.2 with
    | .file content => (below? root entry.1).map fun path => (path, content)
    | .directory | .other => none

/-- Is there a link or a device below a root? -/
def hasOther (tree : FileTree ν β) (root : List ν) : Bool :=
  tree.any fun entry =>
    match entry.2 with
    | .other => (below? root entry.1).isSome
    | .directory | .file _ => false

/-! ## What is where -/

variable {tree added : FileTree ν β} {base root path parts : List ν} {content : β}

/-- Everything up to here is a directory. -/
def Rooted (tree : FileTree ν β) (path : List ν) : Prop :=
  ∀ upper, upper ≠ [] → upper <+: path → tree.entryAt? upper = some .directory

/-- Nothing is here, and nothing below. -/
def Fresh (tree : FileTree ν β) (root : List ν) : Prop := ∀ path, root <+: path → tree.entryAt? path = none

@[simp] theorem entryAt?_nil : entryAt? ([] : FileTree ν β) path = none := rfl

theorem entryAt?_append : (tree ++ added).entryAt? path = (tree.entryAt? path).or (added.entryAt? path) := by
  simp only [entryAt?, List.find?_append]
  cases List.find? (fun entry => entry.1 == path) tree <;> rfl

theorem entryAt?_append_of_none (absent : added.entryAt? path = none) : (tree ++ added).entryAt? path = tree.entryAt? path := by
  rw [entryAt?_append, absent, Option.or_none]

theorem entryAt?_append_of_some {entry : FileEntry β} (present : tree.entryAt? path = some entry) :
    (tree ++ added).entryAt? path = some entry := by
  rw [entryAt?_append, present, Option.some_or]

theorem entryAt?_cons (other : List ν) (entry : FileEntry β) :
    entryAt? ((other, entry) :: tree) path = if other = path then some entry else tree.entryAt? path := by
  by_cases same : other = path <;> simp [entryAt?, same]

theorem entryAt?_singleton (other : List ν) (entry : FileEntry β) :
    entryAt? [(other, entry)] path = if other = path then some entry else none := by
  by_cases same : other = path <;> simp [entryAt?, same]

theorem entryAt?_eq_none : tree.entryAt? path = none ↔ ∀ entry ∈ tree, entry.1 ≠ path := by
  simp [entryAt?]

theorem mem_of_entryAt? {entry : FileEntry β} (found : tree.entryAt? path = some entry) : (path, entry) ∈ tree := by
  obtain ⟨⟨other, kept⟩, isFound, rfl⟩ := Option.map_eq_some_iff.mp found
  have same : other = path := by simpa using List.find?_some isFound
  exact same ▸ List.mem_of_find?_eq_some isFound

theorem entryAt?_of_mem {entry : FileEntry β} (nodup : (tree.map Prod.fst).Nodup) (member : (path, entry) ∈ tree) :
    tree.entryAt? path = some entry := by
  induction tree with
  | nil => cases member
  | cons first rest inductionHypothesis =>
    obtain ⟨absent, nodup⟩ := List.nodup_cons.mp nodup
    rcases List.mem_cons.mp member with rfl | later
    · simp [entryAt?]
    · have other : first.1 ≠ path := fun same => absent (same ▸ List.mem_map_of_mem later)
      rw [entryAt?, List.find?_cons_of_neg (by simpa using other)]
      exact inductionHypothesis nodup later

theorem Rooted.append (rooted : tree.Rooted path) : (tree ++ added).Rooted path :=
  fun upper nonempty isUpper => entryAt?_append_of_some (rooted upper nonempty isUpper)

theorem Rooted.extend {part : ν} (rooted : tree.Rooted path) (present : tree.entryAt? (path ++ [part]) = some .directory) :
    tree.Rooted (path ++ [part]) := by
  intro upper nonempty isUpper
  rcases List.prefix_concat_iff.mp isUpper with rfl | shorter
  · exact present
  · exact rooted upper nonempty shorter

/-! ## Directories -/

/-- The directories that were made. -/
structure MadeBelow (tree added : FileTree ν β) (base parts : List ν) : Prop where
  directories : ∀ entry ∈ added, entry.2 = .directory
  wereAbsent : ∀ entry ∈ added, tree.entryAt? entry.1 = none
  between : ∀ entry ∈ added, base <+: entry.1 ∧ entry.1 ≠ base ∧ entry.1 <+: base ++ parts

theorem makeDirectories_made (tree : FileTree ν β) (base parts : List ν) :
    ∃ added, (makeDirectories tree base parts).1 = tree ++ added ∧ MadeBelow tree added base parts := by
  have nothing (tree : FileTree ν β) (base parts : List ν) : tree = tree ++ [] ∧ MadeBelow tree [] base parts :=
    ⟨(List.append_nil tree).symm, ⟨by simp, by simp, by simp⟩⟩
  induction parts generalizing tree base with
  | nil => exact ⟨[], nothing tree base []⟩
  | cons part parts inductionHypothesis =>
    have longer {entry : List ν × FileEntry β} {parts : List ν}
        (between : base ++ [part] <+: entry.1 ∧ entry.1 ≠ base ++ [part] ∧ entry.1 <+: base ++ [part] ++ parts) :
        base <+: entry.1 ∧ entry.1 ≠ base ∧ entry.1 <+: base ++ part :: parts := by
      obtain ⟨lower, -, upper⟩ := between
      refine ⟨(List.prefix_append base [part]).trans lower, ?_, by simpa using upper⟩
      intro same
      have short := lower.length_le
      rw [same, List.length_append] at short
      exact absurd short (by simp)
    unfold makeDirectories
    split
    next =>
      obtain ⟨added, made, isMade⟩ := inductionHypothesis tree (base ++ [part])
      exact ⟨added, made, isMade.directories, isMade.wereAbsent, fun entry member => longer (isMade.between entry member)⟩
    next => exact ⟨[], nothing tree base _⟩
    next => exact ⟨[], nothing tree base _⟩
    next absent =>
      obtain ⟨added, made, isMade⟩ := inductionHypothesis (tree ++ [(base ++ [part], .directory)]) (base ++ [part])
      refine ⟨(base ++ [part], .directory) :: added, by rw [made, List.append_assoc, List.singleton_append], ?_, ?_, ?_⟩
      · exact List.forall_mem_cons.mpr ⟨rfl, isMade.directories⟩
      · refine List.forall_mem_cons.mpr ⟨absent, fun entry member => ?_⟩
        have absentAfter := isMade.wereAbsent entry member
        rw [entryAt?_append, Option.or_eq_none_iff] at absentAfter
        exact absentAfter.1
      · refine List.forall_mem_cons.mpr ⟨⟨List.prefix_append base [part], by simp, ?_⟩, fun entry member => longer (isMade.between entry member)⟩
        exact ⟨parts, by simp⟩

theorem makeDirectories_rooted (rooted : tree.Rooted base) (done : (makeDirectories tree base parts).2 = true) :
    (makeDirectories tree base parts).1.Rooted (base ++ parts) := by
  induction parts generalizing tree base with
  | nil => simpa [makeDirectories] using rooted
  | cons part parts inductionHypothesis =>
    have shift : base ++ part :: parts = base ++ [part] ++ parts := by simp
    rw [shift]
    unfold makeDirectories at done ⊢
    split at done
    next present => exact inductionHypothesis (rooted.extend present) done
    next => cases done
    next => cases done
    next absent =>
      refine inductionHypothesis (rooted.append.extend ?_) done
      rw [entryAt?_append, absent, entryAt?_singleton, if_pos rfl]
      rfl

/-- Where all directories are there, nothing is made. -/
theorem makeDirectories_of_rooted (rooted : tree.Rooted (base ++ parts)) :
    makeDirectories tree base parts = (tree, true) := by
  induction parts generalizing base with
  | nil => rfl
  | cons part parts inductionHypothesis =>
    have present : tree.entryAt? (base ++ [part]) = some .directory :=
      rooted (base ++ [part]) (by simp) ⟨parts, by simp⟩
    rw [makeDirectories, present]
    exact inductionHypothesis (by simpa using rooted)

/-- The directories up to a base that is there are passed over. -/
theorem makeDirectories_below (rooted : tree.Rooted (base ++ root)) :
    makeDirectories tree base (root ++ parts) = makeDirectories tree (base ++ root) parts := by
  induction root generalizing base with
  | nil => simp
  | cons part root inductionHypothesis =>
    have present : tree.entryAt? (base ++ [part]) = some .directory :=
      rooted (base ++ [part]) (by simp) ⟨root, by simp⟩
    have shift : base ++ part :: root = base ++ [part] ++ root := by simp
    rw [List.cons_append, makeDirectories, present, shift]
    exact inductionHypothesis (shift ▸ rooted)

/-! ## Files -/

theorem createFile_fst (tree : FileTree ν β) (path : List ν) (content : β) :
    (createFile tree path content).1 = tree ∨ (createFile tree path content).1 = tree ++ [(path, .file content)] := by
  unfold createFile
  split
  · exact .inr rfl
  · exact .inr rfl
  · exact .inl rfl

theorem createFile_of_absent {part : ν} (rooted : tree.Rooted base) (absent : tree.entryAt? (base ++ [part]) = none) :
    createFile tree (base ++ [part]) content = (tree ++ [(base ++ [part], .file content)], true) := by
  rw [createFile, List.dropLast_concat, absent]
  cases base with
  | nil => rfl
  | cons first rest => rw [rooted (first :: rest) (by simp) (List.prefix_refl _)]; rfl

/-! ## Removal -/

theorem entryAt?_removeBelow_of_prefix (isBelow : root <+: path) : (tree.removeBelow root).entryAt? path = none := by
  rw [entryAt?_eq_none]
  intro entry member same
  have kept := (List.mem_filter.mp member).2
  rw [same] at kept
  simp [List.isPrefixOf_iff_prefix.mpr isBelow] at kept

theorem entryAt?_removeBelow_of_not_prefix (outside : ¬ root <+: path) : (tree.removeBelow root).entryAt? path = tree.entryAt? path := by
  rw [entryAt?, removeBelow, List.find?_filter, entryAt?]
  congr 2
  funext entry
  by_cases same : entry.1 = path
  · have notPrefix : root.isPrefixOf entry.1 = false := by
      rw [same]
      simpa [Bool.eq_false_iff, List.isPrefixOf_iff_prefix] using outside
    simp [same ▸ notPrefix, same]
  · simp [same]

/-! ## Listings -/

theorem below?_append (root path : List ν) : below? root (root ++ path) = if path = [] then none else some path := by
  by_cases empty : path = [] <;> simp [below?, empty, List.isPrefixOf_iff_prefix]

theorem below?_eq_some {found : List ν} : below? root path = some found ↔ path = root ++ found ∧ found ≠ [] := by
  constructor
  · intro isBelow
    unfold below? at isBelow
    split at isBelow
    next inside =>
      simp only [Bool.and_eq_true, List.isPrefixOf_iff_prefix, bne_iff_ne, ne_eq] at inside
      obtain ⟨⟨rest, rfl⟩, longer⟩ := inside
      simp only [List.drop_left, Option.some.injEq] at isBelow
      subst isBelow
      refine ⟨rfl, ?_⟩
      rintro rfl
      simp at longer
    next => cases isBelow
  · rintro ⟨rfl, nonempty⟩
    rw [below?_append, if_neg nonempty]

theorem below?_under : below? (base ++ root) (base ++ path) = below? root path := by
  cases isBelow : below? root path with
  | some rest =>
    obtain ⟨rfl, nonempty⟩ := below?_eq_some.mp isBelow
    rw [← List.append_assoc, below?_append, if_neg nonempty]
  | none =>
    refine Option.eq_none_iff_forall_ne_some.mpr fun rest found => ?_
    obtain ⟨same, nonempty⟩ := below?_eq_some.mp found
    rw [List.append_assoc, List.append_cancel_left_eq] at same
    rw [below?_eq_some.mpr ⟨same, nonempty⟩] at isBelow
    cases isBelow

/-- A tree moved below a path lists the same files there. -/
theorem filesBelow_under : filesBelow (tree.map fun entry => (base ++ entry.1, entry.2)) (base ++ root) = filesBelow tree root := by
  simp only [filesBelow, List.filterMap_map, Function.comp_def, below?_under]

theorem hasOther_under : hasOther (tree.map fun entry => (base ++ entry.1, entry.2)) (base ++ root) = hasOther tree root := by
  simp only [hasOther, List.any_map, Function.comp_def, below?_under]

theorem filesBelow_eq_nil (bare : ∀ entry ∈ tree, below? root entry.1 = none) : filesBelow tree root = [] := by
  refine List.filterMap_eq_nil_iff.mpr fun entry member => ?_
  split
  · rw [bare entry member]
    rfl
  · rfl
  · rfl

theorem hasOther_eq_false (bare : ∀ entry ∈ tree, below? root entry.1 = none) : hasOther tree root = false := by
  refine List.any_eq_false.mpr fun entry member => ?_
  split
  · simp [bare entry member]
  · simp
  · simp

theorem filesBelow_append : filesBelow (tree ++ added) root = filesBelow tree root ++ filesBelow added root := by
  simp [filesBelow]

theorem hasOther_append : hasOther (tree ++ added) root = (hasOther tree root || hasOther added root) := by
  simp [hasOther]

end

end FileTree

end Oveo.Lib
