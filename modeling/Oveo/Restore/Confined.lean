import Oveo.Lib.Fallible
import Oveo.Restore.Extract

/-! # A restore stays below its destination

Whatever the archive holds: the checks of its member names keep every path below the destination, so a
restore changes nothing else than the directories that lead there, and one that fails leaves nothing. -/

namespace Oveo.Restore

open Oveo.Lib Oveo.Docx Oveo.Attachments

section

variable {host : Host} {free : Int} {archive : Archive} {destination : List Str} {allowIncomplete : Bool} {tree : Tree}
  {members : List Member} {member : Member} {path : List Str}

/-! ## Paths -/

/-- The path of a member stays below the destination. -/
structure PlainName (name : Str) : Prop where
  relative : isAbsolute name = false
  down : str ".." ∉ pathParts name

theorem resolve_eq {base parts : List Str} (down : str ".." ∉ parts) : resolve base parts = base ++ parts := by
  induction parts generalizing base with
  | nil => simp [resolve]
  | cons part parts inductionHypothesis =>
    have notUp : part ≠ str ".." := fun up => down (up ▸ List.mem_cons_self)
    have rest := @inductionHypothesis (base ++ [part]) fun up => down (List.mem_cons_of_mem _ up)
    rw [resolve, List.foldl_cons, if_neg notUp]
    simpa [resolve] using rest

theorem PlainName.memberPath {name : Str} (plain : PlainName name) : memberPath destination name = destination ++ pathParts name := by
  rw [Restore.memberPath, plain.relative]
  exact resolve_eq plain.down

theorem PlainName.memberParent {name : Str} (plain : PlainName name) :
    memberParent destination name = destination ++ (pathParts name).dropLast := by
  rw [Restore.memberParent, plain.relative]
  exact resolve_eq fun up => plain.down (List.mem_of_mem_dropLast up)

theorem validateMembers_plain {seen : List Str} (valid : validateMembers seen members = .ok ()) :
    ∀ member ∈ members, PlainName member.name ∧ member.kind ≠ .other := by
  induction members generalizing seen with
  | nil => exact fun _ listed => (nomatch listed)
  | cons first rest inductionHypothesis =>
    simp only [validateMembers, ite_error_eq_ok, Bool.or_eq_true, not_or, Bool.not_eq_true] at valid
    obtain ⟨⟨⟨⟨-, relative⟩, down⟩, -⟩, -, ⟨-, kind⟩, valid⟩ := valid
    refine List.forall_mem_cons.mpr ⟨⟨⟨relative, ?_⟩, ?_⟩, inductionHypothesis valid⟩
    · simpa using down
    · simpa using kind

/-! ## What an extraction adds -/

/-- A tree with more below a root. -/
def GrowsBelow (root : List Str) (tree tree' : Tree) : Prop := ∃ added, tree' = tree ++ added ∧ ∀ entry ∈ added, root <+: entry.1

theorem GrowsBelow.refl (root : List Str) (tree : Tree) : GrowsBelow root tree tree := ⟨[], (List.append_nil tree).symm, by simp⟩

theorem GrowsBelow.trans {root : List Str} {first second third : Tree} (early : GrowsBelow root first second)
    (late : GrowsBelow root second third) : GrowsBelow root first third := by
  obtain ⟨added, rfl, below⟩ := early
  obtain ⟨more, rfl, belowMore⟩ := late
  refine ⟨added ++ more, List.append_assoc _ _ _, fun entry member => ?_⟩
  rcases List.mem_append.mp member with old | new
  · exact below entry old
  · exact belowMore entry new

theorem makeDirectories_growsBelow (rooted : tree.Rooted destination) (parts : List Str) :
    GrowsBelow destination tree (tree.makeDirectories [] (destination ++ parts)).1 := by
  rw [@FileTree.makeDirectories_below Str Bytes _ tree [] destination parts rooted, List.nil_append]
  obtain ⟨added, made, isMade⟩ := FileTree.makeDirectories_made tree destination parts
  exact ⟨added, made, fun entry member => (isMade.between entry member).1⟩

theorem createFile_growsBelow (tree : Tree) (parts : List Str) (content : Bytes) :
    GrowsBelow destination tree (tree.createFile (destination ++ parts) content).1 := by
  rcases FileTree.createFile_fst tree (destination ++ parts) content with same | added
  · rw [same]
    exact .refl destination tree
  · exact ⟨_, added, by simp⟩

theorem rooted_of_growsBelow {tree' : Tree} (rooted : tree.Rooted destination) (grows : GrowsBelow destination tree tree') :
    tree'.Rooted destination := by
  obtain ⟨added, rfl, -⟩ := grows
  exact rooted.append

theorem extractMembers_growsBelow (rooted : tree.Rooted destination) (plain : ∀ member ∈ members, PlainName member.name) :
    GrowsBelow destination tree (extractMembers destination tree members).2 := by
  induction members generalizing tree with
  | nil => exact .refl destination tree
  | cons first rest inductionHypothesis =>
    obtain ⟨isPlain, plain⟩ := List.forall_mem_cons.mp plain
    have onwards {tree' : Tree} (grows : GrowsBelow destination tree tree') :
        GrowsBelow destination tree (extractMembers destination tree' rest).2 :=
      grows.trans (inductionHypothesis (rooted_of_growsBelow rooted grows) plain)
    simp only [extractMembers, isPlain.memberPath, isPlain.memberParent]
    split
    next =>
      have made := makeDirectories_growsBelow rooted (pathParts first.name)
      split
      next isMade =>
        rw [isMade] at made
        exact onwards made
      next isMade =>
        rw [isMade] at made
        exact made
    next =>
      have made := makeDirectories_growsBelow rooted (pathParts first.name).dropLast
      split
      next isMade =>
        rw [isMade] at made
        exact made
      next tree' isMade =>
        rw [isMade] at made
        have created := @createFile_growsBelow destination tree' (pathParts first.name) first.data
        split
        next isCreated =>
          rw [isCreated] at created
          exact made.trans created
        next isCreated =>
          rw [isCreated] at created
          split
          · exact onwards (made.trans created)
          · exact made.trans created

/-- What an extraction leaves: the directories that lead to the destination, and what is below it. -/
structure Extracted (destination : List Str) (tree tree' : Tree) : Prop where
  grows : ∃ leading added, tree' = tree ++ leading ++ added ∧ FileTree.MadeBelow tree leading [] destination ∧
    (∀ entry ∈ added, destination <+: entry.1) ∧ (added = [] ∨ tree'.Rooted destination)

theorem extractArchive_extracted (tree : Tree) : Extracted destination tree (extractArchive free archive destination tree).2 := by
  obtain ⟨leading, made, isMade⟩ := FileTree.makeDirectories_made tree [] destination
  have nothing : Extracted destination tree (tree ++ leading) := ⟨leading, [], by simp, by simpa using isMade, by simp, .inl rfl⟩
  unfold extractArchive
  split
  next tree' failed =>
    rw [failed] at made
    simp only at made
    exact made ▸ nothing
  next tree' succeeded =>
    have rooted : tree'.Rooted destination := by
      have all := @FileTree.makeDirectories_rooted Str Bytes _ tree [] destination
        (fun upper nonempty isUpper => absurd (List.prefix_nil.mp isUpper) nonempty) (by rw [succeeded])
      rw [succeeded] at all
      simpa using all
    rw [succeeded] at made
    simp only at made
    split
    next => exact made ▸ nothing
    next members =>
      split
      next => exact made ▸ nothing
      next valid =>
        split
        next => exact made ▸ nothing
        next =>
          have grows := extractMembers_growsBelow rooted fun member listed => (validateMembers_plain valid member listed).1
          have stillRooted := rooted_of_growsBelow rooted grows
          obtain ⟨added, isAdded, below⟩ := grows
          exact ⟨leading, added, made ▸ isAdded, by simpa using isMade, below, .inr stillRooted⟩

/-! ## Restores -/

/-- The path is as it was, or a directory that leads to the destination and was not there. -/
def UnchangedOrLeading (destination : List Str) (tree tree' : Tree) (path : List Str) : Prop :=
  tree'.entryAt? path = tree.entryAt? path ∨
    tree.entryAt? path = none ∧ path <+: destination ∧ tree'.entryAt? path = some .directory

theorem Extracted.outside {tree' : Tree} (extracted : Extracted destination tree tree') (outside : ¬ destination <+: path) :
    UnchangedOrLeading destination tree tree' path := by
  obtain ⟨leading, added, rfl, made, below, -⟩ := extracted.grows
  have absent : FileTree.entryAt? added path = none :=
    FileTree.entryAt?_eq_none.mpr fun entry member same => outside (same ▸ below entry member)
  rw [UnchangedOrLeading, FileTree.entryAt?_append_of_none absent, FileTree.entryAt?_append]
  cases isLeading : FileTree.entryAt? leading path with
  | none => exact .inl Option.or_none
  | some entry =>
    have member := FileTree.mem_of_entryAt? isLeading
    have isDirectory : entry = .directory := made.directories _ member
    refine .inr ⟨made.wereAbsent _ member, by simpa using (made.between _ member).2.2, ?_⟩
    rw [made.wereAbsent _ member, isDirectory]
    rfl

/-- Where the destination could not be made, nothing is below it. -/
theorem Extracted.fresh {tree' : Tree} (extracted : Extracted destination tree tree') (fresh : tree.Fresh destination)
    (nonempty : destination ≠ []) (absent : tree'.entryAt? destination = none) : tree'.Fresh destination := by
  obtain ⟨leading, added, rfl, made, -, noneOrRooted⟩ := extracted.grows
  intro path isBelow
  refine FileTree.entryAt?_eq_none.mpr fun entry member same => ?_
  subst same
  rcases List.mem_append.mp member with early | late
  · rcases List.mem_append.mp early with old | leads
    · exact FileTree.entryAt?_eq_none.mp (fresh entry.1 isBelow) entry old rfl
    · have upper : entry.1 <+: destination := by simpa using (made.between entry leads).2.2
      have same : entry.1 = destination := upper.eq_of_length_le isBelow.length_le
      exact FileTree.entryAt?_eq_none.mp absent entry member same
  · rcases noneOrRooted with rfl | rooted
    · cases late
    · rw [rooted destination nonempty (List.prefix_refl _)] at absent
      cases absent

theorem restoreArchive_outside (outside : ¬ destination <+: path) :
    UnchangedOrLeading destination tree (restoreArchive host free archive destination allowIncomplete tree).2 path := by
  have extracted := @extractArchive_extracted free archive destination tree
  unfold restoreArchive
  split
  next => exact .inl rfl
  next =>
    simp only
    split
    next => exact extracted.outside outside
    next =>
      simp only
      split
      next =>
        rw [UnchangedOrLeading, FileTree.entryAt?_removeBelow_of_not_prefix outside]
        exact extracted.outside outside
      next => exact extracted.outside outside

theorem restoreArchive_failed (fresh : tree.Fresh destination) {error : BackupError}
    (failed : (restoreArchive host free archive destination allowIncomplete tree).1 = .error error) :
    (restoreArchive host free archive destination allowIncomplete tree).2.Fresh destination := by
  have extracted := @extractArchive_extracted free archive destination tree
  revert failed
  unfold restoreArchive
  split
  next => exact fun _ => fresh
  next there =>
    simp only
    split
    next =>
      intro failed
      cases failed
    next =>
      intro _
      simp only
      split
      next => exact fun path isBelow => FileTree.entryAt?_removeBelow_of_prefix isBelow
      next absent =>
        simp only [Bool.or_eq_true, List.isEmpty_iff, not_or] at there
        exact extracted.fresh fresh there.1 (by simpa using absent)

end

end Oveo.Restore
