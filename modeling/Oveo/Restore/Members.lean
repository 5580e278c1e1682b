import Oveo.Restore.Confined
import Oveo.Restore.Staging

/-! # The members of an archive

The names `create_archive` gives its members are among those `restore_archive` accepts.  A file that two
names share is added as a link the second time, and no link is accepted. -/

namespace Oveo.Restore

open Oveo.Lib Oveo.Docx Oveo.Attachments

section

variable {host : Host} {source : Source} {references : List Reference} {files : List StagedFile} {missing : List Str}
  {destination : List Str} {tree ground : Tree} {manifest snapshot : Bytes} {name : Str} {members : List Member}

/-! ## Names -/

theorem safeStorageName_spec (safe : safeStorageName name = true) :
    name ≠ [] ∧ slash ∉ name ∧ backslash ∉ name ∧ name ≠ str "." ∧ name ≠ str ".." := by
  simp only [safeStorageName, Bool.and_eq_true, Bool.not_eq_true', List.isEmpty_eq_false_iff, bne_iff_ne,
    List.contains_eq_mem, decide_eq_false_iff_not] at safe
  exact ⟨safe.1.1.1.1.1, safe.1.2, safe.2, safe.1.1.1.2, safe.1.1.2⟩

/-- The name of an attachment in an archive. -/
def attachmentName (storageName : Str) : Str := str "attachments/" ++ storageName

theorem attachmentName_eq (storageName : Str) : attachmentName storageName = str "attachments" ++ slash :: storageName := rfl

theorem pathParts_attachmentName (safe : safeStorageName name = true) : pathParts (attachmentName name) = [str "attachments", name] := by
  obtain ⟨nonempty, plain, -, notDot, -⟩ := safeStorageName_spec safe
  have first : slash ∉ str "attachments" := by decide
  rw [pathParts, attachmentName_eq, List.splitOn_append_cons_self_of_not_mem first, List.splitOn_eq_singleton plain,
    List.filter_cons_of_pos (by decide), List.filter_cons_of_pos (by simp [nonempty, notDot]), List.filter_nil]

theorem attachmentName_injective : Function.Injective attachmentName := fun _ _ same => List.append_cancel_left same

theorem plainName_attachmentName (safe : safeStorageName name = true) : PlainName (attachmentName name) := by
  refine ⟨rfl, ?_⟩
  rw [pathParts_attachmentName safe]
  simp only [List.mem_cons, List.not_mem_nil, or_false, not_or]
  exact ⟨by decide, (safeStorageName_spec safe).2.2.2.2.symm⟩

/-! ## Members -/

/-- `_validate_member` accepts the member, apart from its name being new. -/
structure ValidMember (member : Member) : Prop where
  nonempty : member.name ≠ []
  plain : PlainName member.name
  noBackslash : backslash ∉ member.name
  allowed : allowedName member.name = true
  kind : member.kind ≠ .other

theorem validateMembers_of_valid {seen : List Str} (valid : ∀ member ∈ members, ValidMember member)
    (nodup : (members.map Member.name).Nodup) (new : ∀ member ∈ members, member.name ∉ seen) :
    validateMembers seen members = .ok () := by
  induction members generalizing seen with
  | nil => rfl
  | cons member members inductionHypothesis =>
    obtain ⟨isValid, valid⟩ := List.forall_mem_cons.mp valid
    obtain ⟨isNew, new⟩ := List.forall_mem_cons.mp new
    obtain ⟨distinct, nodup⟩ := List.nodup_cons.mp nodup
    rw [validateMembers, if_neg (by simp [isValid.nonempty, isValid.plain.relative, isValid.plain.down, isValid.noBackslash]),
      if_neg (by simpa using isNew), if_neg (by simp [isValid.allowed, isValid.kind])]
    refine inductionHypothesis valid nodup fun other listed seenBefore => ?_
    rcases List.mem_cons.mp seenBefore with same | earlier
    · exact distinct (same ▸ List.mem_map_of_mem listed)
    · exact new other listed earlier

theorem validMember_attachment (safe : safeStorageName name = true) (content : Bytes) :
    ValidMember (regularMember (attachmentName name) content) where
  nonempty := by simp [regularMember, attachmentName, str]
  plain := plainName_attachmentName safe
  noBackslash := by
    have first : backslash ∉ str "attachments/" := by decide
    simpa [regularMember, attachmentName, first] using (safeStorageName_spec safe).2.2.1
  allowed := by
    have isPrefix : (str "attachments/").isPrefixOf (attachmentName name) = true :=
      List.isPrefixOf_iff_prefix.mpr (List.prefix_append _ _)
    simp [regularMember, allowedName, isPrefix]
  kind := by simp [regularMember]

/-- The members of the attachments where no file is there twice. -/
def attachmentMembers (files : List StagedFile) : List Member := files.map fun file => regularMember (attachmentName file.storageName) file.content

theorem addStaged_of_distinct {seen : List StagedInode} (nodup : (files.map StagedFile.inode).Nodup)
    (new : ∀ file ∈ files, file.inode ∉ seen) : addStaged seen files = attachmentMembers files := by
  induction files generalizing seen with
  | nil => rfl
  | cons file files inductionHypothesis =>
    obtain ⟨isNew, new⟩ := List.forall_mem_cons.mp new
    obtain ⟨distinct, nodup⟩ := List.nodup_cons.mp nodup
    rw [addStaged, if_neg isNew, attachmentMembers, List.map_cons]
    refine congrArg _ (inductionHypothesis nodup fun other listed seenBefore => ?_)
    rcases List.mem_cons.mp seenBefore with same | earlier
    · exact distinct (same ▸ List.mem_map_of_mem listed)
    · exact new other listed earlier

/-- A file that is in the archive already is added as a link. -/
theorem addStaged_has_link {seen : List StagedInode} (shared : ¬ ((files.map StagedFile.inode).Nodup ∧ ∀ file ∈ files, file.inode ∉ seen)) :
    ∃ member ∈ addStaged seen files, member.kind = .other := by
  induction files generalizing seen with
  | nil => exact absurd ⟨.nil, by simp⟩ shared
  | cons file files inductionHypothesis =>
    by_cases isSeen : file.inode ∈ seen
    · exact ⟨_, List.mem_cons_self, by rw [if_pos isSeen]⟩
    · have later : ¬ ((files.map StagedFile.inode).Nodup ∧ ∀ other ∈ files, other.inode ∉ file.inode :: seen) := by
        rintro ⟨nodup, new⟩
        refine shared ⟨List.nodup_cons.mpr ⟨fun listed => ?_, nodup⟩, List.forall_mem_cons.mpr ⟨isSeen, fun other isOther => ?_⟩⟩
        · obtain ⟨other, isOther, same⟩ := List.mem_map.mp listed
          exact new other isOther (same ▸ List.mem_cons_self)
        · exact fun seenBefore => new other isOther (List.mem_cons_of_mem _ seenBefore)
      obtain ⟨member, listed, isLink⟩ := inductionHypothesis later
      exact ⟨member, List.mem_cons_of_mem _ listed, isLink⟩

end

end Oveo.Restore
