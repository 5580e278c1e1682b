import Oveo.Docx.Edited
import Oveo.Docx.Numbering

/-! # Patching an accepted replacement

A replacement that `validate_replacements` takes has the links of its paragraph, so patching raises only where
the paragraph has no place for the text: none of its items is shown. -/

namespace Oveo.Docx

open Oveo.Lib

/-! ## Nodes of a tree -/

/-- All elements with their children, in document order. -/
def Forest.allNodes : Forest → List (Element × Forest)
  | nil => []
  | node element children next => (element, children) :: (children.allNodes ++ next.allNodes)

theorem allNodes_elements (forest : Forest) : forest.allNodes.map Prod.fst = forest.elements := by
  induction forest with
  | nil => rfl
  | node element children next childrenHypothesis nextHypothesis =>
    rw [Forest.allNodes, List.map_cons, List.map_append, childrenHypothesis, nextHypothesis, Forest.elements]

theorem allNodes_of_own {ancestors : List Tag} {forest : Forest} {node : Node} (listed : node ∈ ownFrom ancestors forest) :
    (node.element, node.children) ∈ forest.allNodes := by
  induction forest generalizing ancestors with
  | nil => cases listed
  | node element children next childrenHypothesis nextHypothesis =>
    rw [ownFrom, List.mem_cons, List.mem_append] at listed
    rw [Forest.allNodes, List.mem_cons, List.mem_append]
    rcases listed with rfl | below | later
    · exact .inl rfl
    · split at below
      next => cases below
      next => exact .inr (.inl (childrenHypothesis below))
    · exact .inr (.inr (nextHypothesis later))

/-- Where every element is its own, it has one place in the tree. -/
theorem node_once {forest : Forest} {first second : Element × Forest} (distinct : forest.elements.Nodup) (isFirst : first ∈ forest.allNodes)
    (isSecond : second ∈ forest.allNodes) (same : first.1 = second.1) : first = second := by
  rw [← allNodes_elements] at distinct
  exact List.inj_on_of_nodup_map distinct isFirst isSecond same

/-! ## Paragraphs of an extracted document -/

section

variable {isHyperlinkInstruction : Str → Bool} {relationships : List Str} {document : DocumentPart} {paragraphs : List Paragraph}
  {count linkNumber : Nat} {parsed : List (Paragraph × DocxBlock)} {paragraph : Paragraph} {block : DocxBlock}

theorem block_of_parsed (isParsed : parseParagraphs isHyperlinkInstruction relationships count linkNumber paragraphs = .ok parsed)
    (listed : (paragraph, block) ∈ parsed) : paragraph ∈ paragraphs ∧ ∃ number before last,
      paragraphBlock isHyperlinkInstruction paragraph.inTableCell number before relationships paragraph.children = .ok (some block, last) ∧
        before + paragraph.numbered isHyperlinkInstruction ≤
          linkNumber + (paragraphs.map fun paragraph => paragraph.numbered isHyperlinkInstruction).sum := by
  induction paragraphs generalizing count linkNumber parsed with
  | nil =>
    cases isParsed
    cases listed
  | cons first paragraphs inductionHypothesis =>
    rw [parseParagraphs] at isParsed
    obtain ⟨⟨taken, last⟩, isBlock, isParsed⟩ := ok_bind_iff.mp isParsed
    have isLast : last = linkNumber + first.numbered isHyperlinkInstruction := (paragraphBlock_taken isBlock).1
    rw [List.map_cons, List.sum_cons]
    have later {count : Nat} {rest : List (Paragraph × DocxBlock)}
        (isRest : parseParagraphs isHyperlinkInstruction relationships count last paragraphs = .ok rest) (listed : (paragraph, block) ∈ rest) :
        paragraph ∈ first :: paragraphs ∧ ∃ number before last,
          paragraphBlock isHyperlinkInstruction paragraph.inTableCell number before relationships paragraph.children = .ok (some block, last) ∧
            before + paragraph.numbered isHyperlinkInstruction ≤ linkNumber + (first.numbered isHyperlinkInstruction +
              (paragraphs.map fun paragraph => paragraph.numbered isHyperlinkInstruction).sum) := by
      obtain ⟨isParagraph, number, before, after, isBuilt, bound⟩ := inductionHypothesis isRest listed
      exact ⟨List.mem_cons_of_mem _ isParagraph, number, before, after, isBuilt, by omega⟩
    cases taken with
    | none => exact later isParsed listed
    | some taken =>
      rw [ite_error_eq_ok] at isParsed
      obtain ⟨rest, isRest, isParsed⟩ := ok_bind_iff.mp isParsed.2
      cases isParsed
      rcases List.mem_cons.mp listed with same | listed
      · cases same
        exact ⟨List.mem_cons_self, _, linkNumber, last, isBlock, by omega⟩
      · exact later isRest listed

theorem parsePackage_ok (isParsed : parsePackage isHyperlinkInstruction relationships document = .ok parsed) :
    ∃ paragraphs, document.isTooComplex = false ∧ bodyParagraphs document = .ok paragraphs ∧
      parseParagraphs isHyperlinkInstruction relationships 0 0 paragraphs = .ok parsed := by
  rw [parsePackage, ite_error_eq_ok, ite_error_eq_ok] at isParsed
  obtain ⟨bounded, -, isParsed⟩ := isParsed
  obtain ⟨paragraphs, areParagraphs, isParsed⟩ := ok_bind_iff.mp isParsed
  obtain ⟨others, isParsed, nonempty⟩ := ok_bind_iff.mp isParsed
  obtain ⟨-, same⟩ := ite_error_eq_ok.mp nonempty
  cases same
  exact ⟨paragraphs, by simpa using bounded, areParagraphs, isParsed⟩

/-- An editable paragraph of an extracted document is a block, with links numbered in six digits. -/
theorem isBlock_of_parsed (isParsed : parsePackage isHyperlinkInstruction relationships document = .ok parsed)
    (listed : (paragraph, block) ∈ parsed) : ∃ paragraphs before layout, bodyParagraphs document = .ok paragraphs ∧ paragraph ∈ paragraphs ∧
      IsBlock isHyperlinkInstruction relationships before paragraph.children block layout ∧ before + layout.parts.length < 1000000 := by
  obtain ⟨paragraphs, bounded, areParagraphs, isParsed⟩ := parsePackage_ok isParsed
  obtain ⟨isParagraph, number, before, last, built, within⟩ := block_of_parsed isParsed listed
  obtain ⟨layout, isBlock⟩ := paragraphBlock_eq_some built
  refine ⟨paragraphs, before, layout, areParagraphs, isParagraph, isBlock, ?_⟩
  have total := @few_of_bounded isHyperlinkInstruction _ _ bounded areParagraphs
  rw [(kept_links (layout?_of_isBlock isBlock) (paragraphBlock_taken built).2.symm).1] at within
  omega

theorem nodes_of_paragraph {ancestors : List Tag} {forest : Forest} (listed : paragraph ∈ paragraphsFrom ancestors forest) :
    ((paragraph.element, paragraph.children) :: paragraph.children.allNodes).Sublist forest.allNodes := by
  induction forest generalizing ancestors with
  | nil => cases listed
  | node element children next childrenHypothesis nextHypothesis =>
    rw [Forest.allNodes]
    rw [paragraphsFrom, List.mem_append] at listed
    rcases listed with here | later
    · split at here
      next =>
        cases List.mem_singleton.mp here
        exact List.Sublist.cons_cons _ (List.sublist_append_left _ _)
      next => exact List.Sublist.cons _ ((childrenHypothesis here).trans (List.sublist_append_left _ _))
    · exact List.Sublist.cons _ ((nextHypothesis later).trans (List.sublist_append_right _ _))

theorem nodes_of_body {ancestors : List Tag} {forest : Forest} {body : List Tag × Forest} (listed : body ∈ bodiesFrom ancestors forest) :
    body.2.allNodes.Sublist forest.allNodes := by
  induction forest generalizing ancestors with
  | nil => cases listed
  | node element children next childrenHypothesis nextHypothesis =>
    rw [Forest.allNodes]
    rw [bodiesFrom, List.mem_append] at listed
    rcases listed with here | later
    · refine List.Sublist.cons _ (List.Sublist.trans ?_ (List.sublist_append_left _ _))
      split at here
      next =>
        rcases List.mem_cons.mp here with rfl | below
        · exact List.Sublist.refl _
        · exact childrenHypothesis below
      next => exact childrenHypothesis here
    · exact List.Sublist.cons _ ((nextHypothesis later).trans (List.sublist_append_right _ _))

/-- A paragraph of the body, and all that is below it, is of the tree. -/
theorem nodes_of_document (areParagraphs : bodyParagraphs document = .ok paragraphs) (listed : paragraph ∈ paragraphs) :
    ((paragraph.element, paragraph.children) :: paragraph.children.allNodes).Sublist document.tree.allNodes := by
  rw [bodyParagraphs] at areParagraphs
  split at areParagraphs
  next =>
    cases areParagraphs
    cases listed
  next ancestors body isBody =>
    cases areParagraphs
    exact (nodes_of_paragraph listed).trans (nodes_of_body (isBody ▸ List.mem_singleton_self (ancestors, body)))
  next => cases areParagraphs

/-- The paragraphs of a document that is as it was read are too. -/
theorem IsTemplate.ofParagraph (isTemplate : IsTemplate document.tree) (areParagraphs : bodyParagraphs document = .ok paragraphs)
    (listed : paragraph ∈ paragraphs) : IsTemplate paragraph.children := by
  have sublist : paragraph.children.elements.Sublist document.tree.elements := by
    rw [← allNodes_elements, ← allNodes_elements]
    exact ((List.sublist_cons_self _ _).trans (nodes_of_document areParagraphs listed)).map Prod.fst
  exact ⟨fun element isElement => isTemplate.own element (sublist.subset isElement), (sublist.map _).nodup isTemplate.distinct⟩

end

/-! ## Edits of an accepted replacement -/

section

variable {isHyperlinkInstruction : Str → Bool} {relationships : List Str} {linkNumber : Nat} {children : Forest} {block : DocxBlock}
  {layout : Layout} {text : Str} {plains : List Str} {displays : List (Str × Str)}

theorem scanLinks_nil_iff (skip : Nat) (plain text : Str) : (scanLinks skip plain text).1 = [] → skip = 0 →
    (scanLinks skip plain text).2 = plain ++ text := by
  induction text generalizing skip plain with
  | nil =>
    intro _ _
    rw [scanLinks, List.append_nil]
  | cons c rest inductionHypothesis =>
    rintro found rfl
    rw [scanLinks] at found ⊢
    split at found
    next => cases found
    next => exact (inductionHypothesis 0 (plain ++ [c]) found rfl).trans (List.append_assoc _ _ _)

/-- There is one more plain text than there are links, and without links it is the whole text. -/
theorem linkParts_plains (isParts : linkParts text = .ok (plains, displays)) :
    plains.length = displays.length + 1 ∧ (displays = [] → plains = [text]) := by
  unfold linkParts at isParts
  dsimp only at isParts
  rw [ite_error_eq_ok] at isParts
  cases isParts.2
  refine ⟨by simp, fun noLinks => ?_⟩
  have found := List.map_eq_nil_iff.mp noLinks
  rw [scanLinks_nil_iff 0 [] text found rfl, found]
  rfl

/-- The first loop raises where there is text and neither an item nor a link before it. -/
theorem plainEdits_isOk_iff {behind : Option Link} {last : List Node} {parts : List (List Node × Link)} {values : List Str}
    (lengths : values.length = parts.length + 1) : (∃ edits, plainEdits behind last parts values = .ok edits) ↔
      (behind = none → parts = [] → last = [] → values = [[]]) := by
  induction parts generalizing behind values with
  | nil =>
    obtain ⟨value, rfl⟩ := List.length_eq_one_iff.mp lengths
    cases last with
    | cons item items => exact iff_of_true ⟨_, rfl⟩ fun _ _ impossible => by cases impossible
    | nil =>
      cases behind with
      | some link => exact iff_of_true ⟨_, rfl⟩ fun impossible => by cases impossible
      | none =>
        have isEdits : plainEdits none [] [] [value] = if value.isEmpty then .ok [] else .error templateChanged := rfl
        rw [isEdits]
        by_cases noText : value = []
        · subst noText
          exact iff_of_true ⟨_, rfl⟩ fun _ _ _ => rfl
        · refine iff_of_false ?_ fun isEmpty => noText (List.singleton_inj.mp (isEmpty rfl rfl rfl))
          simp [noText]
  | cons part parts inductionHypothesis =>
    cases values with
    | nil => cases lengths
    | cons value values =>
      have rest : ∃ edits, plainEdits (some part.2) last parts values = .ok edits :=
        (inductionHypothesis (Nat.succ_inj.mp lengths)).mpr fun impossible => by cases impossible
      obtain ⟨edits, isRest⟩ := rest
      refine iff_of_true ?_ fun _ impossible => by cases impossible
      rw [plainEdits, isRest]
      exact ⟨_, rfl⟩

theorem displayEdits_isOk {links : List Link} (shown : ∀ link ∈ links, link.items ≠ []) (displays : List (Str × Str)) :
    ∃ edits, displayEdits links displays = .ok edits := by
  induction links generalizing displays with
  | nil => exact ⟨[], by rw [displayEdits]; simp⟩
  | cons link links inductionHypothesis =>
    obtain ⟨hasItems, shown⟩ := List.forall_mem_cons.mp shown
    cases displays with
    | nil => exact ⟨[], by rw [displayEdits]; simp⟩
    | cons display displays =>
      obtain ⟨edits, isRest⟩ := inductionHypothesis shown displays
      rw [displayEdits, if_neg (by simpa using hasItems), isRest]
      exact ⟨_, rfl⟩

theorem items_of_link (isBlock : IsBlock isHyperlinkInstruction relationships linkNumber children block layout) :
    ∀ link ∈ layout.links, link.items ≠ [] := by
  intro link listed noItems
  obtain ⟨part, isPart, rfl⟩ := List.mem_map.mp listed
  have shown := (isBlock.areLinkParts part isPart).shown
  rw [noItems] at shown
  exact shown rfl

/-- The edits of a text with as many links as the paragraph has are made, but for a text without a place. -/
theorem paragraphEdits_isOk_iff (isBlock : IsBlock isHyperlinkInstruction relationships linkNumber children block layout)
    (isParts : linkParts text = .ok (plains, displays)) (sameLinks : displays.length = layout.parts.length) :
    (∃ edits, paragraphEdits layout text = .ok edits) ↔ (layout.items = [] → text = []) := by
  have isLinks : layout.links.length = displays.length := by rw [Layout.links, List.length_map, sameLinks]
  obtain ⟨onePlain, isWhole⟩ := linkParts_plains isParts
  obtain ⟨display, isDisplay⟩ := displayEdits_isOk (items_of_link isBlock) displays
  have plainIff := @plainEdits_isOk_iff none layout.last layout.parts plains (by rw [onePlain, sameLinks])
  have noItems : layout.items = [] ↔ layout.parts = [] ∧ layout.last = [] := by
    rw [Layout.items, List.append_eq_nil_iff, List.flatMap_eq_nil_iff]
    refine and_congr_left fun _ => ⟨fun areEmpty => ?_, fun none => none ▸ List.forall_mem_nil _⟩
    by_contra some
    obtain ⟨part, isPart⟩ := List.exists_mem_of_ne_nil _ some
    exact items_of_link isBlock part.2 (List.mem_map_of_mem isPart) (List.append_eq_nil_iff.mp (areEmpty part isPart)).2
  have edits : (∃ edits, paragraphEdits layout text = .ok edits) ↔ ∃ edits, plainEdits none layout.last layout.parts plains = .ok edits := by
    rw [paragraphEdits, isParts, ok_bind_eq]
    simp only [isLinks, ne_eq, not_true_eq_false, if_false, isDisplay, ok_bind_iff, pure_eq_ok, Except.ok.injEq]
    constructor
    · rintro ⟨_, plain, isPlain, -⟩
      exact ⟨plain, isPlain⟩
    · rintro ⟨plain, isPlain⟩
      exact ⟨_, plain, isPlain, display, rfl, rfl⟩
  rw [edits, plainIff, noItems]
  constructor
  · rintro isEmpty ⟨noParts, noLast⟩
    have noLinks : displays = [] := List.length_eq_zero_iff.mp (sameLinks.trans (List.length_eq_zero_iff.mpr noParts))
    exact List.singleton_inj.mp ((isWhole noLinks).symm.trans (isEmpty rfl noParts noLast))
  · rintro isEmpty - noParts noLast
    have noLinks : displays = [] := List.length_eq_zero_iff.mp (sameLinks.trans (List.length_eq_zero_iff.mpr noParts))
    rw [isWhole noLinks, isEmpty ⟨noParts, noLast⟩]

/-- An accepted replacement has the id of the block and the links of the paragraph, in order and none of them empty. -/
theorem parts_of_accepted {candidate : ReplacementCandidate} {replacement : DocxReplacement}
    (isBlock : IsBlock isHyperlinkInstruction relationships linkNumber children block layout) (few : linkNumber + layout.parts.length < 1000000)
    (accepted : validateReplacement block candidate = .ok replacement) :
    replacement.id = block.id ∧ ∃ plains displays, linkParts replacement.text = .ok (plains, displays) ∧
      displays.map Prod.fst = (tokensOf linkNumber layout.parts).map Prod.fst ∧ ∀ link ∈ displays, link.2 ≠ [] := by
  simp only [validateReplacement, throw_bind, ite_error_eq_ok, ok_bind_iff, pure_eq_ok, Except.ok.injEq, Prod.exists,
    Bool.not_eq_true', Bool.not_eq_false] at accepted
  obtain ⟨taken, -, sameId, -, ownPlains, ownLinks, isOwn, plains, displays, isParts, kept, rfl⟩ := accepted
  rw [linkParts_block isBlock few] at isOwn
  cases isOwn
  simp only [Bool.or_eq_true, Bool.not_eq_true', bne_iff_ne, ne_eq, not_or, not_not] at sameId
  simp only [linksKept, Bool.and_eq_true, beq_iff_eq, List.all_eq_true, Bool.not_eq_true', List.isEmpty_eq_false_iff] at kept
  exact ⟨sameId.2, plains, displays, isParts, kept.1.1.2, fun link listed => kept.2 link listed⟩

theorem links_of_accepted {candidate : ReplacementCandidate} {replacement : DocxReplacement}
    (isBlock : IsBlock isHyperlinkInstruction relationships linkNumber children block layout) (few : linkNumber + layout.parts.length < 1000000)
    (accepted : validateReplacement block candidate = .ok replacement) :
    ∃ plains displays, linkParts replacement.text = .ok (plains, displays) ∧ displays.length = layout.parts.length := by
  obtain ⟨-, plains, displays, isParts, sameLinks, -⟩ := parts_of_accepted isBlock few accepted
  have sameLength := congrArg List.length sameLinks
  rw [List.length_map, List.length_map, length_tokensOf] at sameLength
  exact ⟨plains, displays, isParts, sameLength⟩

/-- Each replacement of an accepted map is accepted for its block. -/
theorem accepted_of_zip {blocks : List DocxBlock} {candidates : List ReplacementCandidate} {validated : List DocxReplacement}
    {replacement : DocxReplacement} (accepted : validateEach blocks candidates = .ok validated) (listed : (block, replacement) ∈ blocks.zip validated) :
    ∃ candidate, validateReplacement block candidate = .ok replacement := by
  induction blocks generalizing candidates validated with
  | nil => cases listed
  | cons first blocks inductionHypothesis =>
    cases candidates with
    | nil =>
      cases accepted
      cases listed
    | cons candidate candidates =>
      obtain ⟨taken, isTaken, accepted⟩ := ok_bind_iff.mp accepted
      obtain ⟨rest, isRest, accepted⟩ := ok_bind_iff.mp accepted
      cases accepted
      rcases List.mem_cons.mp listed with same | listed
      · cases same
        exact ⟨candidate, isTaken⟩
      · exact inductionHypothesis isRest listed

/-- Patching an accepted replacement raises just where there is text and no item. -/
theorem patchParagraph_isOk_iff (isBlock : IsBlock isHyperlinkInstruction relationships linkNumber children block layout)
    (isParts : linkParts text = .ok (plains, displays)) (sameLinks : displays.length = layout.parts.length) :
    (∃ patched, patchParagraph isHyperlinkInstruction children text = .ok patched) ↔ (layout.items = [] → text = []) := by
  rw [← paragraphEdits_isOk_iff isBlock isParts sameLinks, patchParagraph, isBlock.isLayout]
  simp only [ok_bind_iff, pure_eq_ok, Except.ok.injEq]
  constructor
  · rintro ⟨_, edits, areEdits, -⟩
    exact ⟨edits, areEdits⟩
  · rintro ⟨edits, areEdits⟩
    exact ⟨_, edits, areEdits, rfl⟩

end

end Oveo.Docx
