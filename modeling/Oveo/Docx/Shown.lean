import Mathlib.Data.List.Basic
import Oveo.Docx.Layout

/-! # What a block shows of its paragraph

The stretches and links of a layout hold all items of the paragraph outside its properties, in
order.  Of a text node they show what stands before its first child. -/

namespace Oveo.Docx

open Oveo.Lib

/-! ## The items of a layout -/

section

variable {isHyperlinkInstruction : Str → Bool}

/-- The items found so far, in order. -/
def Scan.items (scan : Scan) : List Node :=
  scan.parts.flatMap (fun part => part.1 ++ part.2.items) ++ scan.current ++ (scan.field.bind Field.display).getD []

theorem Node.isInline_of_isInlineItem {node : Node} (isItem : node.isInlineItem = true) : node.element.tag.isInline = true := by
  simp only [Node.isInlineItem, Element.isInlineItem, Bool.or_eq_true, Bool.and_eq_true] at isItem
  rw [Tag.isInline, Bool.or_eq_true]
  exact isItem.imp_right fun isCharacter => isCharacter.1.1

theorem Node.not_isField_of_isInlineItem {node : Node} (isItem : node.isInlineItem = true) : node.element.tag.isField = false := by
  have isInline := Node.isInline_of_isInlineItem isItem
  cases isTag : node.element.tag <;> simp_all [Tag.isInline, inlineCharacter?, Tag.isField]

theorem Scan.items_item {scan next : Scan} {node : Node} (taken : scan.item node = some next) : next.items = scan.items ++ [node] := by
  rw [Scan.item] at taken
  split at taken
  next noField =>
    cases taken
    simp [Scan.items, noField]
  next field isField =>
    split at taken
    next => cases taken
    next display isDisplay =>
      cases taken
      simp [Scan.items, isField, isDisplay]

theorem Scan.items_fieldCharacter {scan next : Scan} {element : Element}
    (taken : scan.fieldCharacter isHyperlinkInstruction element = some next) : next.items = scan.items := by
  simp only [Scan.fieldCharacter] at taken
  split at taken
  next noField =>
    rw [Option.ite_none_right_eq_some] at taken
    obtain ⟨-, isNext⟩ := taken
    cases isNext
    simp [Scan.items, noField]
  next field isField =>
    split at taken
    next isCode =>
      rw [Option.ite_none_right_eq_some] at taken
      obtain ⟨-, isNext⟩ := taken
      cases isNext
      simp [Scan.items, isField, isCode]
    next display isDisplay =>
      rw [Option.ite_none_right_eq_some] at taken
      obtain ⟨-, isNext⟩ := taken
      cases isNext
      simp [Scan.items, isField, isDisplay]

theorem Scan.items_element {childTag : Tag} {scan next : Scan} {node : Node}
    (taken : scan.element isHyperlinkInstruction childTag node = some next) :
    next.items = scan.items ++ [node].filter Node.isInlineItem := by
  rw [Scan.element] at taken
  split at taken
  next isField =>
    have noItem : node.isInlineItem = false :=
      Bool.eq_false_iff.mpr fun isItem => by simp [Node.not_isField_of_isInlineItem isItem] at isField
    rw [List.filter_singleton, noItem, Bool.cond_false, List.append_nil]
    split at taken
    next => cases taken
    next =>
      split at taken
      next =>
        split at taken
        next start instruction isOpen =>
          cases taken
          simp [Scan.items, isOpen]
        next => cases taken
      next => exact Scan.items_fieldCharacter taken
  next =>
    rw [List.filter_singleton]
    split at taken
    next isItem =>
      rw [isItem]
      exact Scan.items_item taken
    next noItem =>
      cases taken
      rw [Bool.eq_false_iff.mpr noItem, Bool.cond_false, List.append_nil]

theorem Scan.items_elements {childTag : Tag} {scan next : Scan} {nodes : List Node}
    (taken : nodes.foldlM (Scan.element isHyperlinkInstruction childTag) scan = some next) :
    next.items = scan.items ++ nodes.filter Node.isInlineItem := by
  induction nodes generalizing scan with
  | nil =>
    cases taken
    simp
  | cons node nodes inductionHypothesis =>
    rw [List.foldlM_cons] at taken
    obtain ⟨between, isFirst, isRest⟩ := Option.bind_eq_some_iff.mp taken
    rw [inductionHypothesis isRest, Scan.items_element isFirst, List.append_assoc, ← List.filter_append, List.singleton_append]

/-- The items of a child of the paragraph that a block shows. -/
def shownItems (child : Element × Forest) : List Node :=
  if child.1.tag = .pPr then [] else (ownOf child).filter Node.isInlineItem

theorem Scan.items_child {scan next : Scan} {child : Element × Forest} (taken : scan.child isHyperlinkInstruction child = some next) :
    next.items = scan.items ++ shownItems child := by
  rw [shownItems]
  simp only [Scan.child] at taken
  split at taken
  next isProperties =>
    cases taken
    rw [if_pos isProperties, List.append_nil]
  next notProperties =>
    rw [if_neg notProperties]
    split at taken
    next =>
      rw [Option.ite_none_left_eq_some] at taken
      obtain ⟨accepted, isNext⟩ := taken
      cases isNext
      have noField : scan.field = none := by
        simp only [Bool.or_eq_true, not_or, Bool.not_eq_true, Option.isSome_eq_false_iff, Option.isNone_iff_eq_none] at accepted
        exact accepted.1.1
      simp [Scan.items, noField]
    next => exact Scan.items_elements taken

theorem Scan.items_children {scan next : Scan} {children : List (Element × Forest)}
    (taken : children.foldlM (Scan.child isHyperlinkInstruction) scan = some next) :
    next.items = scan.items ++ children.flatMap shownItems := by
  induction children generalizing scan with
  | nil =>
    cases taken
    simp
  | cons child children inductionHypothesis =>
    rw [List.foldlM_cons] at taken
    obtain ⟨between, isFirst, isRest⟩ := Option.bind_eq_some_iff.mp taken
    rw [inductionHypothesis isRest, Scan.items_child isFirst, List.append_assoc, List.flatMap_cons]

/-- A layout holds every item of the paragraph outside its properties, in order. -/
theorem layout_items {children : Forest} {layout : Layout} (isLayout : paragraphLayout isHyperlinkInstruction children = some layout) :
    layout.items = children.nodes.flatMap shownItems := by
  rw [paragraphLayout] at isLayout
  split at isLayout
  next parts current scanned =>
    cases isLayout
    have found := Scan.items_children scanned
    simpa [Scan.items, Layout.items] using found
  next => cases isLayout

end

/-! ## The text of a block -/

/-- The stretches and links up to the last stretch, as block text. -/
def renderParts (linkNumber : Nat) : List (List Node × Link) → Str
  | [] => []
  | (before, link) :: parts =>
    textOf before ++ renderLink (linkId (linkNumber + 1)) (textOf link.items) ++ renderParts (linkNumber + 1) parts

/-- A layout as block text. -/
def Layout.render (linkNumber : Nat) (layout : Layout) : Str := renderParts linkNumber layout.parts ++ textOf layout.last

theorem checkedText_eq_ok {items : List Node} {text : Str} : checkedText items = .ok text ↔
    hasReservedLinkText (textOf items) = false ∧ text = textOf items := by
  rw [checkedText, ite_error_eq_ok, Bool.not_eq_true, Except.ok.injEq, eq_comm (a := textOf items)]

/-- What a link and the stretch before it must be like. -/
structure IsLinkPart (relationships : List Str) (part : List Node × Link) : Prop where
  plainFree : hasReservedLinkText (textOf part.1) = false
  shown : textOf part.2.items ≠ []
  displayFree : hasReservedLinkText (textOf part.2.items) = false
  isKnown : part.2.isBroken relationships = false

/-- The texts of the links are built just where every link shows text and no text is reserved. -/
theorem linkTexts_iff {relationships : List Str} {linkNumber last : Nat} {parts : List (List Node × Link)} {text : Str} :
    linkTexts relationships linkNumber parts = .ok (some text, last) ↔
      (∀ part ∈ parts, IsLinkPart relationships part) ∧ text = renderParts linkNumber parts ∧ last = linkNumber + parts.length := by
  induction parts generalizing linkNumber text with
  | nil =>
    rw [linkTexts, Except.ok.injEq, Prod.mk.injEq, Option.some.injEq]
    exact ⟨fun same => ⟨List.forall_mem_nil _, same.1.symm, same.2.symm⟩, fun same => ⟨same.2.1.symm, same.2.2.symm⟩⟩
  | cons part parts inductionHypothesis =>
    obtain ⟨before, link⟩ := part
    rw [List.forall_mem_cons, linkTexts, List.length_cons]
    simp only [checkedText_eq_ok, ok_bind_iff]
    constructor
    · rintro ⟨plain, ⟨plainFree, rfl⟩, built⟩
      split at built
      next => cases built
      next isShown =>
        rw [ite_error_eq_ok, ite_error_eq_ok] at built
        obtain ⟨displayFree, isKnown, built⟩ := built
        simp only [ok_bind_iff, pure_eq_ok, Except.ok.injEq, Prod.mk.injEq, Prod.exists] at built
        obtain ⟨rest, final, isRest, isText, rfl⟩ := built
        cases rest with
        | none => cases isText
        | some rest =>
          cases isText
          obtain ⟨areParts, rfl, rfl⟩ := inductionHypothesis.mp isRest
          exact ⟨⟨⟨plainFree, by simpa using isShown, by simpa using displayFree, by simpa using isKnown⟩, areParts⟩, rfl, by omega⟩
    · rintro ⟨⟨⟨plainFree, isShown, displayFree, isKnown⟩, areParts⟩, rfl, rfl⟩
      have isRest := (@inductionHypothesis (linkNumber + 1) (renderParts (linkNumber + 1) parts)).mpr ⟨areParts, rfl, by omega⟩
      refine ⟨textOf before, ⟨plainFree, rfl⟩, ?_⟩
      rw [if_neg (by simpa using isShown), if_neg (by simpa using displayFree), if_neg (by simpa using isKnown), isRest]
      rfl

/-- What a paragraph that became a block is like. -/
structure IsBlock (isHyperlinkInstruction : Str → Bool) (relationships : List Str) (linkNumber : Nat) (children : Forest) (block : DocxBlock)
    (layout : Layout) : Prop where
  isLayout : paragraphLayout isHyperlinkInstruction children = some layout
  noAlternate : hasOwnAlternateContent children = false
  noInteriorBreak : hasInteriorLayoutBreak children = false
  links : ∃ text last, linkTexts relationships linkNumber layout.parts = .ok (some text, last)
  lastFree : hasReservedLinkText (textOf layout.last) = false
  hasText : ∃ node ∈ ownTextNodes children, node.element.text ≠ []
  text : block.text = layout.render linkNumber

theorem IsBlock.areLinkParts {isHyperlinkInstruction : Str → Bool} {relationships : List Str} {linkNumber : Nat} {children : Forest}
    {block : DocxBlock} {layout : Layout} (isBlock : IsBlock isHyperlinkInstruction relationships linkNumber children block layout) :
    ∀ part ∈ layout.parts, IsLinkPart relationships part := by
  obtain ⟨text, last, built⟩ := isBlock.links
  exact (linkTexts_iff.mp built).1

theorem paragraphBlock_eq_some {isHyperlinkInstruction : Str → Bool} {inTableCell : Bool} {blockNumber linkNumber last : Nat}
    {relationships : List Str} {children : Forest} {block : DocxBlock}
    (built : paragraphBlock isHyperlinkInstruction inTableCell blockNumber linkNumber relationships children = .ok (some block, last)) :
    ∃ layout, IsBlock isHyperlinkInstruction relationships linkNumber children block layout := by
  rw [paragraphBlock] at built
  split at built
  next => cases built
  next layout isLayout =>
    split at built
    next => cases built
    next noAlternate =>
      split at built
      next => cases built
      next noInteriorBreak =>
        rw [ite_error_eq_ok] at built
        obtain ⟨⟨text, final⟩, isText, built⟩ := ok_bind_iff.mp built.2
        cases text with
        | none => cases built
        | some text =>
          obtain ⟨tail, isTail, built⟩ := ok_bind_iff.mp built
          obtain ⟨lastFree, rfl⟩ := checkedText_eq_ok.mp isTail
          split at built
          next => cases built
          next hasText =>
            cases built
            refine ⟨layout, isLayout, by simpa using noAlternate, by simpa using noInteriorBreak, ⟨text, last, isText⟩, lastFree, ?_, ?_⟩
            · simpa using hasText
            · rw [(linkTexts_iff.mp isText).2.1, Layout.render]

/-! ## Shown content -/

/-- The character content of a node behind its first child. -/
def Node.hidden (node : Node) : Str := node.children.nodes.flatMap fun child => child.1.tail

/-- The character content of the paragraph's own text nodes, in order. -/
def textContent (children : Forest) : Str := (ownTextNodes children).flatMap Node.instructionText

/-- What the items of a layout show of text nodes, in order. -/
def Layout.textContent (layout : Layout) : Str := (layout.items.filter Node.isText).flatMap Node.itemText

/-- The texts that a child of the paragraph shows, and that it holds. -/
def shownContent (child : Element × Forest) : Str := ((shownItems child).filter Node.isText).flatMap Node.itemText

def heldContent (child : Element × Forest) : Str := ((ownOf child).filter Node.isText).flatMap Node.instructionText

theorem itemText_of_isText {node : Node} (isText : node.isText = true) : node.instructionText = node.itemText ++ node.hidden := by
  rw [Node.itemText, Element.itemText, if_pos (by simpa [Node.isText] using isText), Node.instructionText, Node.hidden]

theorem filter_shownItems (child : Element × Forest) :
    (shownItems child).filter Node.isText = if child.1.tag = .pPr then [] else (ownOf child).filter Node.isText := by
  rw [shownItems]
  split
  next => rfl
  next =>
    rw [List.filter_filter]
    refine List.filter_congr fun node _ => ?_
    cases isText : node.isText
    · rfl
    · simp only [Node.isText] at isText
      simp [Node.isInlineItem, Element.isInlineItem, isText]

/-- Of texts none of which is longer, the concatenation is the same only when each of them is. -/
theorem flatMap_eq_flatMap_iff {α : Type} {entries : List α} {first second : α → Str}
    (cut : ∀ entry ∈ entries, (first entry).length ≤ (second entry).length) :
    (entries.flatMap first).length ≤ (entries.flatMap second).length ∧
      (entries.flatMap first = entries.flatMap second ↔ ∀ entry ∈ entries, first entry = second entry) := by
  induction entries with
  | nil => exact ⟨Nat.le_refl _, fun _ _ listed => (nomatch listed), fun _ => rfl⟩
  | cons entry entries inductionHypothesis =>
    obtain ⟨isCut, areCut⟩ := List.forall_mem_cons.mp cut
    obtain ⟨shorter, restIff⟩ := inductionHypothesis areCut
    rw [List.forall_mem_cons, ← restIff, List.flatMap_cons, List.flatMap_cons]
    refine ⟨by simp only [List.length_append]; omega, fun same => ?_, fun ⟨isFirst, areRest⟩ => by rw [isFirst, areRest]⟩
    have lengths := congrArg List.length same
    simp only [List.length_append] at lengths
    exact List.append_inj same (by omega)

/-- Nothing of the paragraph's text is hidden: no text node has content behind a child, and the properties hold no text. -/
def NothingHidden (children : Forest) : Prop :=
  ∀ child ∈ children.nodes, ∀ node ∈ ownOf child, node.isText = true →
    if child.1.tag = .pPr then node.instructionText = [] else node.hidden = []

theorem shownContent_eq_iff (child : Element × Forest) : (shownContent child).length ≤ (heldContent child).length ∧
    (shownContent child = heldContent child ↔ ∀ node ∈ ownOf child, node.isText = true →
      if child.1.tag = .pPr then node.instructionText = [] else node.hidden = []) := by
  have texts (holds : Node → Prop) : (∀ node ∈ (ownOf child).filter Node.isText, holds node) ↔
      ∀ node ∈ ownOf child, node.isText = true → holds node := by
    simp only [List.mem_filter, and_imp]
  rw [shownContent, heldContent, filter_shownItems]
  split
  next =>
    refine ⟨Nat.zero_le _, ?_⟩
    rw [List.flatMap_nil, eq_comm, List.flatMap_eq_nil_iff, texts]
  next =>
    have cut : ∀ node ∈ (ownOf child).filter Node.isText, node.itemText.length ≤ node.instructionText.length := by
      intro node listed
      rw [itemText_of_isText (List.mem_filter.mp listed).2, List.length_append]
      exact Nat.le_add_right _ _
    obtain ⟨shorter, sameIff⟩ := flatMap_eq_flatMap_iff cut
    refine ⟨shorter, ?_⟩
    rw [sameIff, texts]
    refine forall₂_congr fun node _ => forall_congr' fun isText => ?_
    rw [itemText_of_isText isText, List.self_eq_append_right]

/-- A run with one text node. -/
def textRun (text : Str) (inText : Forest) : Forest :=
  .node ⟨.own 1, .r, [], [], []⟩ (.node ⟨.own 2, .t, [], text, []⟩ inText .nil) .nil

end Oveo.Docx
