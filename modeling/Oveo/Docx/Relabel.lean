import Oveo.Docx.Render

/-! # Trees that are written and read again

A tree that is written and read again has the same elements, but they are others.  What is extracted
does not depend on which node is which. -/

namespace Oveo.Docx

open Oveo.Lib

/-- The element, as nobody in particular. -/
def Element.relabel (element : Element) : Element := { element with identity := .made }

def Forest.relabel : Forest → Forest
  | nil => nil
  | node element children next => node element.relabel children.relabel next.relabel

def Node.relabel (node : Node) : Node := ⟨node.ancestors, node.element.relabel, node.children.relabel⟩

def Link.relabel (link : Link) : Link :=
  ⟨link.start.relabel, link.stop.relabel, link.items.map Node.relabel, link.hyperlink.map Element.relabel⟩

def relabelPart (part : List Node × Link) : List Node × Link := (part.1.map Node.relabel, part.2.relabel)

def Field.relabel (field : Field) : Field := ⟨field.start.relabel, field.instruction, field.display.map (List.map Node.relabel)⟩

def Scan.relabel (scan : Scan) : Scan := ⟨scan.parts.map relabelPart, scan.current.map Node.relabel, scan.field.map Field.relabel⟩

def Layout.relabel (layout : Layout) : Layout := ⟨layout.parts.map relabelPart, layout.last.map Node.relabel⟩

def Paragraph.relabel (paragraph : Paragraph) : Paragraph :=
  ⟨paragraph.inTableCell, paragraph.element.relabel, paragraph.children.relabel⟩

def DocumentPart.relabel (document : DocumentPart) : DocumentPart :=
  ⟨document.root.relabel, document.children.relabel, document.beside⟩

/-! ## Nodes -/

section

variable {forest children : Forest} {element : Element} {node : Node} {items : List Node} {ancestors : List Tag} {name : Str}

@[simp] theorem relabel_tag : element.relabel.tag = element.tag := rfl

@[simp] theorem relabel_get? : element.relabel.get? name = element.get? name := rfl

@[simp] theorem relabel_isLayoutBreak : element.relabel.isLayoutBreak = element.isLayoutBreak := rfl

@[simp] theorem relabel_isInlineItem : node.relabel.isInlineItem = node.isInlineItem := rfl

@[simp] theorem relabel_isText : node.relabel.isText = node.isText := rfl

@[simp] theorem relabel_itemText : node.relabel.itemText = node.itemText := rfl

@[simp] theorem relabel_element : node.relabel.element = node.element.relabel := rfl

@[simp] theorem relabel_ancestors : node.relabel.ancestors = node.ancestors := rfl

@[simp] theorem nodes_relabel : forest.relabel.nodes = forest.nodes.map fun child => (child.1.relabel, child.2.relabel) := by
  induction forest with
  | nil => rfl
  | node element children next _ inductionHypothesis => rw [Forest.relabel, Forest.nodes, inductionHypothesis, Forest.nodes, List.map_cons]

@[simp] theorem elements_relabel : forest.relabel.elements = forest.elements.map Element.relabel := by
  induction forest with
  | nil => rfl
  | node element children next childrenHypothesis nextHypothesis =>
    rw [Forest.relabel, Forest.elements, childrenHypothesis, nextHypothesis, Forest.elements, List.map_cons, List.map_append]

@[simp] theorem ownFrom_relabel : ownFrom ancestors forest.relabel = (ownFrom ancestors forest).map Node.relabel := by
  induction forest generalizing ancestors with
  | nil => rfl
  | node element children next childrenHypothesis nextHypothesis =>
    rw [Forest.relabel, ownFrom, ownFrom, nextHypothesis, relabel_tag, List.map_cons, List.map_append]
    split
    next => rfl
    next => rw [childrenHypothesis]; rfl

@[simp] theorem ownNodes_relabel : ownNodes children.relabel = (ownNodes children).map Node.relabel := ownFrom_relabel

theorem ownOf_relabel (child : Element × Forest) : ownOf (child.1.relabel, child.2.relabel) = (ownOf child).map Node.relabel := by
  rw [ownOf, ownOf]
  exact @ownFrom_relabel (.node child.1 child.2 .nil) []

@[simp] theorem relabel_instructionText : node.relabel.instructionText = node.instructionText := by
  rw [Node.instructionText, Node.instructionText, Node.relabel, nodes_relabel, List.flatMap_map]
  rfl

@[simp] theorem textOf_relabel : textOf (items.map Node.relabel) = textOf items := by
  rw [textOf, List.flatMap_map]
  rfl

theorem interiorBreakFrom_relabel (textSeen breakAfterText : Bool) :
    interiorBreakFrom textSeen breakAfterText (items.map Node.relabel) = interiorBreakFrom textSeen breakAfterText items := by
  induction items generalizing textSeen breakAfterText with
  | nil => rfl
  | cons node items inductionHypothesis =>
    rw [List.map_cons, interiorBreakFrom, interiorBreakFrom]
    simp only [relabel_element, relabel_isLayoutBreak, relabel_isInlineItem, relabel_itemText, inductionHypothesis]

@[simp] theorem filter_map_relabel (select : Node → Bool) (blind : ∀ node, select node.relabel = select node) :
    (items.map Node.relabel).filter select = (items.filter select).map Node.relabel := by
  rw [List.filter_map]
  congr 1
  exact List.filter_congr fun node _ => blind node

end

/-! ## The layout -/

section

variable {isHyperlinkInstruction : Str → Bool} {scan : Scan} {node : Node} {relationships : List Str} {linkNumber blockNumber : Nat}
  {children : Forest} {inTableCell : Bool}

theorem item_relabel : scan.relabel.item node.relabel = (scan.item node).map Scan.relabel := by
  obtain ⟨parts, current, field⟩ := scan
  cases field with
  | none => simp [Scan.item, Scan.relabel]
  | some field =>
    obtain ⟨start, instruction, display⟩ := field
    cases display <;> simp [Scan.item, Scan.relabel, Field.relabel]

theorem fieldCharacter_relabel {element : Element} :
    scan.relabel.fieldCharacter isHyperlinkInstruction element.relabel = (scan.fieldCharacter isHyperlinkInstruction element).map Scan.relabel := by
  obtain ⟨parts, current, field⟩ := scan
  cases field with
  | none =>
    simp only [Scan.fieldCharacter, Scan.relabel, Option.map_none, relabel_get?]
    rw [apply_ite (Option.map _)]
    rfl
  | some field =>
    obtain ⟨start, instruction, display⟩ := field
    cases display with
    | none =>
      simp only [Scan.fieldCharacter, Scan.relabel, Field.relabel, Option.map_some, Option.map_none, relabel_get?]
      rw [apply_ite (Option.map _)]
      rfl
    | some display =>
      simp only [Scan.fieldCharacter, Scan.relabel, Field.relabel, Option.map_some, relabel_get?]
      rw [apply_ite (Option.map _)]
      refine if_congr Iff.rfl ?_ rfl
      simp [Scan.relabel, relabelPart, Link.relabel]

theorem element_relabel {childTag : Tag} : scan.relabel.element isHyperlinkInstruction childTag node.relabel =
    (scan.element isHyperlinkInstruction childTag node).map Scan.relabel := by
  rw [Scan.element, Scan.element]
  simp only [relabel_element, relabel_tag, relabel_ancestors, relabel_isInlineItem, relabel_instructionText, fieldCharacter_relabel, item_relabel,
    apply_ite (Option.map Scan.relabel), Option.map_none, Option.map_some]
  refine if_congr Iff.rfl (if_congr Iff.rfl rfl (if_congr Iff.rfl ?_ rfl)) rfl
  -- A field code goes on only where it has begun and not ended.
  obtain ⟨parts, current, field⟩ := scan
  cases field with
  | none => rfl
  | some field =>
    obtain ⟨start, instruction, display⟩ := field
    cases display <;> rfl

theorem foldlM_relabel {α : Type} {relabelOf : α → α} {step : Scan → α → Option Scan}
    (blind : ∀ scan entry, step scan.relabel (relabelOf entry) = (step scan entry).map Scan.relabel) (entries : List α) (scan : Scan) :
    (entries.map relabelOf).foldlM step scan.relabel = (entries.foldlM step scan).map Scan.relabel := by
  induction entries generalizing scan with
  | nil => rfl
  | cons entry entries inductionHypothesis =>
    rw [List.map_cons, List.foldlM_cons, List.foldlM_cons, blind]
    cases step scan entry with
    | none => rfl
    | some next => exact inductionHypothesis next

theorem child_relabel (scan : Scan) (child : Element × Forest) :
    scan.relabel.child isHyperlinkInstruction (child.1.relabel, child.2.relabel) = (scan.child isHyperlinkInstruction child).map Scan.relabel := by
  rw [Scan.child, Scan.child]
  have sameField : scan.relabel.field.isSome = scan.field.isSome := by simp [Scan.relabel]
  simp only [relabel_tag, relabel_get?, ownFrom_relabel, ownOf_relabel, List.any_map, Function.comp_def, relabel_element, sameField,
    filter_map_relabel Node.isInlineItem fun _ => relabel_isInlineItem, apply_ite (Option.map Scan.relabel), Option.map_none, Option.map_some]
  refine if_congr Iff.rfl rfl (if_congr Iff.rfl (if_congr Iff.rfl rfl ?_) ?_)
  · simp only [Scan.relabel, List.map_append, List.map_singleton, List.map_nil, relabelPart, Link.relabel, apply_ite (Option.map Element.relabel),
      Option.map_none, Option.map_some]
    rfl
  · exact foldlM_relabel (fun scan node => element_relabel) (ownOf child) scan

theorem paragraphLayout_relabel :
    paragraphLayout isHyperlinkInstruction children.relabel = (paragraphLayout isHyperlinkInstruction children).map Layout.relabel := by
  have scanned := @foldlM_relabel _ (fun child : Element × Forest => (child.1.relabel, child.2.relabel)) _
    (@child_relabel isHyperlinkInstruction) children.nodes ⟨[], [], none⟩
  have start : Scan.relabel ⟨[], [], none⟩ = ⟨[], [], none⟩ := rfl
  rw [start] at scanned
  rw [paragraphLayout, paragraphLayout, nodes_relabel, scanned]
  cases children.nodes.foldlM (Scan.child isHyperlinkInstruction) ⟨[], [], none⟩ with
  | none => rfl
  | some last =>
    obtain ⟨parts, current, field⟩ := last
    cases field <;> rfl

/-! ## Blocks -/

@[simp] theorem checkedText_relabel (items : List Node) : checkedText (items.map Node.relabel) = checkedText items := by
  rw [checkedText, textOf_relabel, checkedText]

@[simp] theorem isBroken_relabel (link : Link) : link.relabel.isBroken relationships = link.isBroken relationships := by
  rw [Link.isBroken, Link.relabel, Link.isBroken]
  cases link.hyperlink <;> rfl

theorem linkTexts_relabel (parts : List (List Node × Link)) :
    linkTexts relationships linkNumber (parts.map relabelPart) = linkTexts relationships linkNumber parts := by
  induction parts generalizing linkNumber with
  | nil => rfl
  | cons part parts inductionHypothesis =>
    obtain ⟨before, link⟩ := part
    have sameDisplay : textOf link.relabel.items = textOf link.items := textOf_relabel
    rw [List.map_cons, relabelPart, linkTexts, linkTexts]
    simp only [checkedText_relabel, sameDisplay, isBroken_relabel, inductionHypothesis]

theorem ownTextNodes_relabel : ownTextNodes children.relabel = (ownTextNodes children).map Node.relabel := by
  rw [ownTextNodes, ownNodes_relabel, filter_map_relabel Node.isText fun _ => relabel_isText, ownTextNodes]

theorem paragraphBlock_relabel : paragraphBlock isHyperlinkInstruction inTableCell blockNumber linkNumber relationships children.relabel =
    paragraphBlock isHyperlinkInstruction inTableCell blockNumber linkNumber relationships children := by
  have sameAlternate : hasOwnAlternateContent children.relabel = hasOwnAlternateContent children := by
    rw [hasOwnAlternateContent, ownTextNodes_relabel, List.any_map, hasOwnAlternateContent]
    rfl
  have sameBreak : hasInteriorLayoutBreak children.relabel = hasInteriorLayoutBreak children := by
    rw [hasInteriorLayoutBreak, ownNodes_relabel, interiorBreakFrom_relabel, hasInteriorLayoutBreak]
  have sameText : (ownTextNodes children.relabel).any (fun node => !node.element.text.isEmpty) =
      (ownTextNodes children).any fun node => !node.element.text.isEmpty := by
    rw [ownTextNodes_relabel, List.any_map]
    rfl
  have sameTop : (children.relabel.nodes.filter fun child => child.1.tag == .hyperlink).length =
      (children.nodes.filter fun child => child.1.tag == .hyperlink).length := by
    rw [nodes_relabel, List.filter_map, List.length_map]
    rfl
  have sameOwn : ((ownNodes children.relabel).filter fun node => node.element.tag == .hyperlink).length =
      ((ownNodes children).filter fun node => node.element.tag == .hyperlink).length := by
    rw [ownNodes_relabel, List.filter_map, List.length_map]
    rfl
  rw [paragraphBlock, paragraphBlock, paragraphLayout_relabel, sameAlternate, sameBreak, sameText, sameTop, sameOwn]
  cases paragraphLayout isHyperlinkInstruction children with
  | none => rfl
  | some layout =>
    simp only [Option.map_some, Layout.relabel, linkTexts_relabel, checkedText_relabel]

/-! ## Documents -/

theorem bodiesFrom_relabel (ancestors : List Tag) (forest : Forest) :
    bodiesFrom ancestors forest.relabel = (bodiesFrom ancestors forest).map fun body => (body.1, body.2.relabel) := by
  induction forest generalizing ancestors with
  | nil => rfl
  | node element children next childrenHypothesis nextHypothesis =>
    rw [Forest.relabel, bodiesFrom, bodiesFrom, relabel_tag, childrenHypothesis, nextHypothesis, List.map_append]
    split <;> rfl

theorem paragraphsFrom_relabel (ancestors : List Tag) (forest : Forest) :
    paragraphsFrom ancestors forest.relabel = (paragraphsFrom ancestors forest).map Paragraph.relabel := by
  induction forest generalizing ancestors with
  | nil => rfl
  | node element children next childrenHypothesis nextHypothesis =>
    rw [Forest.relabel, paragraphsFrom, paragraphsFrom, relabel_tag, childrenHypothesis, nextHypothesis, List.map_append]
    split <;> rfl

variable {document : DocumentPart}

theorem tree_relabel : document.relabel.tree = document.tree.relabel := rfl

theorem bodyParagraphs_relabel : bodyParagraphs document.relabel = (bodyParagraphs document).map (List.map Paragraph.relabel) := by
  rw [bodyParagraphs, bodyParagraphs, tree_relabel, bodiesFrom_relabel]
  cases bodiesFrom [] document.tree with
  | nil => rfl
  | cons body bodies =>
    cases bodies with
    | nil => exact congrArg Except.ok (paragraphsFrom_relabel body.1 body.2)
    | cons _ _ => rfl

theorem parseParagraphs_relabel (count linkNumber : Nat) (paragraphs : List Paragraph) :
    parseParagraphs isHyperlinkInstruction relationships count linkNumber (paragraphs.map Paragraph.relabel) =
      (parseParagraphs isHyperlinkInstruction relationships count linkNumber paragraphs).map
        (List.map fun entry => (entry.1.relabel, entry.2)) := by
  induction paragraphs generalizing count linkNumber with
  | nil => rfl
  | cons paragraph paragraphs inductionHypothesis =>
    have sameBlock : paragraphBlock isHyperlinkInstruction paragraph.relabel.inTableCell (count + 1) linkNumber relationships
        paragraph.relabel.children = paragraphBlock isHyperlinkInstruction paragraph.inTableCell (count + 1) linkNumber relationships
          paragraph.children := paragraphBlock_relabel
    rw [List.map_cons, parseParagraphs, parseParagraphs, sameBlock]
    cases paragraphBlock isHyperlinkInstruction paragraph.inTableCell (count + 1) linkNumber relationships paragraph.children with
    | error error => rfl
    | ok result =>
      obtain ⟨block, last⟩ := result
      cases block with
      | none => exact inductionHypothesis count last
      | some block =>
        simp only [ok_bind_eq]
        split
        next => rfl
        next =>
          rw [inductionHypothesis]
          cases parseParagraphs isHyperlinkInstruction relationships (count + 1) last paragraphs <;> rfl

theorem parsePackage_relabel : parsePackage isHyperlinkInstruction relationships document.relabel =
    (parsePackage isHyperlinkInstruction relationships document).map (List.map fun entry => (entry.1.relabel, entry.2)) := by
  have sameSize : document.relabel.isTooComplex = document.isTooComplex := by
    rw [DocumentPart.isTooComplex, tree_relabel, elements_relabel, List.length_map, List.filter_map, List.length_map]
    rfl
  have sameChanges : document.relabel.tree.elements.any (fun element => element.tag.isTrackedChange) =
      document.tree.elements.any fun element => element.tag.isTrackedChange := by
    rw [tree_relabel, elements_relabel, List.any_map]
    rfl
  rw [parsePackage, parsePackage, sameSize, sameChanges, bodyParagraphs_relabel]
  split
  next => rfl
  next =>
    split
    next => rfl
    next =>
      cases bodyParagraphs document with
      | error error => rfl
      | ok paragraphs =>
        have parsed := @parseParagraphs_relabel isHyperlinkInstruction relationships 0 0 paragraphs
        simp only [Except.map, ok_bind_eq]
        rw [parsed]
        cases parseParagraphs isHyperlinkInstruction relationships 0 0 paragraphs with
        | error error => rfl
        | ok entries => cases entries <;> rfl

/-- What is extracted depends on the tree alone. -/
theorem extractDocx_relabel : extractDocx isHyperlinkInstruction relationships document.relabel =
    extractDocx isHyperlinkInstruction relationships document := by
  rw [extractDocx, extractDocx, parsePackage_relabel]
  cases parsePackage isHyperlinkInstruction relationships document with
  | error error => rfl
  | ok parsed =>
    simp only [Except.map, ok_bind_eq, List.map_map]
    rfl

end

end Oveo.Docx
