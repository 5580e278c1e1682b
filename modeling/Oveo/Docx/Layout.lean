import Oveo.Docx.Blocks
import Oveo.Docx.Tree
import Oveo.Lib.Fallible

/-! # Layout and text of a paragraph

`_paragraph_layout` and `_paragraph_block`.  Whether a field code is that of a hyperlink is a regular
expression's answer, a parameter here. -/

namespace Oveo.Docx

open Oveo.Lib

/-! ## Layout -/

/-- One protected hyperlink of a paragraph and the items of its display text. -/
structure Link where
  start : Element
  stop : Element
  items : List Node
  hyperlink : Option Element

/-- A paragraph's own text: the links, each with the plain stretch before it, and the stretch after them. -/
structure Layout where
  parts : List (List Node × Link)
  last : List Node

namespace Layout

variable (layout : Layout)

def plain : List (List Node) := layout.parts.map Prod.fst ++ [layout.last]

def links : List Link := layout.parts.map Prod.snd

/-- The items of all stretches and links, in order. -/
def items : List Node := layout.parts.flatMap (fun part => part.1 ++ part.2.items) ++ layout.last

end Layout

/-- An open complex field: its begin character, its code so far, and its result once the code is read. -/
structure Field where
  start : Element
  instruction : Str
  display : Option (List Node)

/-- The variables of `_paragraph_layout`. -/
structure Scan where
  parts : List (List Node × Link)
  current : List Node
  field : Option Field

def fldCharType : Str := str "w:fldCharType"

def fldSimpleInstruction : Str := str "w:instr"

/-- Is the tag one of `_FIELD_TAGS`? -/
def Tag.isField (tag : Tag) : Bool := tag == .fldChar || tag == .instrText || tag == .fldSimple

section

variable (isHyperlinkInstruction : Str → Bool)

/-- A text item: it goes to the result of the open field, or to the current stretch. -/
def Scan.item (scan : Scan) (node : Node) : Option Scan :=
  match scan.field with
  | none => some { scan with current := scan.current ++ [node] }
  | some field =>
    match field.display with
    -- text inside a field code
    | none => none
    | some display => some { scan with field := some { field with display := some (display ++ [node]) } }

/-- A field character. -/
def Scan.fieldCharacter (scan : Scan) (element : Element) : Option Scan :=
  let kind := element.get? fldCharType
  match scan.field with
  | none => if kind = some (str "begin") then some { scan with field := some ⟨element, [], none⟩ } else none
  | some field =>
    match field.display with
    | none =>
      if kind = some (str "separate") && isHyperlinkInstruction field.instruction then
        some { scan with field := some { field with display := some [] } }
      else none
    | some display =>
      if kind = some (str "end") then
        some { parts := scan.parts ++ [(scan.current, ⟨field.start, element, display, none⟩)], current := [], field := none }
      else none

/-- One element of a child of the paragraph. -/
def Scan.element (childTag : Tag) (scan : Scan) (node : Node) : Option Scan :=
  if node.element.tag.isField then
    -- field markup outside the paragraph's own runs
    if node.element.tag = .fldSimple || childTag != .r || node.ancestors.length != 1 then none
    else if node.element.tag = .instrText then
      match scan.field with
      | some ⟨start, instruction, none⟩ => some { scan with field := some ⟨start, instruction ++ node.instructionText, none⟩ }
      | _ => none
    else scan.fieldCharacter isHyperlinkInstruction node.element
  else if node.isInlineItem then scan.item node
  else some scan

/-- One child of the paragraph. -/
def Scan.child (scan : Scan) (child : Element × Forest) : Option Scan :=
  let tag := child.1.tag
  if tag = .pPr then some scan
  else if tag = .hyperlink ∨ tag = .fldSimple then
    if scan.field.isSome || (ownFrom [tag] child.2).any (fun node => node.element.tag.isField) ||
        (tag = .fldSimple && !isHyperlinkInstruction ((child.1.get? fldSimpleInstruction).getD [])) then none
    else
      let hyperlink := if tag = .hyperlink then some child.1 else none
      let items := (ownOf child).filter Node.isInlineItem
      some { scan with parts := scan.parts ++ [(scan.current, ⟨child.1, child.1, items, hyperlink⟩)], current := [] }
  else (ownOf child).foldlM (Scan.element isHyperlinkInstruction tag) scan

/-- `_paragraph_layout`. -/
def paragraphLayout (children : Forest) : Option Layout :=
  match children.nodes.foldlM (Scan.child isHyperlinkInstruction) ⟨[], [], none⟩ with
  | some ⟨parts, current, none⟩ => some ⟨parts, current⟩
  | _ => none

end

/-! ## Blocks -/

def reservedText : DocxError := ⟨.reservedDocxText, "The DOCX contains text reserved for safe hyperlink handling."⟩

def nestedHyperlink : DocxError :=
  ⟨.unsupportedDocxHyperlink, "The DOCX contains a nested hyperlink that cannot be edited safely."⟩

def brokenRelationship : DocxError := ⟨.unsupportedDocxHyperlink, "The DOCX contains a broken hyperlink relationship."⟩

def relationshipId : Str := str "r:id"

/-- `_checked_text`, with `_reject_reserved_link_text`. -/
def checkedText (items : List Node) : Except DocxError Str :=
  if hasReservedLinkText (textOf items) then .error reservedText else .ok (textOf items)

/-- Does the relationship of a link exist, if it has one? -/
def Link.isBroken (relationships : List Str) (link : Link) : Bool :=
  link.hyperlink.any fun element => (element.get? relationshipId).any fun id => !relationships.contains id

/-- The loop of `_paragraph_block`: the text up to the last stretch, or none where a link shows no
text, and the number of the last link. -/
def linkTexts (relationships : List Str) (linkNumber : Nat) : List (List Node × Link) → Except DocxError (Option Str × Nat)
  | [] => .ok (some [], linkNumber)
  | (before, link) :: parts => do
    let plain ← checkedText before
    let display := textOf link.items
    if display.isEmpty then .ok (none, linkNumber)
    else if hasReservedLinkText display then .error reservedText
    else if link.isBroken relationships then .error brokenRelationship
    else do
      let (text, last) ← linkTexts relationships (linkNumber + 1) parts
      return (text.map fun text => plain ++ renderLink (linkId (linkNumber + 1)) display ++ text, last)

/-- `_own_text_nodes` of a whole paragraph. -/
def ownTextNodes (children : Forest) : List Node := (ownNodes children).filter Node.isText

/-- `_has_own_alternate_content`. -/
def hasOwnAlternateContent (children : Forest) : Bool :=
  (ownTextNodes children).any fun node => node.ancestors.contains .alternateContent

/-- `_paragraph_block`. -/
def paragraphBlock (isHyperlinkInstruction : Str → Bool) (inTableCell : Bool) (blockNumber linkNumber : Nat)
    (relationships : List Str) (children : Forest) : Except DocxError (Option DocxBlock × Nat) :=
  match paragraphLayout isHyperlinkInstruction children with
  | none => .ok (none, linkNumber)
  | some layout =>
    if hasOwnAlternateContent children then .ok (none, linkNumber)
    else if hasInteriorLayoutBreak children then .ok (none, linkNumber)
    else if (children.nodes.filter fun child => child.1.tag == .hyperlink).length ≠
        ((ownNodes children).filter fun node => node.element.tag == .hyperlink).length then .error nestedHyperlink
    else do
      let (text, last) ← linkTexts relationships linkNumber layout.parts
      match text with
      | none => return (none, last)
      | some text =>
        let tail ← checkedText layout.last
        -- tabs or line breaks without any text are layout, not content to edit
        if !(ownTextNodes children).any (fun node => !node.element.text.isEmpty) then return (none, last)
        let kind := if inTableCell then str "table_cell" else str "paragraph"
        return (some ⟨blockId blockNumber, kind, text ++ tail⟩, last)

end Oveo.Docx
