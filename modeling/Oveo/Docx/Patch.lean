import Oveo.Docx.Layout

/-! # Patching a paragraph

`_patch_paragraph`: what is edited is settled by the layout and the new texts, and then done to the
tree one edit after the other. -/

namespace Oveo.Docx

open Oveo.Lib

/-! ## New content -/

/-- `_CHARACTER_ELEMENTS`. -/
def characterTag? (c : CodePoint) : Option Tag :=
  if c = 0x09 then some .tab
  else if c = 0x0A then some .br
  else if c = 0x2011 then some .noBreakHyphen
  else if c = 0xAD then some .softHyphen
  else none

/-- `etree.Element(tag)`. -/
def newElement (tag : Tag) : Element := ⟨.made, tag, [], [], []⟩

def xmlSpace : Str := str "xml:space"

/-- A new text node, as `_set_text` leaves it. -/
def textElement (value : Str) : Element :=
  { newElement .t with
    text := value
    attributes := if value.head?.any isSpace || value.getLast?.any isSpace then [(xmlSpace, str "preserve")] else [] }

/-- `flush` of `_inline_elements`, before what follows. -/
def flushPending (pending : Str) (next : Forest) : Forest :=
  if pending.isEmpty then next else .node (textElement pending) .nil next

/-- The loop of `_inline_elements`. -/
def inlineElementsFrom (pending : Str) : Str → Forest
  | [] => flushPending pending .nil
  | c :: rest =>
    match characterTag? c with
    | none => inlineElementsFrom (pending ++ [c]) rest
    | some tag => flushPending pending (.node (newElement tag) .nil (inlineElementsFrom [] rest))

/-- `_inline_elements`. -/
def inlineElements (value : Str) : Forest := inlineElementsFrom [] value

/-! ## Changes to a tree -/

namespace Forest

/-- The rest of `_rewrite_items`: the new content stands where the first item stood, and the items are
removed, each with its children and its tail. -/
def rewrite (first : Element) (rest : List Element) (content : Forest) : Forest → Forest
  | nil => nil
  | node element children next =>
    if element = first then content.append (rewrite first rest content next)
    else if element ∈ rest then rewrite first rest content next
    else node element (rewrite first rest content children) (rewrite first rest content next)

/-- The siblings before one of them, and the siblings from it on. -/
def breakAt (element : Element) : Forest → Option (Forest × Forest)
  | nil => none
  | node first children next =>
    if first = element then some (nil, node first children next)
    else (next.breakAt element).map fun found => (node first children found.1, found.2)

/-- `copy.deepcopy`: the same content in new nodes. -/
def copy : Forest → Forest
  | nil => nil
  | node element children next => node { element with identity := .made } children.copy next.copy

/-- A copy of `run.find(_RPR_TAG)`, if there is one. -/
def copiedProperties : Forest → Forest
  | nil => nil
  | node element children next =>
    if element.tag = .rPr then node { element with identity := .made } children.copy nil else next.copiedProperties

/-- The identity of the second half of a run. -/
def remainderIdentity : Identity → Identity
  | .own number | .split number => .split number
  | .made => .made

/-- The run of `_field_boundary_run` that takes the content on the far side. -/
def remainder (run : Element) (children moving next : Forest) : Forest :=
  node { newElement .r with identity := remainderIdentity run.identity, attributes := run.attributes }
    (children.copiedProperties.append moving) next

/-- A new run next to a field character, whose run is split where it shares it on that side.
The parent of a field character of a layout is a run. -/
def insertAtField (field : Element) (before : Bool) (content : Forest) : Forest → Forest
  | nil => nil
  | node element children next =>
    match if element.tag = .r then children.breakAt field else none with
    | none => node element (insertAtField field before content children) (insertAtField field before content next)
    | some (preceding, following) =>
      if before then
        if preceding.nodes.all fun child => child.1.tag == .rPr then node (newElement .r) content (node element children next)
        else node element preceding (node (newElement .r) content (remainder element children following next))
      else
        match following with
        | nil => node element children next
        | node _ _ nil => node element children (node (newElement .r) content next)
        | node character inCharacter moving =>
          node element (preceding.append (node character inCharacter nil))
            (node (newElement .r) content (remainder element children moving next))

/-- A new run next to an element. -/
def insertBeside (anchor : Element) (before : Bool) (content : Forest) : Forest → Forest
  | nil => nil
  | node element children next =>
    let inside := insertBeside anchor before content children
    let rest := insertBeside anchor before content next
    if element = anchor then
      if before then node (newElement .r) content (node element inside rest) else node element inside (node (newElement .r) content rest)
    else node element inside rest

end Forest

/-! ## Edits -/

inductive Edit where
  /-- A stretch that changes, by its items. -/
  | rewrite (first : Node) (rest : List Node) (value : Str)
  /-- A stretch without items that gets a text. -/
  | insertRun (anchor : Element) (before : Bool) (value : Str)

/-- `_rewrite_items` or `_insert_plain_run`, done to the children of a paragraph. -/
def Edit.apply (children : Forest) : Edit → Forest
  | .rewrite first rest value => Forest.rewrite first.element (rest.map Node.element) (inlineElements value) children
  | .insertRun anchor before value =>
    if anchor.tag = .fldChar then Forest.insertAtField anchor before (inlineElements value) children
    else Forest.insertBeside anchor before (inlineElements value) children

/-- `_rewrite_items` of a stretch with items: nothing is done where the text stays. -/
def rewriteItems (items : List Node) (value : Str) : List Edit :=
  match items with
  | [] => []
  | first :: rest => if textOf items = value then [] else [.rewrite first rest value]

/-- `_insert_plain_run`. -/
def insertPlainRun (anchor : Element) (before : Bool) (value : Str) : List Edit :=
  if value.isEmpty then [] else [.insertRun anchor before value]

def templateChanged : DocxError := ⟨.invalidDocxBlocks, "The DOCX template no longer matches its blocks."⟩

def noEditableText : DocxError := ⟨.invalidDocxBlocks, "The DOCX hyperlink has no editable text."⟩

/-- The first loop of `_patch_paragraph`, over the stretches and their new texts, behind a link or none. -/
def plainEdits (behind : Option Link) (last : List Node) : List (List Node × Link) → List Str → Except DocxError (List Edit)
  | (items, link) :: parts, value :: values => do
    let edits ← plainEdits (some link) last parts values
    return (if items.isEmpty then insertPlainRun link.start true value else rewriteItems items value) ++ edits
  | [], [value] =>
    if last.isEmpty then
      match behind with
      -- directly after the last link: a trailing page break stays after the text
      | some link => .ok (insertPlainRun link.stop false value)
      | none => if value.isEmpty then .ok [] else .error templateChanged
    else .ok (rewriteItems last value)
  -- there is one more stretch than there are links
  | _, _ => .error templateChanged

/-- The second loop of `_patch_paragraph`, over the links and their new displays. -/
def displayEdits : List Link → List (Str × Str) → Except DocxError (List Edit)
  | link :: links, (_, display) :: displays =>
    if link.items.isEmpty then .error noEditableText
    else do
      let edits ← displayEdits links displays
      return rewriteItems link.items display ++ edits
  | _, _ => .ok []

/-- What a new text changes in a paragraph of this layout. -/
def paragraphEdits (layout : Layout) (text : Str) : Except DocxError (List Edit) := do
  let (plains, links) ← linkParts text
  if layout.links.length ≠ links.length then throw templateChanged
  let plain ← plainEdits none layout.last layout.parts plains
  let display ← displayEdits layout.links links
  return plain ++ display

/-- `_patch_paragraph`, for the children of the paragraph. -/
def patchParagraph (isHyperlinkInstruction : Str → Bool) (children : Forest) (text : Str) : Except DocxError Forest :=
  match paragraphLayout isHyperlinkInstruction children with
  | none => .error templateChanged
  | some layout => do
    let edits ← paragraphEdits layout text
    return edits.foldl Edit.apply children

end Oveo.Docx
