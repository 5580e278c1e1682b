import Oveo.Docx.Patch

/-! # Documents

`_parse_package` and `extract_docx`, from the tree of the document part on.  The archive, its parts and
its relationships are read before. -/

namespace Oveo.Docx

open Oveo.Lib

/-- The tree of the document part, and how many comments and processing instructions stand beside its root. -/
structure DocumentPart where
  root : Element
  children : Forest
  beside : Nat

def DocumentPart.tree (document : DocumentPart) : Forest := .node document.root document.children .nil

/-! ## Limits and markup -/

def maxDocxXmlElements : Nat := 300000

def maxDocxParagraphs : Nat := 20000

/-- `_require_bounded_tree`: more nodes than `_ElementCounter` allows. -/
def DocumentPart.isTooComplex (document : DocumentPart) : Bool :=
  maxDocxXmlElements < document.tree.elements.length + document.beside ||
    maxDocxParagraphs < (document.tree.elements.filter fun element => element.tag == .p).length

/-- Is the tag one of `_TRACKED_CHANGE_TAGS`? -/
def Tag.isTrackedChange (tag : Tag) : Bool := tag == .ins || tag == .del || tag == .moveFrom || tag == .moveTo

def tooManyElements : DocxError := ⟨.docxTooComplex, "The DOCX contains too many elements to process safely."⟩

def trackedChanges : DocxError := ⟨.trackedChangesNotSupported, "Accept or reject tracked changes before uploading the DOCX."⟩

def unsupportedBody : DocxError := ⟨.invalidDocx, "The DOCX document body is not supported."⟩

def tooManyBlocks : DocxError := ⟨.docxTooComplex, "The DOCX contains too many editable text blocks."⟩

def noParagraphText : DocxError := ⟨.emptyDocx, "The DOCX has no editable paragraph text."⟩

/-! ## Paragraphs of the body -/

structure Paragraph where
  inTableCell : Bool
  element : Element
  children : Forest

/-- `root.iter(_BODY_TAG)`, with the tags from each body up to the root. -/
def bodiesFrom (ancestors : List Tag) : Forest → List (List Tag × Forest)
  | .nil => []
  | .node element children next =>
    let below := bodiesFrom (element.tag :: ancestors) children
    (if element.tag = .body then (element.tag :: ancestors, children) :: below else below) ++ bodiesFrom ancestors next

/-- The walk of `_body_paragraphs`, which stops at each paragraph. -/
def paragraphsFrom (ancestors : List Tag) : Forest → List Paragraph
  | .nil => []
  | .node element children next =>
    (if element.tag = .p then [⟨ancestors.contains .tc, element, children⟩] else paragraphsFrom (element.tag :: ancestors) children) ++
      paragraphsFrom ancestors next

/-- `_body_paragraphs`. -/
def bodyParagraphs (document : DocumentPart) : Except DocxError (List Paragraph) :=
  match bodiesFrom [] document.tree with
  | [] => .ok []
  | [(ancestors, children)] => .ok (paragraphsFrom ancestors children)
  | _ => .error unsupportedBody

/-! ## Extraction -/

section

variable (isHyperlinkInstruction : Str → Bool) (relationships : List Str)

/-- The loop of `_parse_package`, behind so many blocks and the last link number: the editable
paragraphs, each with its block. -/
def parseParagraphs (count linkNumber : Nat) : List Paragraph → Except DocxError (List (Paragraph × DocxBlock))
  | [] => .ok []
  | paragraph :: paragraphs => do
    let (block, last) ← paragraphBlock isHyperlinkInstruction paragraph.inTableCell (count + 1) linkNumber relationships paragraph.children
    match block with
    | none => parseParagraphs count last paragraphs
    | some block =>
      if maxDocxBlocks < count + 1 then .error tooManyBlocks
      else do
        let parsed ← parseParagraphs (count + 1) last paragraphs
        return (paragraph, block) :: parsed

/-- `_parse_package`. -/
def parsePackage (document : DocumentPart) : Except DocxError (List (Paragraph × DocxBlock)) :=
  if document.isTooComplex then .error tooManyElements
  else if document.tree.elements.any fun element => element.tag.isTrackedChange then .error trackedChanges
  else do
    let paragraphs ← bodyParagraphs document
    let parsed ← parseParagraphs isHyperlinkInstruction relationships 0 0 paragraphs
    if parsed.isEmpty then .error noParagraphText else .ok parsed

/-- `extract_docx`. -/
def extractDocx (document : DocumentPart) : Except DocxError ExtractedDocx := do
  let parsed ← parsePackage isHyperlinkInstruction relationships document
  extractedDocx (parsed.map Prod.snd)

end

end Oveo.Docx
