import Oveo.Lib.Json

/-! # Blocks, replacements and link tokens of a Word document

`docx.py`, from the block and replacement records to the validation of a returned or stored
block map.  A block shows a protected hyperlink as a pair of tokens around its display text;
`linkParts` splits a block's text at these tokens again. -/

namespace Oveo.Docx

open Oveo.Lib

inductive DocxCode where
  | invalidDocx
  | trackedChangesNotSupported
  | unsupportedDocxHyperlink
  | reservedDocxText
  | docxTooComplex
  | emptyDocx
  | invalidDocxBlocks
  | invalidDocxText
  | invalidDocxHyperlinks
  | docxTemplateOutdated
deriving DecidableEq, Repr

structure DocxError where
  code : DocxCode
  message : String
deriving DecidableEq, Repr

def maxDocxBlocks : Nat := 10000

structure DocxBlock where
  id : Str
  kind : Str
  text : Str
deriving DecidableEq, Repr

def DocxBlock.toModel (block : DocxBlock) : Json :=
  .obj [(str "id", .str block.id), (str "kind", .str block.kind), (str "text", .str block.text)]

structure DocxReplacement where
  id : Str
  text : Str
deriving DecidableEq, Repr

def DocxReplacement.toStorage (replacement : DocxReplacement) : Json :=
  .obj [(str "id", .str replacement.id), (str "text", .str replacement.text)]

structure ExtractedDocx where
  blocks : List DocxBlock
  plainText : Str
deriving DecidableEq, Repr

/-! ## Identifiers -/

def isDigit (c : CodePoint) : Bool := 0x30 ≤ c.val && c.val ≤ 0x39

/-- A letter and six ASCII digits, the shape of `_BLOCK_ID` and `_LINK_ID`. -/
def isNumberedId (letter : Char) : Str → Bool
  | first :: digits => first == codePoint letter && digits.length == 6 && digits.all isDigit
  | [] => false

def isBlockId (id : Str) : Bool := isNumberedId 'p' id

def isLinkId (id : Str) : Bool := isNumberedId 'l' id

def blockId (number : Nat) : Str := codePoint 'p' :: pad6 number

def linkId (number : Nat) : Str := codePoint 'l' :: pad6 number

/-! ## Link tokens -/

def reservedLinkPrefix : Str := str "\x7b\x7bOVEO_LINK_"

def reservedLinkClosePrefix : Str := str "\x7b\x7b/OVEO_LINK_"

def tokenEnd : Str := str "\x7d\x7d"

def openToken (id : Str) : Str := reservedLinkPrefix ++ id ++ tokenEnd

def closeToken (id : Str) : Str := reservedLinkClosePrefix ++ id ++ tokenEnd

/-- One protected hyperlink as block text: an `f`-string of `_paragraph_block`. -/
def renderLink (id display : Str) : Str := openToken id ++ display ++ closeToken id

/-- `_RESERVED_LINK_PREFIX in value or _RESERVED_LINK_CLOSE_PREFIX in value`. -/
def hasReservedLinkText (value : Str) : Bool :=
  occursIn reservedLinkPrefix value || occursIn reservedLinkClosePrefix value

/-- `_LINK_TOKEN` matched at the start of a text: the id, the display and what follows. -/
def linkToken? (text : Str) : Option (Str × Str × Str) :=
  match afterPrefix? reservedLinkPrefix text with
  | none => none
  | some opened =>
    let id := opened.take 7
    if isLinkId id then
      match afterPrefix? tokenEnd (opened.drop 7) with
      | none => none
      | some content =>
        -- The display is matched lazily: it ends at the first close token with its id.
        (splitAtFirst (closeToken id) content).map fun (display, rest) => (id, display, rest)
    else none

/-- `_LINK_TOKEN.finditer`, left to right without overlaps.  `skip` counts the characters of
the last match still to pass, `plain` collects the text since that match. -/
def scanLinks : Nat → Str → Str → List (Str × Str × Str) × Str
  | _, plain, [] => ([], plain)
  | skip + 1, plain, _ :: rest => scanLinks skip plain rest
  | 0, plain, c :: rest =>
    match linkToken? (c :: rest) with
    | some (id, display, after) =>
      let (found, tail) := scanLinks (rest.length - after.length) [] rest
      ((plain, id, display) :: found, tail)
    | none => scanLinks 0 (plain ++ [c]) rest

def malformedToken : DocxError :=
  ⟨.invalidDocxBlocks, "A DOCX hyperlink token is malformed."⟩

/-- `_link_parts`: the plain texts around the links of a block text, and each link's id and
display. -/
def linkParts (text : Str) : Except DocxError (List Str × List (Str × Str)) :=
  let (found, tail) := scanLinks 0 [] text
  if found.any (fun (plain, _, display) => hasReservedLinkText plain || hasReservedLinkText display) ||
      hasReservedLinkText tail then
    .error malformedToken
  else
    .ok (found.map (fun (plain, _, _) => plain) ++ [tail],
      found.map fun (_, id, display) => (id, display))

/-! ## Returned block maps -/

/-- What a caller may hand to `validate_replacements` for one block. -/
inductive ReplacementCandidate where
  | replacement (value : DocxReplacement)
  | mapping (members : List (Str × Json))

/-- `_XML_ILLEGAL_CHARACTER` for one character. -/
def isXmlIllegal (c : CodePoint) : Bool :=
  !(c.val == 0x09 || c.val == 0x0A || c.val == 0x0D || (0x20 ≤ c.val && c.val ≤ 0xD7FF) ||
    (0xE000 ≤ c.val && c.val ≤ 0xFFFD) || 0x10000 ≤ c.val)

def blocksNotReturnedOnce : DocxError :=
  ⟨.invalidDocxBlocks, "Every DOCX block must be returned exactly once."⟩

def invalidReplacement : DocxError :=
  ⟨.invalidDocxBlocks, "A DOCX block replacement is invalid."⟩

def identifiersReordered : DocxError :=
  ⟨.invalidDocxBlocks, "DOCX block identifiers are missing or reordered."⟩

def illegalBlockText : DocxError :=
  ⟨.invalidDocxText, "DOCX block text contains a character a Word document cannot hold."⟩

def hyperlinksChanged : DocxError :=
  ⟨.invalidDocxHyperlinks, "Every protected DOCX hyperlink must appear exactly once and in order."⟩

def ReplacementCandidate.toReplacement : ReplacementCandidate → Except DocxError DocxReplacement
  | .replacement value => .ok value
  | .mapping members =>
    if Json.hasExactKeys members [str "id", str "text"] then
      match Json.get? members (str "id"), Json.get? members (str "text") with
      | some (.str id), some (.str text) => .ok ⟨id, text⟩
      | _, _ => .error invalidReplacement
    else .error invalidReplacement

/-- The link checks of one replacement against its template block. -/
def linksKept (expected actual : List (Str × Str)) : Bool :=
  let actualIds := actual.map Prod.fst
  actualIds.all isLinkId && actualIds == expected.map Prod.fst && actualIds.Nodup &&
    actual.all fun (_, display) => !display.isEmpty

/-- The body of the loop of `validate_replacements`. -/
def validateReplacement (expected : DocxBlock) (candidate : ReplacementCandidate) :
    Except DocxError DocxReplacement := do
  let replacement ← candidate.toReplacement
  if !isBlockId replacement.id || replacement.id != expected.id then
    throw identifiersReordered
  if replacement.text.any isXmlIllegal then
    throw illegalBlockText
  let (_, expectedLinks) ← linkParts expected.text
  let (_, actualLinks) ← linkParts replacement.text
  if !linksKept expectedLinks actualLinks then
    throw hyperlinksChanged
  return replacement

def validateEach : List DocxBlock → List ReplacementCandidate → Except DocxError (List DocxReplacement)
  | expected :: template, candidate :: candidates => do
    let replacement ← validateReplacement expected candidate
    let validated ← validateEach template candidates
    return replacement :: validated
  | _, _ => .ok []

def validateReplacements (template : List DocxBlock) (replacements : List ReplacementCandidate) :
    Except DocxError (List DocxReplacement) :=
  if replacements.length != template.length then .error blocksNotReturnedOnce
  else validateEach template replacements

/-- The text of one block without its link tokens. -/
def plainTextOfParts : List Str → List (Str × Str) → Str
  | plain :: plains, (_, display) :: links => plain ++ (display ++ plainTextOfParts plains links)
  | plain :: _, [] => plain
  | [], _ => []

/-- `"\n\n".join(paragraphs)`. -/
def joinParagraphs (paragraphs : List Str) : Str := List.intercalate (str "\n\n") paragraphs

/-- `_plain_text_from_validated`. -/
def plainTextFromValidated (replacements : List DocxReplacement) : Except DocxError Str := do
  let paragraphs ← replacements.mapM fun replacement => do
    let (plains, links) ← linkParts replacement.text
    return plainTextOfParts plains links
  return joinParagraphs paragraphs

def plainTextFromReplacements (template : List DocxBlock) (replacements : List ReplacementCandidate) :
    Except DocxError Str := do
  let validated ← validateReplacements template replacements
  plainTextFromValidated validated

/-- What `extract_docx` returns for the blocks it parsed. -/
def extractedDocx (blocks : List DocxBlock) : Except DocxError ExtractedDocx := do
  let plainText ← plainTextFromValidated (blocks.map fun block => ⟨block.id, block.text⟩)
  return { blocks, plainText }

/-! ## Stored block maps -/

def invalidStoredMap : DocxError :=
  ⟨.invalidDocxBlocks, "The stored DOCX block map is invalid."⟩

/-- The numbering check of one stored block: its links carry the next consecutive ids. -/
def storedLinks (nextLinkNumber : Nat) : List (Str × Str) → Except DocxError Nat
  | [] => .ok nextLinkNumber
  | (id, _) :: links =>
    if id != linkId nextLinkNumber then .error invalidStoredMap
    else storedLinks (nextLinkNumber + 1) links

/-- The body of the loop of `docx_blocks_from_storage`: the block, and the next link number. -/
def storedBlock (blockNumber nextLinkNumber : Nat) : Json → Except DocxError (DocxBlock × Nat)
  | .obj members =>
    if Json.hasExactKeys members [str "id", str "kind", str "text"] then
      match Json.get? members (str "id"), Json.get? members (str "kind"), Json.get? members (str "text") with
      | some (.str id), some (.str kind), some (.str text) =>
        if id == blockId blockNumber && (kind == str "paragraph" || kind == str "table_cell") &&
            !text.isEmpty then do
          let (_, links) ← linkParts text
          let next ← storedLinks nextLinkNumber links
          return (⟨id, kind, text⟩, next)
        else .error invalidStoredMap
      | _, _, _ => .error invalidStoredMap
    else .error invalidStoredMap
  | _ => .error invalidStoredMap

def storedBlocks (blockNumber nextLinkNumber : Nat) : List Json → Except DocxError (List DocxBlock)
  | [] => .ok []
  | value :: values => do
    let (block, next) ← storedBlock blockNumber nextLinkNumber value
    let blocks ← storedBlocks (blockNumber + 1) next values
    return block :: blocks

def docxBlocksFromStorage : Json → Except DocxError (List DocxBlock)
  | .arr values =>
    if values.isEmpty || maxDocxBlocks < values.length then .error invalidStoredMap
    else storedBlocks 1 1 values
  | _ => .error invalidStoredMap

def outdatedTemplateMessage : String :=
  "This Word document was imported by an earlier Oveo version that could not edit its " ++
    "layout safely. Upload the document again to continue editing it."

def requireMatchingBlocks (blocks : List DocxBlock) (stored : Json) : Except DocxError Unit :=
  match docxBlocksFromStorage stored with
  | .ok restored =>
    if restored = blocks then .ok () else .error ⟨.docxTemplateOutdated, outdatedTemplateMessage⟩
  | .error _ => .error ⟨.docxTemplateOutdated, outdatedTemplateMessage⟩

end Oveo.Docx
