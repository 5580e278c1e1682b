import Oveo.Docx.Render

/-! # Word packages

`docx.py` from the archive to the tree of the document part, and back.  A package is the list of its
members, in the order of the directory of the archive, each with what its stream is inflated to up to
the size that is declared for it.  What `zipfile` and `lxml` do with bytes is a parameter. -/

namespace Oveo.Docx

open Oveo.Lib

abbrev PartBytes := List UInt8

/-! ## Limits -/

def maxDocxEntries : Nat := 2048

def maxDocxUncompressedBytes : Nat := 50000000

def maxDocxXmlPartBytes : Nat := 12000000

def maxCompressionRatio : Nat := 500

def minDocxUncompressedBytes : Nat := 20000000

/-- `docx_uncompressed_limit`. -/
def docxUncompressedLimit (maxUploadBytes : Nat) : Nat :=
  min maxDocxUncompressedBytes (max minDocxUncompressedBytes (maxUploadBytes * 20))

/-- `_xml_part_limit`. -/
def xmlPartLimit (maxUncompressedBytes : Nat) : Nat := min maxDocxXmlPartBytes (maxUncompressedBytes / 4)

/-! ## Errors -/

inductive PackageCode where
  | invalidDocx
  | unsafeDocxPackage
  | encryptedDocx
  | docxExpansionTooLarge
  | macroEnabledDocx
  | unsupportedDocxHyperlink
  | docxTooComplex
deriving DecidableEq, Repr

/-- A `DocxError` of the package, or one of its document part. -/
inductive PackageError where
  | package (code : PackageCode) (message : String)
  | document (error : DocxError)
deriving DecidableEq, Repr

def unsafePackage (message : String) : PackageError := .package .unsafeDocxPackage message

def invalidPackage (message : String) : PackageError := .package .invalidDocx message

def liftDocx {α : Type} : Except DocxError α → Except PackageError α
  | .ok value => .ok value
  | .error error => .error (.document error)

/-! ## The directory of the archive -/

/-- The fields of a `ZipInfo`. -/
structure ZipInfo where
  filename : Str
  flagBits : Nat
  compressType : Nat
  externalAttr : Nat
  fileSize : Nat
  compressSize : Nat
deriving DecidableEq, Repr

/-- How the stream of a member reads. -/
inductive StreamState where
  | intact
  /-- Its checksum is wrong. -/
  | damaged
  /-- It cannot be inflated. -/
  | broken
deriving DecidableEq, Repr

structure ZipMember where
  info : ZipInfo
  stream : PartBytes
  state : StreamState
deriving DecidableEq, Repr

/-- `_read_member`. -/
def readMember (member : ZipMember) : PartBytes := member.stream.take member.info.fileSize

def zipStored : Nat := 0

def zipDeflated : Nat := 8

def isAsciiName (name : Str) : Bool := name.all fun c => c.val < 128

/-- `stat.S_ISLNK` of the mode of a member, if it has one. -/
def isLink (info : ZipInfo) : Bool :=
  let fileMode := (info.externalAttr >>> 16) &&& 0xFFFF
  fileMode != 0 && fileMode &&& 0o170000 == 0o120000

/-- Is a name empty or absolute, or does it lead upwards? -/
def isUnsafeName (name : Str) : Bool :=
  name.isEmpty || name.head? == some (codePoint '/') || (name.splitOn (codePoint '/')).contains (str "..") ||
    name.contains (codePoint '\\')

/-- One round of the loop of `_validated_infos`, after these names and this many bytes. -/
def checkInfo (maxUncompressedBytes : Nat) (seen : List Str) (total : Nat) (info : ZipInfo) : Except PackageError Unit :=
  if isUnsafeName info.filename || seen.contains info.filename then .error (unsafePackage "The DOCX package contains unsafe paths.")
  else if !isAsciiName info.filename && info.flagBits &&& 0x800 == 0 then
    .error (unsafePackage "The DOCX package contains unsupported names.")
  else if info.flagBits &&& 0x1 != 0 then .error (.package .encryptedDocx "Encrypted DOCX files are not supported.")
  else if info.compressType != zipStored && info.compressType != zipDeflated then
    .error (unsafePackage "The DOCX package uses an unsupported compression method.")
  else if isLink info then .error (unsafePackage "DOCX package links are not supported.")
  else if maxUncompressedBytes < total + info.fileSize then
    .error (.package .docxExpansionTooLarge "The DOCX package expands beyond the safety limit.")
  else if 0 < info.fileSize && 0 < info.compressSize && maxCompressionRatio * info.compressSize < info.fileSize then
    .error (unsafePackage "The DOCX package has an unsafe compression ratio.")
  else .ok ()

def checkInfos (maxUncompressedBytes : Nat) (seen : List Str) (total : Nat) : List ZipInfo → Except PackageError Unit
  | [] => .ok ()
  | info :: infos => do
    checkInfo maxUncompressedBytes seen total info
    checkInfos maxUncompressedBytes (info.filename :: seen) (total + info.fileSize) infos

/-- `_validated_infos`. -/
def validatedInfos (maxUncompressedBytes : Nat) (infos : List ZipInfo) : Except PackageError Unit :=
  if infos.isEmpty || maxDocxEntries < infos.length then .error (unsafePackage "The DOCX package has too many entries.")
  else checkInfos maxUncompressedBytes [] 0 infos

/-- `testzip`: none if a stream cannot be inflated, and whether all checksums before it are right. -/
def testzip : List ZipMember → Option Bool
  | [] => some true
  | member :: members =>
    match member.state with
    | .intact => testzip members
    | .damaged => some false
    | .broken => none

/-- `_open_package`.  There are no members if the bytes are no archive. -/
def openPackage (maxUncompressedBytes : Nat) (archive : Option (List ZipMember)) : Except PackageError (List ZipMember) :=
  match archive with
  | none => .error (invalidPackage "The file is not a valid DOCX package.")
  | some members => do
    validatedInfos maxUncompressedBytes (members.map ZipMember.info)
    match testzip members with
    | none => .error (invalidPackage "The file is not a valid DOCX package.")
    | some false => .error (invalidPackage "The DOCX package is damaged.")
    | some true => .ok members

/-! ## XML parts -/

/-- A `Default` or `Override` of the content types. -/
structure TypeDeclaration where
  isOverride : Bool
  partName : Option Str
  contentType : Str
deriving DecidableEq, Repr

structure Relationship where
  id : Option Str
  type : Str
  targetMode : Option Str
deriving DecidableEq, Repr

/-- What `lxml` makes of bytes.  There is nothing if they are no XML. -/
structure Lxml where
  /-- `_ElementCounter` stops. -/
  isTooComplex : PartBytes → Bool
  /-- `docinfo.doctype` is not empty. -/
  hasDoctype : PartBytes → Bool
  contentTypes : PartBytes → Option (List TypeDeclaration)
  relationships : PartBytes → Option (List Relationship)
  document : PartBytes → Option DocumentPart
  /-- `tostring`, with a declaration. -/
  write : DocumentPart → PartBytes

def ascii (text : String) : PartBytes := text.toList.map fun c => UInt8.ofNat c.toNat

def isByteSpace (byte : UInt8) : Bool := byte == 0x20 || (0x09 ≤ byte && byte ≤ 0x0D)

def isWordByte (byte : UInt8) : Bool :=
  (0x30 ≤ byte && byte ≤ 0x39) || (0x41 ≤ byte && byte ≤ 0x5A) || byte == 0x5F || (0x61 ≤ byte && byte ≤ 0x7A)

def upperByte (byte : UInt8) : UInt8 := if 0x61 ≤ byte && byte ≤ 0x7A then byte - 0x20 else byte

def lowerByte (byte : UInt8) : UInt8 := if 0x41 ≤ byte && byte ≤ 0x5A then byte + 0x20 else byte

def isQuoteByte (byte : UInt8) : Bool := byte == 0x22 || byte == 0x27

/-- `part in data`. -/
def containsBytes (part : PartBytes) : PartBytes → Bool
  | [] => part.isEmpty
  | byte :: data => part.isPrefixOf (byte :: data) || containsBytes part data

/-- `_WIDE_ENCODING_STARTS`. -/
def wideEncodingStarts : List PartBytes := [[0xFF, 0xFE], [0xFE, 0xFF], [0x3C, 0x00], [0x00, 0x3C], [0x00, 0x00]]

/-- The value behind `encoding`, with its equals sign and quotes. -/
def encodingValue (data : PartBytes) : Option PartBytes :=
  match data.dropWhile isByteSpace with
  | 0x3D :: data =>
    match data.dropWhile isByteSpace with
    | quote :: data =>
      if isQuoteByte quote && data.any isQuoteByte then some (data.takeWhile fun byte => !isQuoteByte byte) else none
    | [] => none
  | _ => none

/-- The first value that `_DECLARED_ENCODING` finds behind a byte. -/
def scanEncoding (previous : UInt8) : PartBytes → Option PartBytes
  | [] => none
  | byte :: data =>
    let here := if !isWordByte previous && (ascii "encoding").isPrefixOf (byte :: data) then encodingValue (data.drop 7) else none
    match here with
    | some value => some value
    | none => if byte == 0x3E then none else scanEncoding byte data

/-- `_DECLARED_ENCODING`. -/
def declaredEncoding (data : PartBytes) : Option PartBytes :=
  if (ascii "<?xml").isPrefixOf data then scanEncoding 0x6C (data.drop 5) else none

/-- `_require_supported_encoding`. -/
def isSupportedEncoding (data : PartBytes) : Bool :=
  if wideEncodingStarts.any fun start => start.isPrefixOf data then true
  else
    let text := if [0xEF, 0xBB, 0xBF].isPrefixOf data then data.drop 3 else data
    (declaredEncoding text).all (fun declared => [ascii "utf-8", ascii "utf8"].contains (declared.map lowerByte)) &&
      (text.dropWhile isByteSpace).head? == some 0x3C

/-- `b"<!DOCTYPE" in data.upper()`. -/
def mentionsDoctype (data : PartBytes) : Bool := containsBytes (ascii "<!DOCTYPE") (data.map upperByte)

section

variable (lxml : Lxml)

/-- `_xml`, for a part that is read as `read` says. -/
def xmlPart {α : Type} (label : String) (maxBytes : Nat) (read : PartBytes → Option α) (data : PartBytes) : Except PackageError α :=
  if maxBytes < data.length || mentionsDoctype data then .error (invalidPackage ("The DOCX " ++ label ++ " part is not supported."))
  else if !isSupportedEncoding data then .error (invalidPackage ("The DOCX " ++ label ++ " part uses an unsupported encoding."))
  else if maxDocxParagraphs < data.count 0x3C && lxml.isTooComplex data then
    .error (.package .docxTooComplex "The DOCX contains too many elements to process safely.")
  else
    match read data with
    | none => .error (invalidPackage ("The DOCX " ++ label ++ " part is malformed."))
    | some tree => if lxml.hasDoctype data then .error (invalidPackage ("The DOCX " ++ label ++ " part is not supported.")) else .ok tree

def contentTypesName : Str := str "[Content_Types].xml"

def documentPartName : Str := str "word/document.xml"

def documentRelsName : Str := str "word/_rels/document.xml.rels"

def wordMainContentType : Str := str "application/vnd.openxmlformats-officedocument.wordprocessingml.document.main+xml"

def member? (members : List ZipMember) (name : Str) : Option ZipMember := members.find? fun member => member.info.filename == name

variable (casefold : Str → Str)

/-- `_validate_content_types`. -/
def validateContentTypes (members : List ZipMember) : Except PackageError Unit :=
  match member? members contentTypesName, member? members documentPartName with
  | some member, some _ => do
    let declarations ← xmlPart lxml "content-types" maxDocxXmlPartBytes lxml.contentTypes (readMember member)
    if (declarations.any fun declaration => occursIn (str "macroenabled") (casefold declaration.contentType)) ||
        (members.any fun member => (str "vbaproject.bin").isSuffixOf (casefold member.info.filename)) then
      .error (.package .macroEnabledDocx "Macro-enabled Word files are not supported.")
    else
      let mainTypes := (declarations.filter fun declaration =>
        declaration.isOverride && declaration.partName == some (str "/word/document.xml")).map TypeDeclaration.contentType
      if mainTypes.isEmpty || mainTypes.any fun mainType => mainType != wordMainContentType then
        .error (invalidPackage "The package is not a standard DOCX document.")
      else .ok ()
  | _, _ => .error (invalidPackage "The DOCX package is missing required document parts.")

/-- The loop of `_hyperlink_relationships`. -/
def hyperlinkIds : List Relationship → Except PackageError (List Str)
  | [] => .ok []
  | relationship :: relationships =>
    if (str "/hyperlink").isSuffixOf relationship.type then
      match relationship.id with
      | some (c :: id) =>
        if relationship.targetMode = some (str "External") then do
          let ids ← hyperlinkIds relationships
          return (c :: id) :: ids
        else .error (.package .unsupportedDocxHyperlink "The DOCX contains an unsupported hyperlink relationship.")
      | none | some [] => .error (.package .unsupportedDocxHyperlink "The DOCX contains an unsupported hyperlink relationship.")
    else hyperlinkIds relationships

/-- `_hyperlink_relationships`. -/
def hyperlinkRelationships (members : List ZipMember) : Except PackageError (List Str) :=
  match member? members documentRelsName with
  | none => .ok []
  | some member => do
    let relationships ← xmlPart lxml "relationships" maxDocxXmlPartBytes lxml.relationships (readMember member)
    hyperlinkIds relationships

/-- What `_parse_package` has when it comes to the paragraphs: the members, the relationships and the document part. -/
structure PackageParts where
  members : List ZipMember
  relationships : List Str
  document : DocumentPart

/-- `_parse_package`, up to the paragraphs. -/
def packageParts (maxUncompressedBytes : Nat) (archive : Option (List ZipMember)) : Except PackageError PackageParts := do
  let members ← openPackage maxUncompressedBytes archive
  validateContentTypes lxml casefold members
  let relationships ← hyperlinkRelationships lxml members
  match member? members documentPartName with
  | none => .error (invalidPackage "The DOCX package is missing required document parts.")
  | some member =>
    let document ← xmlPart lxml "document" (xmlPartLimit maxUncompressedBytes) lxml.document (readMember member)
    return { members, relationships, document }

variable (isHyperlinkInstruction : Str → Bool)

/-- `extract_docx` of an archive. -/
def extractPackage (maxUncompressedBytes : Nat) (archive : Option (List ZipMember)) : Except PackageError ExtractedDocx := do
  let parts ← packageParts lxml casefold maxUncompressedBytes archive
  liftDocx (extractDocx isHyperlinkInstruction parts.relationships parts.document)

/-! ## Writing -/

variable (compressedSize : Nat → PartBytes → Nat)

/-- `writestr`, and what the directory says of the member afterwards. -/
def writtenMember (info : ZipInfo) (data : PartBytes) : ZipMember where
  info :=
    { info with
      flagBits := if isAsciiName info.filename then 0 else 0x800
      externalAttr := if info.externalAttr = 0 then 0o600 <<< 16 else info.externalAttr
      fileSize := data.length
      compressSize := compressedSize info.compressType data }
  stream := data
  state := .intact

/-- The archive `render_docx` writes. -/
def exportMembers (members : List ZipMember) (document : PartBytes) : List ZipMember :=
  members.map fun member =>
    writtenMember compressedSize member.info (if member.info.filename = documentPartName then document else readMember member)

/-- `render_docx` of an archive. -/
def renderPackage (maxUncompressedBytes : Nat) (archive : Option (List ZipMember)) (candidates : List ReplacementCandidate)
    (stored : Option Json) : Except PackageError (List ZipMember) := do
  let parts ← packageParts lxml casefold maxUncompressedBytes archive
  let rendered ← liftDocx (renderDocx isHyperlinkInstruction parts.relationships parts.document candidates stored)
  return exportMembers compressedSize parts.members (lxml.write rendered)

end

end Oveo.Docx
