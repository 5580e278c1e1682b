import Oveo.Docx.Export
import Oveo.Docx.Package
import Oveo.Docx.Relabel

/-! # An exported package

The export has the members of the template in their order.  All but the document part have the bytes
they had, and what the directory says of them passes the checks of an upload again, but for the sizes,
which are those of a new compression. -/

namespace Oveo.Docx

open Oveo.Lib

/-! ## What the checks of the directory mean -/

/-- A member that `_validated_infos` allows, whatever its size. -/
structure IsSafeInfo (info : ZipInfo) : Prop where
  name : isUnsafeName info.filename = false
  encoded : isAsciiName info.filename = true ∨ info.flagBits &&& 0x800 ≠ 0
  notEncrypted : info.flagBits &&& 0x1 = 0
  method : info.compressType = zipStored ∨ info.compressType = zipDeflated
  notLink : isLink info = false

/-- It does not expand too far. -/
def HasSafeRatio (info : ZipInfo) : Prop :=
  0 < info.fileSize → 0 < info.compressSize → info.fileSize ≤ maxCompressionRatio * info.compressSize

section

variable {maxUncompressedBytes total : Nat} {seen : List Str} {info : ZipInfo} {infos : List ZipInfo}

theorem checkInfo_ok : checkInfo maxUncompressedBytes seen total info = .ok () ↔
    IsSafeInfo info ∧ HasSafeRatio info ∧ info.filename ∉ seen ∧ total + info.fileSize ≤ maxUncompressedBytes := by
  have ofEnd (bad : Prop) [Decidable bad] (error : PackageError) :
      (if bad then .error error else (.ok () : Except PackageError Unit)) = .ok () ↔ ¬ bad := by
    split <;> simp_all
  simp only [checkInfo, ite_error_eq_ok, ofEnd]
  constructor
  · intro passed
    obtain ⟨name, encoded, plain, method, notLink, fits, ratio⟩ := passed
    simp only [Bool.or_eq_true, List.contains_iff_mem, not_or, Bool.not_eq_true] at name
    refine ⟨⟨name.1, ?_, by simpa using plain, ?_, by simpa using notLink⟩, ?_, name.2, by omega⟩
    · by_cases isAscii : isAsciiName info.filename = true
      · exact .inl isAscii
      · exact .inr (by simpa [isAscii] using encoded)
    · simpa [← or_iff_not_imp_left] using method
    · intro some? compressed
      simp only [Bool.and_eq_true, decide_eq_true_eq, not_and] at ratio
      exact Nat.le_of_not_lt (ratio ⟨some?, compressed⟩)
  · intro safe
    obtain ⟨⟨name, encoded, plain, method, notLink⟩, ratio, unseen, fits⟩ := safe
    refine ⟨by simp [name, unseen], ?_, by simp [plain], ?_, by simp [notLink], by omega, ?_⟩
    · obtain isAscii | flagged := encoded
      · simp [isAscii]
      · simp [flagged]
    · obtain isMethod | isMethod := method <;> simp [isMethod, zipStored, zipDeflated]
    · simp only [Bool.and_eq_true, decide_eq_true_eq, not_and, Nat.not_lt]
      exact fun both => ratio both.1 both.2

theorem checkInfos_ok : checkInfos maxUncompressedBytes seen total infos = .ok () ↔
    (∀ info ∈ infos, IsSafeInfo info ∧ HasSafeRatio info) ∧ (infos.map ZipInfo.filename).Nodup ∧
      (∀ info ∈ infos, info.filename ∉ seen) ∧ (infos ≠ [] → total + (infos.map ZipInfo.fileSize).sum ≤ maxUncompressedBytes) := by
  induction infos generalizing seen total with
  | nil => simp [checkInfos]
  | cons info infos inductionHypothesis =>
    have passes : checkInfos maxUncompressedBytes seen total (info :: infos) = .ok () ↔
        checkInfo maxUncompressedBytes seen total info = .ok () ∧
          checkInfos maxUncompressedBytes (info.filename :: seen) (total + info.fileSize) infos = .ok () := by
      rw [checkInfos, ok_bind_iff]
      exact ⟨fun ⟨_, first, rest⟩ => ⟨first, rest⟩, fun ⟨first, rest⟩ => ⟨(), first, rest⟩⟩
    rw [passes, checkInfo_ok, inductionHypothesis]
    simp only [List.forall_mem_cons, List.map_cons, List.nodup_cons, List.sum_cons, ne_eq, reduceCtorEq, not_false_eq_true, true_implies]
    constructor
    · intro passed
      obtain ⟨⟨safe, ratio, unseen, fits⟩, rest, distinct, others, within⟩ := passed
      refine ⟨⟨⟨safe, ratio⟩, rest⟩, ⟨?_, distinct⟩, ⟨unseen, fun other listed => List.not_mem_of_not_mem_cons (others other listed)⟩, ?_⟩
      · intro again
        obtain ⟨other, listed, same⟩ := List.mem_map.mp again
        exact List.ne_of_not_mem_cons (others other listed) same
      · cases infos with
        | nil => simpa using fits
        | cons next infos =>
          have bound := within (by simp)
          omega
    · intro passed
      obtain ⟨⟨⟨safe, ratio⟩, rest⟩, ⟨notAgain, distinct⟩, ⟨unseen, others⟩, within⟩ := passed
      refine ⟨⟨safe, ratio, unseen, by omega⟩, rest, distinct, fun other listed => ?_, fun _ => by omega⟩
      apply List.not_mem_cons_of_ne_of_not_mem _ (others other listed)
      intro same
      exact notAgain (same ▸ List.mem_map_of_mem listed)

/-- What an accepted package is: few members with safe names of their own, none a link or encrypted, that
expand together to no more than the limit. -/
theorem validatedInfos_ok : validatedInfos maxUncompressedBytes infos = .ok () ↔
    infos ≠ [] ∧ infos.length ≤ maxDocxEntries ∧ (∀ info ∈ infos, IsSafeInfo info ∧ HasSafeRatio info) ∧
      (infos.map ZipInfo.filename).Nodup ∧ (infos.map ZipInfo.fileSize).sum ≤ maxUncompressedBytes := by
  rw [validatedInfos, ite_error_eq_ok, checkInfos_ok]
  simp only [Bool.or_eq_true, List.isEmpty_iff, decide_eq_true_eq, not_or, Nat.not_lt, List.not_mem_nil, not_false_eq_true,
    implies_true, Nat.zero_add, true_and]
  constructor
  · intro passed
    obtain ⟨⟨nonempty, few⟩, safe, distinct, within⟩ := passed
    exact ⟨nonempty, few, safe, distinct, within nonempty⟩
  · intro passed
    obtain ⟨nonempty, few, safe, distinct, within⟩ := passed
    exact ⟨⟨nonempty, few⟩, safe, distinct, fun _ => within⟩

end

/-! ## The members of the export -/

section

variable {compressedSize : Nat → PartBytes → Nat} {maxUncompressedBytes : Nat} {members : List ZipMember} {member : ZipMember}
  {document : PartBytes} {name : Str} {archive : Option (List ZipMember)}

@[simp] theorem readMember_written (info : ZipInfo) (data : PartBytes) : readMember (writtenMember compressedSize info data) = data :=
  List.take_length

theorem isSafeInfo_written {info : ZipInfo} (safe : IsSafeInfo info) (data : PartBytes) :
    IsSafeInfo (writtenMember compressedSize info data).info := by
  constructor
  case name => exact safe.name
  case encoded =>
    by_cases isAscii : isAsciiName info.filename = true
    · exact .inl isAscii
    · exact .inr (by simp [writtenMember, isAscii])
  case notEncrypted =>
    simp only [writtenMember]
    split <;> rfl
  case method => exact safe.method
  case notLink =>
    have notLink := safe.notLink
    simp only [isLink, writtenMember] at notLink ⊢
    split
    next => rfl
    next => exact notLink

theorem filenames_export : (exportMembers compressedSize members document).map (fun member => member.info.filename) =
    members.map fun member => member.info.filename := by
  rw [exportMembers, List.map_map]
  rfl

theorem testzip_export : testzip (exportMembers compressedSize members document) = some true := by
  induction members with
  | nil => rfl
  | cons member members inductionHypothesis => exact inductionHypothesis

theorem member?_export : member? (exportMembers compressedSize members document) name = (member? members name).map fun member =>
    writtenMember compressedSize member.info (if member.info.filename = documentPartName then document else readMember member) := by
  rw [member?, exportMembers, List.find?_map, member?]
  rfl

/-- Another part than the document reads as before. -/
theorem member?_export_other (other : name ≠ documentPartName) :
    (member? (exportMembers compressedSize members document) name).map readMember = (member? members name).map readMember := by
  rw [member?_export, Option.map_map]
  apply Option.map_congr
  intro member found
  have isName : member.info.filename = name := by simpa using List.find?_some found
  rw [Function.comp_apply, readMember_written, isName, if_neg other]

theorem member?_export_document (present : (member? members documentPartName).isSome) :
    (member? (exportMembers compressedSize members document) documentPartName).map readMember = some document := by
  obtain ⟨member, found⟩ := Option.isSome_iff_exists.mp present
  have isName : member.info.filename = documentPartName := by simpa using List.find?_some found
  rw [member?_export, found, Option.map_some, Option.map_some, readMember_written, if_pos isName]

theorem openPackage_ok (opened : openPackage maxUncompressedBytes archive = .ok members) :
    archive = some members ∧ validatedInfos maxUncompressedBytes (members.map ZipMember.info) = .ok () := by
  cases archive with
  | none => cases opened
  | some found =>
    rw [openPackage, ok_bind_iff] at opened
    obtain ⟨checked, valid, opened⟩ := opened
    split at opened
    · cases opened
    · cases opened
    · cases opened
      exact ⟨rfl, valid⟩

/-- The sizes of an archive are within the limits. -/
structure FitsLimits (maxUncompressedBytes : Nat) (members : List ZipMember) : Prop where
  total : (members.map fun member => member.info.fileSize).sum ≤ maxUncompressedBytes
  ratio : ∀ member ∈ members, HasSafeRatio member.info

/-- The export passes the checks of an upload exactly if its sizes do. -/
theorem openPackage_export (opened : openPackage maxUncompressedBytes archive = .ok members) :
    openPackage maxUncompressedBytes (some (exportMembers compressedSize members document)) =
        .ok (exportMembers compressedSize members document) ↔
      FitsLimits maxUncompressedBytes (exportMembers compressedSize members document) := by
  obtain ⟨-, valid⟩ := openPackage_ok opened
  obtain ⟨nonempty, few, safe, distinct, -⟩ := validatedInfos_ok.mp valid
  have again : validatedInfos maxUncompressedBytes ((exportMembers compressedSize members document).map ZipMember.info) = .ok () ↔
      FitsLimits maxUncompressedBytes (exportMembers compressedSize members document) := by
    rw [validatedInfos_ok]
    constructor
    · intro passed
      obtain ⟨-, -, each, -, within⟩ := passed
      refine ⟨by simpa [List.map_map, Function.comp_def] using within, fun member listed => ?_⟩
      exact (each member.info (List.mem_map_of_mem listed)).2
    · intro fits
      refine ⟨by simpa [exportMembers] using nonempty, by simpa [exportMembers] using few, ?_, ?_, ?_⟩
      · intro info listed
        obtain ⟨member, isMember, rfl⟩ := List.mem_map.mp listed
        refine ⟨?_, fits.ratio member isMember⟩
        obtain ⟨original, isOriginal, rfl⟩ := List.mem_map.mp isMember
        exact isSafeInfo_written (safe original.info (List.mem_map_of_mem isOriginal)).1 _
      · rw [List.map_map] at distinct ⊢
        have sameNames := @filenames_export compressedSize members document
        exact sameNames ▸ distinct
      · simpa [List.map_map, Function.comp_def] using fits.total
  rw [← again, openPackage]
  constructor
  · intro passes
    obtain ⟨checked, valid, -⟩ := ok_bind_iff.mp passes
    exact valid
  · intro valid
    rw [valid, ok_bind_eq, testzip_export]

end

/-! ## Reading the export -/

section

variable {lxml : Lxml} {casefold : Str → Str} {compressedSize : Nat → PartBytes → Nat} {members : List ZipMember} {document : PartBytes}
  {maxUncompressedBytes : Nat} {archive : Option (List ZipMember)} {parts : PackageParts}

theorem member?_isSome {name : Str} : (member? members name).isSome ↔ ∃ member ∈ members, member.info.filename = name := by
  simp [member?]

/-- The content types are those of the template. -/
theorem validateContentTypes_export (valid : validateContentTypes lxml casefold members = .ok ()) :
    validateContentTypes lxml casefold (exportMembers compressedSize members document) = .ok () := by
  rw [validateContentTypes] at valid ⊢
  cases types : member? members contentTypesName with
  | none => simp [types] at valid
  | some typesMember =>
    cases part : member? members documentPartName with
    | none => simp [types, part] at valid
    | some documentMember =>
      have other : contentTypesName ≠ documentPartName := by decide
      have sameTypes := @member?_export_other compressedSize members document _ other
      have samePart := @member?_export_document compressedSize members document (by rw [part]; rfl)
      rw [types, Option.map_some] at sameTypes
      obtain ⟨newTypes, foundTypes, readTypes⟩ := Option.map_eq_some_iff.mp sameTypes
      obtain ⟨newPart, foundPart, -⟩ := Option.map_eq_some_iff.mp samePart
      have sameNames : (exportMembers compressedSize members document).any (fun member =>
            (str "vbaproject.bin").isSuffixOf (casefold member.info.filename)) =
          members.any fun member => (str "vbaproject.bin").isSuffixOf (casefold member.info.filename) := by
        rw [exportMembers, List.any_map]
        rfl
      rw [types, part] at valid
      rw [foundTypes, foundPart]
      simp only [readTypes, sameNames]
      exact valid

theorem hyperlinkRelationships_export :
    hyperlinkRelationships lxml (exportMembers compressedSize members document) = hyperlinkRelationships lxml members := by
  have other : documentRelsName ≠ documentPartName := by decide
  have sameRels := @member?_export_other compressedSize members document _ other
  rw [hyperlinkRelationships, hyperlinkRelationships]
  cases found : member? members documentRelsName with
  | none =>
    rw [found, Option.map_none, Option.map_eq_none_iff] at sameRels
    rw [sameRels]
  | some member =>
    rw [found, Option.map_some] at sameRels
    obtain ⟨again, isAgain, sameBytes⟩ := Option.map_eq_some_iff.mp sameRels
    rw [isAgain]
    simp only [sameBytes]

theorem packageParts_ok (isPackage : packageParts lxml casefold maxUncompressedBytes archive = .ok parts) :
    openPackage maxUncompressedBytes archive = .ok parts.members ∧ validateContentTypes lxml casefold parts.members = .ok () ∧
      hyperlinkRelationships lxml parts.members = .ok parts.relationships ∧ (member? parts.members documentPartName).isSome := by
  simp only [packageParts, ok_bind_iff] at isPackage
  obtain ⟨members, opened, checked, valid, relationships, areRelationships, isPackage⟩ := isPackage
  split at isPackage
  next => cases isPackage
  next member found =>
    obtain ⟨tree, -, same⟩ := ok_bind_iff.mp isPackage
    cases same
    exact ⟨opened, valid, areRelationships, by rw [found]; rfl⟩

/-- The declaration `tostring` begins with. -/
def xmlDeclaration : PartBytes := ascii "<?xml version='1.0' encoding='UTF-8' standalone='yes'?>\n"

/-- `lxml` reads the tree it has written. -/
structure RoundTrips (lxml : Lxml) (document : DocumentPart) : Prop where
  declared : ∃ rest, lxml.write document = xmlDeclaration ++ rest
  read : ∃ again, lxml.document (lxml.write document) = some again ∧ again.relabel = document.relabel
  counted : lxml.isTooComplex (lxml.write document) = document.isTooComplex
  noDoctype : lxml.hasDoctype (lxml.write document) = false

theorem isSupportedEncoding_declared (rest : PartBytes) : isSupportedEncoding (xmlDeclaration ++ rest) = true := rfl

theorem xmlPart_ok {α : Type} {label : String} {maxBytes : Nat} {read : PartBytes → Option α} {data : PartBytes} {tree : α}
    (small : data.length ≤ maxBytes) (plain : mentionsDoctype data = false) (encoded : isSupportedEncoding data = true)
    (bounded : lxml.isTooComplex data = false) (isTree : read data = some tree) (noDoctype : lxml.hasDoctype data = false) :
    xmlPart lxml label maxBytes read data = .ok tree := by
  rw [xmlPart, isTree]
  simp [plain, encoded, bounded, noDoctype, Nat.not_lt.mpr small]

/-- The written document part is read, if it is not too large and its text does not look like a DOCTYPE. -/
theorem xmlPart_written {rendered : DocumentPart} {maxBytes : Nat} (roundTrips : RoundTrips lxml rendered)
    (bounded : rendered.isTooComplex = false) (small : (lxml.write rendered).length ≤ maxBytes)
    (plain : mentionsDoctype (lxml.write rendered) = false) :
    ∃ again, xmlPart lxml "document" maxBytes lxml.document (lxml.write rendered) = .ok again ∧ again.relabel = rendered.relabel := by
  obtain ⟨again, isRead, same⟩ := roundTrips.read
  obtain ⟨rest, isWritten⟩ := roundTrips.declared
  have encoded : isSupportedEncoding (lxml.write rendered) = true := by rw [isWritten, isSupportedEncoding_declared]
  exact ⟨again, xmlPart_ok small plain encoded (roundTrips.counted.trans bounded) isRead roundTrips.noDoctype, same⟩

/-- What the export needs to be taken as an upload: its sizes are within the limits, and no text looks like a DOCTYPE. -/
structure IsUpload (lxml : Lxml) (maxUncompressedBytes : Nat) (exported : List ZipMember) (rendered : DocumentPart) : Prop where
  fits : FitsLimits maxUncompressedBytes exported
  small : (lxml.write rendered).length ≤ xmlPartLimit maxUncompressedBytes
  bounded : rendered.isTooComplex = false
  plain : mentionsDoctype (lxml.write rendered) = false

theorem packageParts_export {rendered : DocumentPart} (isPackage : packageParts lxml casefold maxUncompressedBytes archive = .ok parts)
    (roundTrips : RoundTrips lxml rendered)
    (isUpload : IsUpload lxml maxUncompressedBytes (exportMembers compressedSize parts.members (lxml.write rendered)) rendered) :
    ∃ again, packageParts lxml casefold maxUncompressedBytes (some (exportMembers compressedSize parts.members (lxml.write rendered))) =
        .ok ⟨exportMembers compressedSize parts.members (lxml.write rendered), parts.relationships, again⟩ ∧
      again.relabel = rendered.relabel := by
  obtain ⟨opened, valid, areRelationships, present⟩ := packageParts_ok isPackage
  obtain ⟨again, isRead, same⟩ := xmlPart_written roundTrips isUpload.bounded isUpload.small isUpload.plain
  obtain ⟨member, found, sameBytes⟩ := Option.map_eq_some_iff.mp
    (@member?_export_document compressedSize parts.members (lxml.write rendered) present)
  refine ⟨again, ?_, same⟩
  rw [packageParts, (openPackage_export opened).mpr isUpload.fits, ok_bind_eq, validateContentTypes_export valid, ok_bind_eq,
    hyperlinkRelationships_export, areRelationships, ok_bind_eq, found]
  simp only [sameBytes, isRead, ok_bind_eq]
  rfl

variable {isHyperlinkInstruction : Str → Bool} {parsed : List (Paragraph × DocxBlock)} {candidates : List ReplacementCandidate}
  {validated : List DocxReplacement} {stored : Option Json}

end

/-! ## The field in its package -/

/-- A text in short pieces. -/
def pieces (texts : List String) : PartBytes := texts.flatMap ascii

def fieldXml (runs : List String) : PartBytes :=
  pieces
    ["<w:document xmlns:w=", "\"http://schemas.", "openxmlformats.org/", "wordprocessingml/", "2006/main\">", "<w:body>", "<w:p>"] ++
    pieces runs ++ pieces ["</w:p>", "</w:body>", "</w:document>"]

def fieldTemplate : PartBytes := fieldXml
  ["<w:r>", "<w:fldChar ", "w:fldCharType=", "\"begin\"/>", "<w:instrText>", "HYPERLINK", "</w:instrText>", "<w:fldChar ",
   "w:fldCharType=", "\"separate\"/>", "<w:t>it</w:t>", "<w:fldChar ", "w:fldCharType=", "\"end\"/>", "<w:lastRendered", "PageBreak/>",
   "</w:r>"]

def fieldExport : PartBytes := xmlDeclaration ++ fieldXml
  ["<w:r>", "<w:t xml:space=", "\"preserve\">", "See ", "</w:t>", "</w:r>", "<w:r>", "<w:fldChar ", "w:fldCharType=", "\"begin\"/>",
   "<w:instrText>", "HYPERLINK", "</w:instrText>", "<w:fldChar ", "w:fldCharType=", "\"separate\"/>", "<w:t>here</w:t>", "<w:fldChar ",
   "w:fldCharType=", "\"end\"/>", "</w:r>", "<w:r>", "<w:tab/>", "<w:t>now</w:t>", "</w:r>", "<w:r>", "<w:lastRendered", "PageBreak/>",
   "</w:r>"]

def fieldTypes : PartBytes := pieces
  ["<t><Override ", "PartName=", "\"/word/document.xml\" ", "ContentType=", "\"application/", "vnd.openxmlformats-", "officedocument.",
   "wordprocessingml.", "document.main+xml\"/>", "</t>"]

def storedMember (name : String) (data : PartBytes) : ZipMember := ⟨⟨str name, 0, zipStored, 0, data.length, data.length⟩, data, .intact⟩

def fieldMembers : List ZipMember :=
  [storedMember "[Content_Types].xml" fieldTypes, storedMember "word/document.xml" fieldTemplate, storedMember "word/media/" []]

/-- What `lxml` makes of these bytes. -/
def fieldLxml (rendered : DocumentPart) : Lxml where
  isTooComplex _ := false
  hasDoctype _ := false
  contentTypes data := if data = fieldTypes then some [⟨true, some (str "/word/document.xml"), wordMainContentType⟩] else none
  relationships _ := none
  document data := if data = fieldTemplate then some fieldDocument else if data = fieldExport then some rendered else none
  write _ := fieldExport

theorem fieldMembers_open : openPackage maxDocxUncompressedBytes (some fieldMembers) = .ok fieldMembers := by
  have valid : validatedInfos maxDocxUncompressedBytes (fieldMembers.map ZipMember.info) = .ok () := by decide +kernel
  rw [openPackage, valid]
  rfl

theorem fieldTypes_valid (rendered : DocumentPart) : validateContentTypes (fieldLxml rendered) id fieldMembers = .ok () := by
  have types : member? fieldMembers contentTypesName = some (storedMember "[Content_Types].xml" fieldTypes) := by decide +kernel
  have part : member? fieldMembers documentPartName = some (storedMember "word/document.xml" fieldTemplate) := by decide +kernel
  have data : readMember (storedMember "[Content_Types].xml" fieldTypes) = fieldTypes := List.take_length
  have isRead : (fieldLxml rendered).contentTypes fieldTypes = some [⟨true, some (str "/word/document.xml"), wordMainContentType⟩] := by
    simp only [fieldLxml, if_true]
  have declared := @xmlPart_ok (fieldLxml rendered) _ "content-types" maxDocxXmlPartBytes _ _ _ (by decide +kernel)
    (by decide +kernel) (by decide +kernel) rfl isRead rfl
  rw [validateContentTypes, types, part]
  simp only [data, declared]
  decide +kernel

theorem fieldPackage_parts (rendered : DocumentPart) :
    packageParts (fieldLxml rendered) id maxDocxUncompressedBytes (some fieldMembers) = .ok ⟨fieldMembers, [], fieldDocument⟩ := by
  have part : member? fieldMembers documentPartName = some (storedMember "word/document.xml" fieldTemplate) := by decide +kernel
  have rels : hyperlinkRelationships (fieldLxml rendered) fieldMembers = .ok [] := by
    have missing : member? fieldMembers documentRelsName = none := by decide +kernel
    rw [hyperlinkRelationships, missing]
  have data : readMember (storedMember "word/document.xml" fieldTemplate) = fieldTemplate := List.take_length
  have isRead : (fieldLxml rendered).document fieldTemplate = some fieldDocument := by
    simp only [fieldLxml, if_true]
  have read := @xmlPart_ok (fieldLxml rendered) _ "document" (xmlPartLimit maxDocxUncompressedBytes) _ _ _ (by decide +kernel)
    (by decide +kernel) (by decide +kernel) rfl isRead rfl
  rw [packageParts, fieldMembers_open, ok_bind_eq, fieldTypes_valid, ok_bind_eq, rels, ok_bind_eq, part]
  simp only [data, read, ok_bind_eq]
  rfl

theorem fieldExport_roundTrips (rendered : DocumentPart) (bounded : rendered.isTooComplex = false) : RoundTrips (fieldLxml rendered) rendered where
  declared := ⟨_, rfl⟩
  read := by
    have other : fieldExport ≠ fieldTemplate := by decide +kernel
    exact ⟨rendered, by simp only [fieldLxml, if_neg other, if_true], rfl⟩
  counted := bounded.symm
  noDoctype := rfl

end Oveo.Docx
