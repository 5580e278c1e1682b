import Oveo.Docx.Document
import Oveo.Docx.Storage
import Oveo.Docx.Tokens

/-! # Stored numbers

The extractor numbers the links of a paragraph while it does not know yet whether it keeps the paragraph.
The validator of a stored block map counts the links it finds there, so the two agree just where no
number is lost before a later link. -/

namespace Oveo.Docx

open Oveo.Lib

/-- Does a link show text? -/
def Link.showsText (link : Link) : Bool := !(textOf link.items).isEmpty

namespace Paragraph

variable (isHyperlinkInstruction : Str → Bool) (paragraph : Paragraph)

/-- The layout of a paragraph whose links are looked at. -/
def layout? : Option Layout :=
  if hasOwnAlternateContent paragraph.children || hasInteriorLayoutBreak paragraph.children then none
  else paragraphLayout isHyperlinkInstruction paragraph.children

/-- Does the paragraph become a block? -/
def isKept : Bool := (paragraph.layout? isHyperlinkInstruction).any fun layout =>
  layout.links.all Link.showsText && (ownTextNodes paragraph.children).any fun node => !node.element.text.isEmpty

/-- The links up to the first that shows no text. -/
def numbered : Nat := ((paragraph.layout? isHyperlinkInstruction).map fun layout => (layout.links.takeWhile Link.showsText).length).getD 0

def hasLinks : Bool := (paragraph.layout? isHyperlinkInstruction).any fun layout => !layout.links.isEmpty

/-- Does the text of the paragraph's block show anything? -/
def showsAnything : Bool := (paragraph.layout? isHyperlinkInstruction).any fun layout =>
  !layout.links.isEmpty || !(textOf layout.last).isEmpty

end Paragraph

/-- No number is lost: what is left out took none, or no link comes later, and no block is empty. -/
structure NoneLost (isHyperlinkInstruction : Str → Bool) (paragraphs : List Paragraph) : Prop where
  shown : ∀ paragraph ∈ paragraphs, paragraph.isKept isHyperlinkInstruction = true → paragraph.showsAnything isHyperlinkInstruction = true
  noGap : paragraphs.Pairwise fun earlier later => earlier.isKept isHyperlinkInstruction = false → 0 < earlier.numbered isHyperlinkInstruction →
    later.isKept isHyperlinkInstruction = true → later.hasLinks isHyperlinkInstruction = false

/-! ## What a paragraph takes -/

section

variable {isHyperlinkInstruction : Str → Bool} {relationships : List Str} {paragraph : Paragraph} {blockNumber linkNumber last : Nat}
  {block : DocxBlock}

theorem linkTexts_taken {parts : List (List Node × Link)} {text : Option Str}
    (built : linkTexts relationships linkNumber parts = .ok (text, last)) :
    last = linkNumber + ((parts.map Prod.snd).takeWhile Link.showsText).length ∧ text.isSome = (parts.map Prod.snd).all Link.showsText := by
  induction parts generalizing linkNumber text with
  | nil =>
    cases built
    exact ⟨rfl, rfl⟩
  | cons part parts inductionHypothesis =>
    obtain ⟨before, link⟩ := part
    rw [linkTexts] at built
    obtain ⟨plain, -, built⟩ := ok_bind_iff.mp built
    simp only at built
    rw [List.map_cons, List.takeWhile_cons, List.all_cons]
    split at built
    next hidden =>
      cases built
      simp [Link.showsText, hidden]
    next shows =>
      simp only [ite_error_eq_ok, ok_bind_iff, pure_eq_ok, Except.ok.injEq, Prod.mk.injEq, Prod.exists] at built
      obtain ⟨-, -, rest, final, isRest, rfl, rfl⟩ := built
      obtain ⟨isLast, isWhole⟩ := inductionHypothesis isRest
      have showsText : link.showsText = true := by simpa [Link.showsText] using shows
      rw [if_pos showsText, showsText, Bool.true_and, Option.isSome_map, List.length_cons]
      exact ⟨by omega, isWhole⟩

/-- What `_paragraph_block` takes of the numbers, and whether it keeps the paragraph. -/
theorem paragraphBlock_taken {block : Option DocxBlock} (built : paragraphBlock isHyperlinkInstruction paragraph.inTableCell blockNumber linkNumber
    relationships paragraph.children = .ok (block, last)) :
    last = linkNumber + paragraph.numbered isHyperlinkInstruction ∧ block.isSome = paragraph.isKept isHyperlinkInstruction := by
  rw [Paragraph.numbered, Paragraph.isKept]
  rw [paragraphBlock] at built
  split at built
  next noLayout =>
    cases built
    simp [Paragraph.layout?, noLayout]
  next layout isLayout =>
    split at built
    next alternate =>
      cases built
      simp [Paragraph.layout?, alternate]
    next noAlternate =>
      split at built
      next interior =>
        cases built
        simp [Paragraph.layout?, interior]
      next noInterior =>
        have isConsidered : paragraph.layout? isHyperlinkInstruction = some layout := by
          rw [Paragraph.layout?, isLayout]
          simp [noAlternate, noInterior]
        rw [ite_error_eq_ok] at built
        obtain ⟨⟨text, final⟩, isText, built⟩ := ok_bind_iff.mp built.2
        obtain ⟨rfl, isWhole⟩ := linkTexts_taken isText
        rw [isConsidered, Option.map_some, Option.getD_some, Option.any_some]
        change text.isSome = layout.links.all Link.showsText at isWhole
        rw [← isWhole]
        cases text with
        | none =>
          cases built
          exact ⟨rfl, rfl⟩
        | some text =>
          obtain ⟨tail, -, built⟩ := ok_bind_iff.mp built
          split at built
          next noText =>
            cases built
            exact ⟨rfl, by simpa using noText⟩
          next hasText =>
            cases built
            exact ⟨rfl, by simpa using hasText⟩

theorem paragraphBlock_record (built : paragraphBlock isHyperlinkInstruction paragraph.inTableCell blockNumber linkNumber relationships
    paragraph.children = .ok (some block, last)) :
    block.id = blockId blockNumber ∧ (block.kind == str "paragraph" || block.kind == str "table_cell") = true := by
  rw [paragraphBlock] at built
  split at built
  next => cases built
  next layout isLayout =>
    split at built
    next => cases built
    next =>
      split at built
      next => cases built
      next =>
        rw [ite_error_eq_ok] at built
        obtain ⟨⟨text, final⟩, -, built⟩ := ok_bind_iff.mp built.2
        cases text with
        | none => cases built
        | some text =>
          obtain ⟨tail, -, built⟩ := ok_bind_iff.mp built
          split at built
          next => cases built
          next =>
            cases built
            refine ⟨rfl, ?_⟩
            cases paragraph.inTableCell <;> rfl

theorem layout?_of_isBlock {layout : Layout} (isBlock : IsBlock isHyperlinkInstruction relationships linkNumber paragraph.children block layout) :
    paragraph.layout? isHyperlinkInstruction = some layout := by
  rw [Paragraph.layout?, isBlock.noAlternate, isBlock.noInteriorBreak]
  exact isBlock.isLayout

end

/-! ## One stored block -/

section

variable {blockNumber next : Nat} {block : DocxBlock} {plains : List Str} {links : List (Str × Str)}

theorem storedBlock_toModel (isId : block.id = blockId blockNumber)
    (isKind : (block.kind == str "paragraph" || block.kind == str "table_cell") = true) (isParts : linkParts block.text = .ok (plains, links)) :
    storedBlock blockNumber next block.toModel = if block.text.isEmpty then .error invalidStoredMap else
      (storedLinks next links).map fun following => (block, following) := by
  obtain ⟨id, kind, text⟩ := block
  obtain rfl : id = blockId blockNumber := isId
  have keys : Json.hasExactKeys [(str "id", .str (blockId blockNumber)), (str "kind", .str kind), (str "text", .str text)]
      [str "id", str "kind", str "text"] = true := rfl
  have storedId : Json.get? [(str "id", .str (blockId blockNumber)), (str "kind", .str kind), (str "text", .str text)] (str "id") =
      some (.str (blockId blockNumber)) := rfl
  have storedKind : Json.get? [(str "id", .str (blockId blockNumber)), (str "kind", .str kind), (str "text", .str text)] (str "kind") =
      some (.str kind) := rfl
  have storedText : Json.get? [(str "id", .str (blockId blockNumber)), (str "kind", .str kind), (str "text", .str text)] (str "text") =
      some (.str text) := rfl
  rw [DocxBlock.toModel, storedBlock, if_pos keys, storedId, storedKind, storedText]
  simp only at isKind isParts
  simp only [isKind, Bool.and_true, isParts, ok_bind_eq, beq_self_eq_true, Bool.true_and]
  cases text.isEmpty with
  | false => cases storedLinks next links <;> rfl
  | true => rfl

theorem storedLinks_same (linkNumber : Nat) (parts : List (List Node × Link)) :
    storedLinks (linkNumber + 1) (tokensOf linkNumber parts) = .ok (linkNumber + parts.length + 1) := by
  induction parts generalizing linkNumber with
  | nil => rfl
  | cons part parts inductionHypothesis =>
    rw [tokensOf, storedLinks, bne_self_eq_false, if_neg Bool.false_ne_true, inductionHypothesis, List.length_cons]
    congr 1
    omega

/-- The validator counts on from its own number. -/
theorem storedLinks_tokensOf (stored linkNumber : Nat) (parts : List (List Node × Link)) : storedLinks (stored + 1) (tokensOf linkNumber parts) =
    if parts.isEmpty then .ok (stored + 1) else if stored = linkNumber then .ok (stored + parts.length + 1) else .error invalidStoredMap := by
  cases parts with
  | nil => rfl
  | cons part parts =>
    split
    next impossible => cases impossible
    next =>
      split
      next same =>
        rw [same]
        exact storedLinks_same linkNumber _
      next other =>
        have different : (linkId (linkNumber + 1) != linkId (stored + 1)) = true :=
          bne_iff_ne.mpr fun same => other (Nat.succ_inj.mp (linkId_injective same)).symm
        rw [tokensOf, storedLinks, if_pos different]

end

/-! ## A whole map -/

section

variable {isHyperlinkInstruction : Str → Bool} {relationships : List Str} {paragraphs : List Paragraph} {count linkNumber stored : Nat}
  {parsed : List (Paragraph × DocxBlock)}

theorem noneLost_cons {paragraph : Paragraph} : NoneLost isHyperlinkInstruction (paragraph :: paragraphs) ↔
    (paragraph.isKept isHyperlinkInstruction = true → paragraph.showsAnything isHyperlinkInstruction = true) ∧
      (paragraph.isKept isHyperlinkInstruction = false → 0 < paragraph.numbered isHyperlinkInstruction → ∀ later ∈ paragraphs,
        later.isKept isHyperlinkInstruction = true → later.hasLinks isHyperlinkInstruction = false) ∧
      NoneLost isHyperlinkInstruction paragraphs := by
  constructor
  · rintro ⟨shown, noGap⟩
    obtain ⟨first, shown⟩ := List.forall_mem_cons.mp shown
    obtain ⟨head, noGap⟩ := List.pairwise_cons.mp noGap
    exact ⟨first, fun isLeft taken later listed => head later listed isLeft taken, shown, noGap⟩
  · rintro ⟨first, head, shown, noGap⟩
    exact ⟨List.forall_mem_cons.mpr ⟨first, shown⟩,
      List.pairwise_cons.mpr ⟨fun later listed isLeft taken => head isLeft taken later listed, noGap⟩⟩

/-- What the numbers of a kept paragraph are. -/
theorem kept_links {paragraph : Paragraph} {layout : Layout} (isConsidered : paragraph.layout? isHyperlinkInstruction = some layout)
    (isKept : paragraph.isKept isHyperlinkInstruction = true) : paragraph.numbered isHyperlinkInstruction = layout.parts.length ∧
      paragraph.hasLinks isHyperlinkInstruction = !layout.parts.isEmpty := by
  rw [Paragraph.isKept, isConsidered, Option.any_some, Bool.and_eq_true] at isKept
  have isLinks : layout.links.takeWhile Link.showsText = layout.links := List.takeWhile_eq_self_iff.mpr (List.all_eq_true.mp isKept.1)
  rw [Paragraph.numbered, Paragraph.hasLinks, isConsidered, Option.map_some, Option.getD_some, Option.any_some, isLinks]
  simp [Layout.links]

theorem kept_shows {paragraph : Paragraph} {layout : Layout} {block : DocxBlock}
    (isConsidered : paragraph.layout? isHyperlinkInstruction = some layout) (isText : block.text = layout.render linkNumber) :
    paragraph.showsAnything isHyperlinkInstruction = !block.text.isEmpty := by
  rw [Paragraph.showsAnything, isConsidered, Option.any_some, isText, Layout.render, Layout.links]
  cases layout.parts with
  | nil => rfl
  | cons part parts => simp [renderParts, renderLink, openToken, reservedLinkPrefix, str]

/-- The validator takes a kept block, and counts its links on from its own number. -/
theorem storedBlock_kept {paragraph : Paragraph} {block : DocxBlock} {last : Nat}
    (isBlock : paragraphBlock isHyperlinkInstruction paragraph.inTableCell (count + 1) linkNumber relationships paragraph.children =
      .ok (some block, last)) (few : linkNumber + paragraph.numbered isHyperlinkInstruction < 1000000) (stored : Nat) :
    storedBlock (count + 1) (stored + 1) block.toModel =
      if paragraph.showsAnything isHyperlinkInstruction then
        if paragraph.hasLinks isHyperlinkInstruction && stored != linkNumber then .error invalidStoredMap
        else .ok (block, stored + paragraph.numbered isHyperlinkInstruction + 1)
      else .error invalidStoredMap := by
  obtain ⟨layout, parts⟩ := paragraphBlock_eq_some isBlock
  obtain ⟨isId, isKind⟩ := paragraphBlock_record isBlock
  have isConsidered := layout?_of_isBlock parts
  have isKept : paragraph.isKept isHyperlinkInstruction = true := (paragraphBlock_taken isBlock).2.symm
  obtain ⟨isNumber, hasLinks⟩ := kept_links isConsidered isKept
  rw [isNumber] at few ⊢
  rw [storedBlock_toModel isId isKind (linkParts_block parts few), kept_shows isConsidered parts.text, hasLinks, storedLinks_tokensOf]
  cases block.text.isEmpty with
  | true => rfl
  | false =>
    cases isParts : layout.parts with
    | nil => rfl
    | cons part others =>
      by_cases same : stored = linkNumber <;> simp [same, Except.map]

/-- Where the validator has counted fewer links than the extractor, it refuses the next one. -/
theorem storedBlocks_iff (isParsed : parseParagraphs isHyperlinkInstruction relationships count linkNumber paragraphs = .ok parsed)
    (behind : stored ≤ linkNumber)
    (few : linkNumber + (paragraphs.map fun paragraph => paragraph.numbered isHyperlinkInstruction).sum < 1000000) :
    storedBlocks (count + 1) (stored + 1) (parsed.map fun entry => entry.2.toModel) = .ok (parsed.map Prod.snd) ↔
      NoneLost isHyperlinkInstruction paragraphs ∧ (stored < linkNumber → ∀ paragraph ∈ paragraphs,
        paragraph.isKept isHyperlinkInstruction = true → paragraph.hasLinks isHyperlinkInstruction = false) := by
  induction paragraphs generalizing count linkNumber stored parsed with
  | nil =>
    cases isParsed
    exact iff_of_true rfl ⟨⟨List.forall_mem_nil _, .nil⟩, fun _ => List.forall_mem_nil _⟩
  | cons paragraph paragraphs inductionHypothesis =>
    rw [parseParagraphs] at isParsed
    obtain ⟨⟨block, last⟩, isBlock, isParsed⟩ := ok_bind_iff.mp isParsed
    obtain ⟨rfl, isKept⟩ := paragraphBlock_taken isBlock
    rw [List.map_cons, List.sum_cons] at few
    cases block with
    | none =>
      have isLeft : paragraph.isKept isHyperlinkInstruction = false := isKept.symm
      rw [inductionHypothesis isParsed (Nat.le_add_right_of_le behind) (by omega), noneLost_cons, List.forall_mem_cons]
      simp only [isLeft, Bool.false_eq_true, false_implies, true_implies, true_and]
      constructor
      · rintro ⟨noneLost, unlinked⟩
        exact ⟨⟨fun taken => unlinked (by omega), noneLost⟩, fun less => unlinked (by omega)⟩
      · rintro ⟨⟨gap, noneLost⟩, unlinked⟩
        refine ⟨noneLost, fun less => ?_⟩
        rcases Nat.lt_or_ge stored linkNumber with already | level
        · exact unlinked already
        · exact gap (by omega)
    | some block =>
      have isKept : paragraph.isKept isHyperlinkInstruction = true := isKept.symm
      rw [ite_error_eq_ok] at isParsed
      obtain ⟨rest, isRest, isParsed⟩ := ok_bind_iff.mp isParsed.2
      cases isParsed
      rw [List.map_cons, List.map_cons, storedBlocks, storedBlock_kept isBlock (by omega), noneLost_cons, List.forall_mem_cons]
      simp only [isKept, Bool.true_eq_false, false_implies, true_implies, true_and]
      cases paragraph.showsAnything isHyperlinkInstruction with
      | false =>
        rw [if_neg Bool.false_ne_true]
        refine iff_of_false (fun refused => ?_) fun accepted => Bool.false_ne_true accepted.1.1
        cases refused
      | true =>
        rw [if_pos rfl]
        by_cases refused : (paragraph.hasLinks isHyperlinkInstruction && stored != linkNumber) = true
        · rw [if_pos refused]
          obtain ⟨hasLinks, apart⟩ := Bool.and_eq_true_iff.mp refused
          refine iff_of_false (fun accepted => by cases accepted) fun accepted => ?_
          have unlinked := (accepted.2 (Nat.lt_of_le_of_ne behind (bne_iff_ne.mp apart))).1
          rw [hasLinks] at unlinked
          cases unlinked
        · rw [if_neg refused]
          have unlinked (less : stored < linkNumber) : paragraph.hasLinks isHyperlinkInstruction = false := by
            simpa [Nat.ne_of_lt less] using refused
          have restIff := @inductionHypothesis _ _ (stored + paragraph.numbered isHyperlinkInstruction) _ isRest (by omega) (by omega)
          simp only [ok_bind_eq, ok_bind_iff, pure_eq_ok, Except.ok.injEq, List.cons.injEq, true_and, exists_eq_right]
          rw [restIff, Nat.add_lt_add_iff_right]
          exact and_congr_right fun _ => forall_congr' fun less => (and_iff_right (unlinked less)).symm

theorem length_of_parsed (isParsed : parseParagraphs isHyperlinkInstruction relationships count linkNumber paragraphs = .ok parsed) :
    parsed = [] ∨ count + parsed.length ≤ maxDocxBlocks := by
  induction paragraphs generalizing count linkNumber parsed with
  | nil =>
    cases isParsed
    exact .inl rfl
  | cons paragraph paragraphs inductionHypothesis =>
    rw [parseParagraphs] at isParsed
    obtain ⟨⟨block, last⟩, -, isParsed⟩ := ok_bind_iff.mp isParsed
    cases block with
    | none => exact inductionHypothesis isParsed
    | some block =>
      rw [ite_error_eq_ok] at isParsed
      obtain ⟨fits, isParsed⟩ := isParsed
      obtain ⟨rest, isRest, isParsed⟩ := ok_bind_iff.mp isParsed
      cases isParsed
      refine .inr ?_
      rcases inductionHypothesis isRest with rfl | within
      · simpa using fits
      · rw [List.length_cons]
        omega

end

/-! ## Few links -/

section

variable {isHyperlinkInstruction : Str → Bool} {children : Forest} {layout : Layout} {scan next : Scan}

theorem Scan.length_element {childTag : Tag} {node : Node} (taken : scan.element isHyperlinkInstruction childTag node = some next) :
    next.parts.length ≤ scan.parts.length + 1 := by
  rw [Scan.element] at taken
  split at taken
  next =>
    split at taken
    next => cases taken
    next =>
      split at taken
      next =>
        split at taken
        next =>
          cases taken
          exact Nat.le_succ _
        next => cases taken
      next =>
        simp only [Scan.fieldCharacter] at taken
        split at taken
        next =>
          obtain ⟨-, isNext⟩ := Option.ite_none_right_eq_some.mp taken
          cases isNext
          exact Nat.le_succ _
        next =>
          split at taken
          next =>
            obtain ⟨-, isNext⟩ := Option.ite_none_right_eq_some.mp taken
            cases isNext
            exact Nat.le_succ _
          next =>
            obtain ⟨-, isNext⟩ := Option.ite_none_right_eq_some.mp taken
            cases isNext
            simp
  next =>
    split at taken
    next =>
      rw [Scan.item] at taken
      split at taken
      next =>
        cases taken
        exact Nat.le_succ _
      next =>
        split at taken
        next => cases taken
        next =>
          cases taken
          exact Nat.le_succ _
    next =>
      cases taken
      exact Nat.le_succ _

theorem Scan.length_elements {childTag : Tag} {nodes : List Node}
    (taken : nodes.foldlM (Scan.element isHyperlinkInstruction childTag) scan = some next) :
    next.parts.length ≤ scan.parts.length + nodes.length := by
  induction nodes generalizing scan with
  | nil =>
    cases taken
    exact Nat.le_refl _
  | cons node nodes inductionHypothesis =>
    obtain ⟨between, isFirst, isRest⟩ := Option.bind_eq_some_iff.mp taken
    have first := Scan.length_element isFirst
    have rest := inductionHypothesis isRest
    rw [List.length_cons]
    omega

theorem Scan.length_child {child : Element × Forest} (taken : scan.child isHyperlinkInstruction child = some next) :
    next.parts.length ≤ scan.parts.length + (ownOf child).length := by
  simp only [Scan.child] at taken
  split at taken
  next =>
    cases taken
    exact Nat.le_add_right _ _
  next =>
    split at taken
    next =>
      obtain ⟨-, isNext⟩ := Option.ite_none_left_eq_some.mp taken
      cases isNext
      simp [ownOf, ownFrom]
    next => exact Scan.length_elements taken

theorem Scan.length_children {children : List (Element × Forest)} (taken : children.foldlM (Scan.child isHyperlinkInstruction) scan = some next) :
    next.parts.length ≤ scan.parts.length + (children.flatMap ownOf).length := by
  induction children generalizing scan with
  | nil =>
    cases taken
    exact Nat.le_refl _
  | cons child children inductionHypothesis =>
    obtain ⟨between, isFirst, isRest⟩ := Option.bind_eq_some_iff.mp taken
    have first := Scan.length_child isFirst
    have rest := inductionHypothesis isRest
    rw [List.flatMap_cons, List.length_append]
    omega

theorem length_ownFrom (ancestors : List Tag) (forest : Forest) : (ownFrom ancestors forest).length ≤ forest.elements.length := by
  induction forest generalizing ancestors with
  | nil => exact Nat.le_refl _
  | node element children next childrenHypothesis nextHypothesis =>
    have below : (if element.tag = .p then [] else ownFrom (element.tag :: ancestors) children).length ≤ children.elements.length := by
      split
      next => exact Nat.zero_le _
      next => exact childrenHypothesis _
    have rest := nextHypothesis ancestors
    rw [ownFrom, Forest.elements, List.length_cons, List.length_cons, List.length_append, List.length_append]
    omega

/-- Each link of a layout starts at an element of its own. -/
theorem length_layout (isLayout : paragraphLayout isHyperlinkInstruction children = some layout) :
    layout.parts.length ≤ children.elements.length := by
  rw [paragraphLayout] at isLayout
  split at isLayout
  next parts current scanned =>
    cases isLayout
    have few := Scan.length_children scanned
    have own := length_ownFrom [] children
    rw [show ownFrom [] children = ownNodes children from rfl, ownNodes_eq_flatMap] at own
    simpa using few.trans (by simpa using own)
  next => cases isLayout

theorem Paragraph.numbered_le (paragraph : Paragraph) : paragraph.numbered isHyperlinkInstruction ≤ paragraph.children.elements.length := by
  rw [Paragraph.numbered]
  cases isConsidered : paragraph.layout? isHyperlinkInstruction with
  | none => exact Nat.zero_le _
  | some layout =>
    rw [Paragraph.layout?, Option.ite_none_left_eq_some] at isConsidered
    have few := length_layout isConsidered.2
    have taken := (List.takeWhile_prefix (l := layout.links) Link.showsText).length_le
    rw [Layout.links, List.length_map] at taken
    exact taken.trans few

/-- The paragraphs of a body lie side by side in the tree. -/
theorem numbered_sum_le (ancestors : List Tag) (forest : Forest) :
    ((paragraphsFrom ancestors forest).map fun paragraph => paragraph.numbered isHyperlinkInstruction).sum ≤ forest.elements.length := by
  induction forest generalizing ancestors with
  | nil => exact Nat.le_refl _
  | node element children next childrenHypothesis nextHypothesis =>
    have below : ((if element.tag = .p then [⟨ancestors.contains .tc, element, children⟩] else
        paragraphsFrom (element.tag :: ancestors) children).map fun paragraph => paragraph.numbered isHyperlinkInstruction).sum ≤
          children.elements.length := by
      split
      next =>
        rw [List.map_singleton, List.sum_singleton]
        exact Paragraph.numbered_le _
      next => exact childrenHypothesis _
    have rest := nextHypothesis ancestors
    rw [paragraphsFrom, List.map_append, List.sum_append, Forest.elements, List.length_cons, List.length_append]
    omega

theorem length_bodies {ancestors : List Tag} {forest : Forest} {body : List Tag × Forest} (listed : body ∈ bodiesFrom ancestors forest) :
    body.2.elements.length ≤ forest.elements.length := by
  induction forest generalizing ancestors with
  | nil => cases listed
  | node element children next childrenHypothesis nextHypothesis =>
    rw [Forest.elements, List.length_cons, List.length_append]
    rw [bodiesFrom, List.mem_append] at listed
    rcases listed with below | rest
    · split at below
      next =>
        rcases List.mem_cons.mp below with rfl | below
        · simp only
          omega
        · have less := childrenHypothesis below
          omega
      next =>
        have less := childrenHypothesis below
        omega
    · have less := nextHypothesis rest
      omega

theorem few_of_bounded {document : DocumentPart} {paragraphs : List Paragraph} (bounded : document.isTooComplex = false)
    (areParagraphs : bodyParagraphs document = .ok paragraphs) :
    (paragraphs.map fun paragraph => paragraph.numbered isHyperlinkInstruction).sum < 1000000 := by
  rw [DocumentPart.isTooComplex, Bool.or_eq_false_iff, decide_eq_false_iff_not] at bounded
  have bound : maxDocxXmlElements = 300000 := rfl
  rw [bodyParagraphs] at areParagraphs
  split at areParagraphs
  next =>
    cases areParagraphs
    exact Nat.zero_lt_succ _
  next ancestors body isBody =>
    cases areParagraphs
    have sum := @numbered_sum_le isHyperlinkInstruction ancestors body
    have less : body.elements.length ≤ document.tree.elements.length := length_bodies (isBody ▸ List.mem_singleton_self (ancestors, body))
    omega
  next => cases areParagraphs

end

/-! ## Stored maps -/

/-- The list of the blocks' `to_model()` maps. -/
def storedMap (blocks : List DocxBlock) : Json := .arr (blocks.map DocxBlock.toModel)

theorem requireMatchingBlocks_iff {blocks : List DocxBlock} {stored : Json} :
    requireMatchingBlocks blocks stored = .ok () ↔ docxBlocksFromStorage stored = .ok blocks := by
  refine ⟨requireMatchingBlocks_ok, fun restored => ?_⟩
  rw [requireMatchingBlocks, restored]
  exact if_pos rfl

section

variable {isHyperlinkInstruction : Str → Bool} {relationships : List Str} {document : DocumentPart} {extracted : ExtractedDocx}

theorem extractDocx_ok (isExtracted : extractDocx isHyperlinkInstruction relationships document = .ok extracted) :
    ∃ paragraphs parsed, document.isTooComplex = false ∧ bodyParagraphs document = .ok paragraphs ∧
      parseParagraphs isHyperlinkInstruction relationships 0 0 paragraphs = .ok parsed ∧ parsed ≠ [] ∧
      extracted.blocks = parsed.map Prod.snd := by
  obtain ⟨parsed, isParsed, isExtracted⟩ := ok_bind_iff.mp isExtracted
  rw [parsePackage, ite_error_eq_ok, ite_error_eq_ok] at isParsed
  obtain ⟨bounded, -, isParsed⟩ := isParsed
  obtain ⟨paragraphs, areParagraphs, isParsed⟩ := ok_bind_iff.mp isParsed
  obtain ⟨others, isParsed, nonempty⟩ := ok_bind_iff.mp isParsed
  obtain ⟨nonempty, same⟩ := ite_error_eq_ok.mp nonempty
  cases same
  obtain ⟨plainText, -, same⟩ := ok_bind_iff.mp isExtracted
  cases same
  exact ⟨paragraphs, parsed, by simpa using bounded, areParagraphs, isParsed, by simpa using nonempty, rfl⟩

/-- The stored map of an extracted document is taken back, and matches the document, just when no number is lost. -/
theorem stored_map_round_trip_iff (isExtracted : extractDocx isHyperlinkInstruction relationships document = .ok extracted) :
    ∃ paragraphs, bodyParagraphs document = .ok paragraphs ∧
      ((docxBlocksFromStorage (storedMap extracted.blocks) = .ok extracted.blocks ∧
          requireMatchingBlocks extracted.blocks (storedMap extracted.blocks) = .ok ()) ↔ NoneLost isHyperlinkInstruction paragraphs) := by
  obtain ⟨paragraphs, parsed, bounded, areParagraphs, isParsed, nonempty, isBlocks⟩ := extractDocx_ok isExtracted
  refine ⟨paragraphs, areParagraphs, ?_⟩
  have few : 0 + (paragraphs.map fun paragraph => paragraph.numbered isHyperlinkInstruction).sum < 1000000 := by
    rw [Nat.zero_add]
    exact few_of_bounded bounded areParagraphs
  have within : parsed.length ≤ maxDocxBlocks := by
    rcases length_of_parsed isParsed with none | within
    · exact absurd none nonempty
    · rwa [Nat.zero_add] at within
  have accepted : ¬ ((parsed.map fun entry => entry.2.toModel).isEmpty ||
      decide (maxDocxBlocks < (parsed.map fun entry => entry.2.toModel).length)) = true := by
    simp [nonempty, within]
  have isMap : storedMap extracted.blocks = .arr (parsed.map fun entry => entry.2.toModel) := by
    rw [storedMap, isBlocks, List.map_map]
    rfl
  rw [requireMatchingBlocks_iff, and_self, isMap, isBlocks, docxBlocksFromStorage, if_neg accepted, storedBlocks_iff isParsed (Nat.le_refl 0) few]
  exact and_iff_left fun impossible => absurd impossible (Nat.lt_irrefl 0)

end

/-! ## A number that is lost -/

/-- A hyperlink with this content in a run. -/
def linkElement (number : Nat) (content next : Forest) : Forest :=
  .node ⟨.own number, .hyperlink, [], [], []⟩ (.node ⟨.own (number + 1), .r, [], [], []⟩ content .nil) next

def textNode (number : Nat) (text : Str) : Forest := .node ⟨.own number, .t, [], text, []⟩ .nil .nil

/-- A paragraph with a link that shows text and an image's, before a paragraph with one link. -/
def imageLinkDocument (image : Forest) : DocumentPart where
  root := ⟨.own 1, .other (str "document"), [], [], []⟩
  children := .node ⟨.own 2, .body, [], [], []⟩
    (.node ⟨.own 3, .p, [], [], []⟩ (linkElement 4 (textNode 6 (str "a")) (linkElement 7 image .nil))
      (.node ⟨.own 10, .p, [], [], []⟩ (linkElement 11 (textNode 13 (str "b")) .nil) .nil)) .nil
  beside := 0

/-- Where the second link shows text too, the map comes back. -/
theorem stored_map_round_trip_two : ∃ extracted, extractDocx (fun _ => false) [] (imageLinkDocument (textNode 9 (str "c"))) = .ok extracted ∧
    docxBlocksFromStorage (storedMap extracted.blocks) = .ok extracted.blocks := by
  have isExtracted : extractDocx (fun _ => false) [] (imageLinkDocument (textNode 9 (str "c"))) = .ok
      ⟨[⟨str "p000001", str "paragraph", renderLink (str "l000001") (str "a") ++ renderLink (str "l000002") (str "c")⟩,
        ⟨str "p000002", str "paragraph", renderLink (str "l000003") (str "b")⟩], str "ac\n\nb"⟩ := by
    rfl
  obtain ⟨paragraphs, areParagraphs, takenIff⟩ := stored_map_round_trip_iff isExtracted
  cases areParagraphs
  exact ⟨_, isExtracted, (takenIff.mpr ⟨by decide +kernel, by decide +kernel⟩).1⟩

/-- The number the first link takes is lost with its paragraph, and the stored map is refused. -/
theorem lost_number_refused : ∃ extracted, extractDocx (fun _ => false) [] (imageLinkDocument .nil) = .ok extracted ∧
    docxBlocksFromStorage (storedMap extracted.blocks) = .error invalidStoredMap :=
  ⟨⟨[⟨str "p000001", str "paragraph", renderLink (str "l000002") (str "b")⟩], str "b"⟩, rfl, rfl⟩

end Oveo.Docx
