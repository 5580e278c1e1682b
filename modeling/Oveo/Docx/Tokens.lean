import Oveo.Docx.Shown

/-! # Link tokens read back

A block text whose plain texts and displays hold no reserved prefix is split by `linkParts` at the tokens
it was put together from.  Both reserved prefixes are unbordered, so none can begin in one of the texts
and end in a token. -/

namespace Oveo.Docx

open Oveo.Lib

/-- The plain texts and the links between them, as block text. -/
def renderTokens : List Str → List (Str × Str) → Str
  | plain :: plains, (id, display) :: links => plain ++ (renderLink id display ++ renderTokens plains links)
  | plain :: _, [] => plain
  | [], _ => []

/-! ## Reserved prefixes -/

theorem reservedLinkPrefix_unbordered : Unbordered reservedLinkPrefix := by
  have bounded : ∀ k < reservedLinkPrefix.length, 0 < k → (reservedLinkPrefix.drop k).isPrefixOf reservedLinkPrefix = false := by
    decide +kernel
  intro k positive inside isPrefix
  rw [← List.isPrefixOf_iff_prefix, bounded k inside positive] at isPrefix
  cases isPrefix

theorem reservedLinkClosePrefix_unbordered : Unbordered reservedLinkClosePrefix := by
  have bounded : ∀ k < reservedLinkClosePrefix.length, 0 < k →
      (reservedLinkClosePrefix.drop k).isPrefixOf reservedLinkClosePrefix = false := by
    decide +kernel
  intro k positive inside isPrefix
  rw [← List.isPrefixOf_iff_prefix, bounded k inside positive] at isPrefix
  cases isPrefix

theorem hasReservedLinkText_eq_false {value : Str} :
    hasReservedLinkText value = false ↔ Avoids reservedLinkPrefix value ∧ Avoids reservedLinkClosePrefix value := by
  simp only [hasReservedLinkText, Bool.or_eq_false_iff, Avoids, ← occursIn_iff, Bool.not_eq_true]

section

variable {plain rest id display : Str} {links : List (Str × Str)}

/-! ## One token -/

theorem length_of_isLinkId (isId : isLinkId id = true) : id.length = 7 := by
  unfold isLinkId isNumberedId at isId
  split at isId
  next =>
    simp only [Bool.and_eq_true, beq_iff_eq] at isId
    simp [isId.1.2]
  next => cases isId

theorem linkToken?_renderLink (isId : isLinkId id = true) (free : Avoids reservedLinkClosePrefix display) (rest : Str) :
    linkToken? (renderLink id display ++ rest) = some (id, display, rest) := by
  have seven := length_of_isLinkId isId
  have content : splitAtFirst (closeToken id) (display ++ (closeToken id ++ rest)) = some (display, rest) :=
    splitAtFirst_of_avoids reservedLinkClosePrefix_unbordered ⟨id ++ tokenEnd, (List.append_assoc _ _ _).symm⟩ free (by
      simp [closeToken, reservedLinkClosePrefix, str])
  unfold linkToken? renderLink openToken
  simp only [List.append_assoc, afterPrefix?_append]
  rw [← seven, List.take_left, List.drop_left, if_pos isId]
  simp only [afterPrefix?_append, content, Option.map_some]

/-- No token begins where the reserved prefix does not. -/
theorem linkToken?_of_not_prefix {text : Str} (noPrefix : ¬ reservedLinkPrefix <+: text) : linkToken? text = none := by
  unfold linkToken? afterPrefix?
  rw [if_neg (by rwa [List.isPrefixOf_iff_prefix])]

/-! ## The scan -/

theorem scanLinks_plain (free : Avoids reservedLinkPrefix plain) (found : Str) (follows : rest = [] ∨ reservedLinkPrefix <+: rest) :
    scanLinks 0 found (plain ++ rest) = scanLinks 0 (found ++ plain) rest := by
  induction plain generalizing found with
  | nil => rw [List.nil_append, List.append_nil]
  | cons c plain inductionHypothesis =>
    have noToken : linkToken? (c :: (plain ++ rest)) = none :=
      linkToken?_of_not_prefix (not_prefix_of_avoids reservedLinkPrefix_unbordered (List.cons_ne_nil c plain) free follows)
    rw [List.cons_append, scanLinks, noToken]
    simp only
    rw [inductionHypothesis free.of_cons, List.append_assoc, List.singleton_append]

theorem scanLinks_skip (text : Str) (found : Str) {skip : Nat} (inside : skip ≤ text.length) :
    scanLinks skip found text = scanLinks 0 found (text.drop skip) := by
  induction text generalizing skip with
  | nil =>
    rw [Nat.le_zero.mp inside]
    rfl
  | cons c text inductionHypothesis =>
    cases skip with
    | zero => rfl
    | succ skip => exact inductionHypothesis (Nat.le_of_succ_le_succ inside)

theorem scanLinks_renderLink (isId : isLinkId id = true) (free : Avoids reservedLinkClosePrefix display) (found rest : Str) :
    scanLinks 0 found (renderLink id display ++ rest) =
      ((found, id, display) :: (scanLinks 0 [] rest).1, (scanLinks 0 [] rest).2) := by
  have token := linkToken?_renderLink isId free rest
  obtain ⟨c, tail, isToken⟩ : ∃ c tail, renderLink id display = c :: tail := ⟨_, _, rfl⟩
  rw [isToken, List.cons_append] at token ⊢
  rw [scanLinks, token]
  simp only [List.length_append, Nat.add_sub_cancel]
  rw [scanLinks_skip _ _ (by simp), List.drop_left]

/-- The scan finds the texts, the ids and the displays a block text was put together from. -/
theorem scanLinks_renderTokens {plains : List Str} (alternate : plains.length = links.length + 1)
    (plainFree : ∀ plain ∈ plains, hasReservedLinkText plain = false)
    (linkFree : ∀ link ∈ links, isLinkId link.1 = true ∧ hasReservedLinkText link.2 = false) :
    ∃ last, plains = (plains.zip links).map Prod.fst ++ [last] ∧ scanLinks 0 [] (renderTokens plains links) = (plains.zip links, last) := by
  induction links generalizing plains with
  | nil =>
    obtain ⟨plain, rfl⟩ := List.length_eq_one_iff.mp alternate
    refine ⟨plain, rfl, ?_⟩
    have free := (hasReservedLinkText_eq_false.mp (plainFree plain (List.mem_singleton_self plain))).1
    have scanned := @scanLinks_plain plain [] free [] (.inl rfl)
    rw [List.append_nil] at scanned
    exact scanned
  | cons link links inductionHypothesis =>
    obtain ⟨plain, plains, rfl⟩ := List.exists_cons_of_length_eq_add_one alternate
    obtain ⟨id, display⟩ := link
    obtain ⟨isFree, areFree⟩ := List.forall_mem_cons.mp plainFree
    obtain ⟨⟨isId, displayFree⟩, linksFree⟩ := List.forall_mem_cons.mp linkFree
    obtain ⟨last, isLast, scanned⟩ := inductionHypothesis (Nat.succ_inj.mp alternate) areFree linksFree
    refine ⟨last, ?_, ?_⟩
    · rw [List.zip_cons_cons, List.map_cons, List.cons_append, ← isLast]
    · have opens : reservedLinkPrefix <+: renderLink id display ++ renderTokens plains links := by
        simp only [renderLink, openToken, List.append_assoc]
        exact List.prefix_append _ _
      rw [renderTokens, scanLinks_plain (hasReservedLinkText_eq_false.mp isFree).1 [] (.inr opens),
        scanLinks_renderLink isId (hasReservedLinkText_eq_false.mp displayFree).2, scanned]
      rfl

/-- What the scan found is returned where none of it is reserved. -/
theorem linkParts_of_scan {text last : Str} {plains : List Str} (alternate : plains.length = links.length + 1)
    (plainFree : ∀ plain ∈ plains, hasReservedLinkText plain = false) (displayFree : ∀ link ∈ links, hasReservedLinkText link.2 = false)
    (isLast : plains = (plains.zip links).map Prod.fst ++ [last]) (scanned : scanLinks 0 [] text = (plains.zip links, last)) :
    linkParts text = .ok (plains, links) := by
  have lastFree : hasReservedLinkText last = false := plainFree last (isLast ▸ by simp)
  unfold linkParts
  rw [scanned]
  dsimp only
  split
  next reserved =>
    rw [lastFree, Bool.or_false, List.any_eq_true] at reserved
    obtain ⟨⟨plain, id, display⟩, listed, isReserved⟩ := reserved
    obtain ⟨inPlains, inLinks⟩ := List.of_mem_zip listed
    simp [plainFree plain inPlains, displayFree _ inLinks] at isReserved
  next =>
    have isLinks : (plains.zip links).map Prod.snd = links := List.map_snd_zip (by omega)
    exact congrArg Except.ok (Prod.ext isLast.symm isLinks)

end

/-- Whatever the plain texts, six-digit ids and displays without a reserved prefix are, the block text made of
them is split into exactly these. -/
theorem linkParts_renderTokens {plains : List Str} {links : List (Str × Str)} (alternate : plains.length = links.length + 1)
    (plainFree : ∀ plain ∈ plains, hasReservedLinkText plain = false)
    (linkFree : ∀ link ∈ links, isLinkId link.1 = true ∧ hasReservedLinkText link.2 = false) :
    linkParts (renderTokens plains links) = .ok (plains, links) := by
  obtain ⟨last, isLast, scanned⟩ := scanLinks_renderTokens alternate plainFree linkFree
  exact linkParts_of_scan alternate plainFree (fun link listed => (linkFree link listed).2) isLast scanned

/-- A link without a display, and braces next to its tokens. -/
theorem linkParts_renderTokens_braces :
    linkParts (str "a\x7b\x7b\x7bOVEO_LINK_l000001\x7d\x7d\x7b\x7b/OVEO_LINK_l000001\x7d\x7d\x7d") =
      .ok ([str "a\x7b", str "\x7d"], [(str "l000001", [])]) := by
  have text : renderTokens [str "a\x7b", str "\x7d"] [(str "l000001", [])] =
      str "a\x7b\x7b\x7bOVEO_LINK_l000001\x7d\x7d\x7b\x7b/OVEO_LINK_l000001\x7d\x7d\x7d" := by
    decide +kernel
  rw [← text]
  exact linkParts_renderTokens (by rfl) (by decide +kernel) (by decide +kernel)

/-! ## Texts put together again -/

theorem linkToken?_eq_some {text id display rest : Str} (found : linkToken? text = some (id, display, rest)) :
    text = renderLink id display ++ rest := by
  unfold linkToken? at found
  split at found
  next => cases found
  next opened isOpened =>
    dsimp only at found
    split at found
    next =>
      split at found
      next => cases found
      next content isContent =>
        obtain ⟨⟨shown, behind⟩, isSplit, same⟩ := Option.map_eq_some_iff.mp found
        cases same
        have isId := List.take_append_drop 7 opened
        rw [afterPrefix?_eq_some.mp isContent, splitAtFirst_eq_some isSplit] at isId
        rw [afterPrefix?_eq_some.mp isOpened]
        simp only [renderLink, openToken, List.append_assoc]
        exact congrArg (reservedLinkPrefix ++ ·) isId.symm
    next => cases found

/-- The scan loses nothing of the text. -/
theorem scanLinks_joined {skip : Nat} {plain text : Str} (inside : skip ≤ text.length) :
    (scanLinks skip plain text).1.flatMap (fun found => found.1 ++ renderLink found.2.1 found.2.2) ++ (scanLinks skip plain text).2 =
      plain ++ text.drop skip := by
  induction text generalizing skip plain with
  | nil =>
    rw [scanLinks, List.drop_nil]
    simp
  | cons c text inductionHypothesis =>
    cases skip with
    | succ skip => exact inductionHypothesis (Nat.le_of_succ_le_succ inside)
    | zero =>
      rw [scanLinks, List.drop_zero]
      split
      next id display after isToken =>
        have isText := linkToken?_eq_some isToken
        obtain ⟨head, token, isHead⟩ : ∃ head token, renderLink id display = head :: token := ⟨_, _, rfl⟩
        rw [isHead, List.cons_append, List.cons.injEq] at isText
        have isRest := @inductionHypothesis (text.length - after.length) [] (Nat.sub_le _ _)
        have isAfter : text.drop (text.length - after.length) = after := by
          rw [isText.2, List.length_append, Nat.add_sub_cancel, List.drop_left]
        rw [isAfter, List.nil_append] at isRest
        simp only [List.flatMap_cons, List.append_assoc]
        rw [isRest, isHead, isText.1, List.cons_append, ← isText.2]
      next =>
        rw [inductionHypothesis (Nat.zero_le _), List.drop_zero, List.append_assoc]
        rfl

/-- A text is what its plain texts and links are rendered to, and none of them is reserved. -/
theorem linkParts_ok {text : Str} {plains : List Str} {displays : List (Str × Str)} (isParts : linkParts text = .ok (plains, displays)) :
    renderTokens plains displays = text ∧ (∀ plain ∈ plains, hasReservedLinkText plain = false) ∧
      ∀ link ∈ displays, hasReservedLinkText link.2 = false := by
  have joined := @scanLinks_joined 0 [] text (Nat.zero_le _)
  unfold linkParts at isParts
  generalize scanLinks 0 [] text = scanned at isParts joined
  obtain ⟨found, last⟩ := scanned
  dsimp only at isParts joined
  rw [ite_error_eq_ok, Bool.or_eq_true, not_or, Bool.not_eq_true, Bool.not_eq_true, List.any_eq_false] at isParts
  obtain ⟨⟨areFree, lastFree⟩, isParts⟩ := isParts
  cases isParts
  have free : ∀ entry ∈ found, hasReservedLinkText entry.1 = false ∧ hasReservedLinkText entry.2.2 = false := fun entry listed => by
    simpa using areFree entry listed
  refine ⟨?_, ?_, ?_⟩
  · rw [List.nil_append, List.drop_zero] at joined
    rw [← joined]
    clear areFree free joined
    induction found with
    | nil => rfl
    | cons entry found inductionHypothesis =>
      rw [List.map_cons, List.map_cons, List.cons_append, renderTokens, inductionHypothesis, List.flatMap_cons, List.append_assoc,
        List.append_assoc]
  · intro plain listed
    rcases List.mem_append.mp listed with inFound | isLast
    · obtain ⟨entry, isEntry, rfl⟩ := List.mem_map.mp inFound
      exact (free entry isEntry).1
    · rw [List.mem_singleton.mp isLast]
      exact lastFree
  · intro link listed
    obtain ⟨entry, isEntry, rfl⟩ := List.mem_map.mp listed
    exact (free entry isEntry).2

/-! ## Blocks of a document -/

theorem isDigit_of_mem_pad6 {number : Nat} {c : CodePoint} (listed : c ∈ pad6 number) : isDigit c = true := by
  rw [pad6_eq_map] at listed
  obtain ⟨char, inChars, rfl⟩ := List.mem_map.mp listed
  have digit : char.isDigit = true := by
    rcases List.mem_append.mp inChars with padding | inDigits
    · rw [List.eq_of_mem_replicate padding]
      rfl
    · exact Nat.isDigit_of_mem_toDigits (by omega) (by omega) inDigits
  simp only [Char.isDigit, Bool.and_eq_true, decide_eq_true_eq] at digit
  exact Bool.and_eq_true_iff.mpr ⟨decide_eq_true digit.1, decide_eq_true digit.2⟩

theorem isLinkId_linkId {number : Nat} (small : number < 1000000) : isLinkId (linkId number) = true := by
  simp only [isLinkId, linkId, isNumberedId, length_pad6 small, beq_self_eq_true, Bool.and_self, Bool.true_and, List.all_eq_true]
  exact fun c listed => isDigit_of_mem_pad6 listed

/-- The ids and displays of the links of a block. -/
def tokensOf (linkNumber : Nat) : List (List Node × Link) → List (Str × Str)
  | [] => []
  | (_, link) :: parts => (linkId (linkNumber + 1), textOf link.items) :: tokensOf (linkNumber + 1) parts

theorem length_tokensOf (linkNumber : Nat) (parts : List (List Node × Link)) : (tokensOf linkNumber parts).length = parts.length := by
  induction parts generalizing linkNumber with
  | nil => rfl
  | cons part parts inductionHypothesis => rw [tokensOf, List.length_cons, inductionHypothesis, List.length_cons]

theorem render_eq_renderTokens (linkNumber : Nat) (layout : Layout) :
    layout.render linkNumber = renderTokens (layout.plain.map textOf) (tokensOf linkNumber layout.parts) := by
  obtain ⟨parts, last⟩ := layout
  induction parts generalizing linkNumber with
  | nil => rfl
  | cons part parts inductionHypothesis =>
    have rest := inductionHypothesis (linkNumber + 1)
    simp only [Layout.render, Layout.plain, List.map_append, List.map_cons, List.map_nil, List.cons_append, renderParts, renderTokens, tokensOf,
      List.append_assoc] at rest ⊢
    rw [rest]

theorem mem_tokensOf {linkNumber : Nat} {parts : List (List Node × Link)} {token : Str × Str} (listed : token ∈ tokensOf linkNumber parts) :
    (∃ number ≤ linkNumber + parts.length, token.1 = linkId number) ∧ ∃ part ∈ parts, token.2 = textOf part.2.items := by
  induction parts generalizing linkNumber with
  | nil => cases listed
  | cons part parts inductionHypothesis =>
    rw [List.length_cons]
    rcases List.mem_cons.mp listed with rfl | later
    · exact ⟨⟨linkNumber + 1, by omega, rfl⟩, part, List.mem_cons_self, rfl⟩
    · obtain ⟨⟨number, bound, isId⟩, other, isOther, isDisplay⟩ := inductionHypothesis later
      exact ⟨⟨number, by omega, isId⟩, other, List.mem_cons_of_mem _ isOther, isDisplay⟩

/-- A paragraph whose links are numbered up to 999999 is read back as it was rendered. -/
theorem linkParts_block {isHyperlinkInstruction : Str → Bool} {relationships : List Str} {linkNumber : Nat} {children : Forest}
    {block : DocxBlock} {layout : Layout} (isBlock : IsBlock isHyperlinkInstruction relationships linkNumber children block layout)
    (few : linkNumber + layout.parts.length < 1000000) :
    linkParts block.text = .ok (layout.plain.map textOf, tokensOf linkNumber layout.parts) := by
  have areParts := isBlock.areLinkParts
  have linkFree : ∀ link ∈ tokensOf linkNumber layout.parts, isLinkId link.1 = true ∧ hasReservedLinkText link.2 = false := by
    intro link listed
    obtain ⟨⟨number, bound, isId⟩, part, isPart, isDisplay⟩ := mem_tokensOf listed
    rw [isId, isDisplay]
    exact ⟨isLinkId_linkId (by omega), (areParts part isPart).displayFree⟩
  have alternate : (layout.plain.map textOf).length = (tokensOf linkNumber layout.parts).length + 1 := by
    simp [Layout.plain, length_tokensOf]
  have plainFree : ∀ plain ∈ layout.plain.map textOf, hasReservedLinkText plain = false := by
    intro plain listed
    rw [Layout.plain, List.map_append, List.map_map] at listed
    rcases List.mem_append.mp listed with inParts | isLast
    · obtain ⟨part, isPart, rfl⟩ := List.mem_map.mp inParts
      exact (areParts part isPart).plainFree
    · rw [List.mem_singleton.mp isLast]
      exact isBlock.lastFree
  rw [isBlock.text, render_eq_renderTokens]
  obtain ⟨last, isLast, scanned⟩ := scanLinks_renderTokens alternate plainFree linkFree
  exact linkParts_of_scan alternate plainFree (fun link listed => (linkFree link listed).2) isLast scanned

end Oveo.Docx
