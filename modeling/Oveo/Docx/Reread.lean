import Oveo.Docx.Accepted
import Oveo.Docx.Inherited
import Oveo.Docx.Relayout
import Oveo.Docx.Render

/-! # A patched paragraph, extracted again

An edited paragraph without page or column breaks of its own that shows a text again, and none of it in
alternative renderings, is the same block with the new text. -/

namespace Oveo.Docx

open Oveo.Lib

/-! ## Blocks by their layout -/

section

variable {isHyperlinkInstruction : Str → Bool} {relationships : List Str} {inTableCell : Bool} {blockNumber linkNumber last : Nat}
  {children : Forest} {layout : Layout} {block : DocxBlock}

theorem hyperlinks_split (ancestors : List Tag) (forest : Forest) :
    ((ownFrom ancestors forest).filter fun node => node.element.tag == .hyperlink).length =
      (forest.nodes.filter fun child => child.1.tag == .hyperlink).length +
        ((ownFrom ancestors forest).filter fun node => node.element.tag == .hyperlink && node.ancestors.length != ancestors.length).length := by
  induction forest with
  | nil => rfl
  | node element children next _ nextHypothesis =>
    have deeper : ∀ node ∈ (if element.tag = .p then [] else ownFrom (element.tag :: ancestors) children),
        (node.element.tag == .hyperlink) = (node.element.tag == .hyperlink && node.ancestors.length != ancestors.length) := by
      intro node listed
      split at listed
      next => cases listed
      next =>
        have longer := length_ancestors listed
        rw [List.length_cons] at longer
        have other : (node.ancestors.length != ancestors.length) = true := by
          rw [bne_iff_ne]
          omega
        rw [other, Bool.and_true]
    rw [ownFrom, Forest.nodes, List.filter_cons, List.filter_cons, List.filter_cons, List.filter_append, List.filter_append,
      List.filter_congr deeper]
    by_cases isLink : element.tag = .hyperlink
    · simp only [isLink, beq_self_eq_true, if_true, List.length_cons, List.length_append, nextHypothesis]
      simp
      omega
    · have notLink : (element.tag == .hyperlink) = false := beq_false_of_ne isLink
      simp only [notLink, Bool.false_and, Bool.false_eq_true, if_false, List.length_append, nextHypothesis]
      omega

theorem linksOnTop_iff : (children.nodes.filter fun child => child.1.tag == .hyperlink).length =
    ((ownNodes children).filter fun node => node.element.tag == .hyperlink).length ↔ LinksOnTop children := by
  rw [ownNodes, hyperlinks_split, LinksOnTop, ownNodes]
  have isNil : ((ownFrom [] children).filter fun node => node.element.tag == .hyperlink && node.ancestors.length != ([] : List Tag).length).length = 0 ↔
      ∀ node ∈ ownFrom [] children, node.element.tag = .hyperlink → node.ancestors = [] := by
    rw [List.length_eq_zero_iff, List.filter_eq_nil_iff]
    exact forall₂_congr fun node _ => by simp
  rw [← isNil]
  omega

theorem linksOnTop_of_block (built : paragraphBlock isHyperlinkInstruction inTableCell blockNumber linkNumber relationships children =
    .ok (some block, last)) : LinksOnTop children := by
  rw [← linksOnTop_iff]
  rw [paragraphBlock] at built
  split at built
  next => cases built
  next =>
    split at built
    next => cases built
    next =>
      split at built
      next => cases built
      next =>
        rw [ite_error_eq_ok, ne_eq, not_not] at built
        exact built.1

/-- A paragraph that is like a block is one, with the number and kind of its place. -/
theorem paragraphBlock_of_isBlock (isBlock : IsBlock isHyperlinkInstruction relationships linkNumber children block layout)
    (onTop : LinksOnTop children) : paragraphBlock isHyperlinkInstruction inTableCell blockNumber linkNumber relationships children =
      .ok (some ⟨blockId blockNumber, if inTableCell then str "table_cell" else str "paragraph", block.text⟩, linkNumber + layout.parts.length) := by
  obtain ⟨isLayout, noAlternate, noBreak, ⟨text, last, isLinks⟩, lastFree, ⟨node, isNode, hasText⟩, isText⟩ := isBlock
  obtain ⟨-, rfl, rfl⟩ := linkTexts_iff.mp isLinks
  have shown : (ownTextNodes children).any (fun node => !node.element.text.isEmpty) = true :=
    List.any_eq_true.mpr ⟨node, isNode, by simpa using hasText⟩
  rw [paragraphBlock, isLayout]
  simp only [noAlternate, noBreak, Bool.false_eq_true, if_false, linksOnTop_iff.mpr onTop, ne_eq, not_true_eq_false, isLinks, ok_bind_eq,
    checkedText, lastFree, shown, Bool.not_true]
  rw [isText, Layout.render]
  rfl

end

/-! ## The text of the new layout -/

section

variable {isHyperlinkInstruction : Str → Bool} {relationships : List Str} {linkNumber : Nat} {children patched : Forest} {block : DocxBlock}
  {layout after : Layout} {text : Str} {plains : List Str} {displays : List (Str × Str)} {node : Node} {c : CodePoint}

theorem tokensOf_ids (linkNumber : Nat) (parts : List (List Node × Link)) :
    (tokensOf linkNumber parts).map Prod.fst = (List.range' (linkNumber + 1) parts.length).map linkId := by
  induction parts generalizing linkNumber with
  | nil => rfl
  | cons part parts inductionHypothesis =>
    rw [tokensOf, List.map_cons, inductionHypothesis, List.length_cons, List.range'_succ, List.map_cons]

theorem tokensOf_displays (linkNumber : Nat) (parts : List (List Node × Link)) :
    (tokensOf linkNumber parts).map Prod.snd = parts.map fun part => textOf part.2.items := by
  induction parts generalizing linkNumber with
  | nil => rfl
  | cons part parts inductionHypothesis => rw [tokensOf, List.map_cons, inductionHypothesis, List.map_cons]

theorem IsPatched.sameLength (isPatched : IsPatched layout after plains displays) : after.parts.length = layout.parts.length := by
  have lengths := congrArg List.length isPatched.links
  simpa [Layout.links] using lengths

/-- The tokens of the new layout are those of the new text. -/
theorem IsPatched.tokens (isPatched : IsPatched layout after plains displays)
    (sameIds : displays.map Prod.fst = (tokensOf linkNumber layout.parts).map Prod.fst) : tokensOf linkNumber after.parts = displays := by
  have ids : (tokensOf linkNumber after.parts).map Prod.fst = displays.map Prod.fst := by
    rw [sameIds, tokensOf_ids, tokensOf_ids, isPatched.sameLength]
  have shown : (tokensOf linkNumber after.parts).map Prod.snd = displays.map Prod.snd := by
    rw [tokensOf_displays, ← isPatched.displays, Layout.links, List.map_map]
    rfl
  rw [List.zip_of_prod ids shown, ← List.zip_of_prod rfl rfl]

theorem IsPatched.render (isPatched : IsPatched layout after plains displays)
    (sameIds : displays.map Prod.fst = (tokensOf linkNumber layout.parts).map Prod.fst) (isParts : linkParts text = .ok (plains, displays)) :
    after.render linkNumber = text := by
  rw [render_eq_renderTokens, isPatched.tokens sameIds, isPatched.plain]
  exact (linkParts_ok isParts).1

/-- The links of the new layout can stand in a block. -/
theorem IsPatched.areLinkParts (isPatched : IsPatched layout after plains displays) (areParts : ∀ part ∈ layout.parts, IsLinkPart relationships part)
    (isParts : linkParts text = .ok (plains, displays)) (shown : ∀ link ∈ displays, link.2 ≠ []) :
    ∀ part ∈ after.parts, IsLinkPart relationships part := by
  obtain ⟨-, plainFree, displayFree⟩ := linkParts_ok isParts
  intro part listed
  have isPlain : textOf part.1 ∈ plains := by
    rw [← isPatched.plain, Layout.plain, List.map_append, List.map_map]
    exact List.mem_append_left _ (List.mem_map_of_mem listed)
  obtain ⟨link, isLink, isText⟩ : ∃ link ∈ displays, link.2 = textOf part.2.items := by
    have isDisplay : textOf part.2.items ∈ displays.map Prod.snd := by
      rw [← isPatched.displays, Layout.links, List.map_map]
      exact List.mem_map_of_mem listed
    exact List.mem_map.mp isDisplay
  obtain ⟨old, isOld, sameLink⟩ : ∃ old ∈ layout.parts, old.2.hyperlink = part.2.hyperlink := by
    have isHyperlink : part.2.hyperlink ∈ layout.links.map Link.hyperlink := by
      rw [← isPatched.links, Layout.links, List.map_map]
      exact List.mem_map_of_mem listed
    rw [Layout.links, List.map_map] at isHyperlink
    exact List.mem_map.mp isHyperlink
  refine ⟨plainFree _ isPlain, isText ▸ shown link isLink, isText ▸ displayFree link isLink, ?_⟩
  have isKnown := (areParts old isOld).isKnown
  rwa [Link.isBroken, sameLink] at isKnown

/-! ## What the new layout shows -/

theorem mem_plainTextOfParts (shown : c ∈ plainTextOfParts plains displays) : (∃ plain ∈ plains, c ∈ plain) ∨ ∃ link ∈ displays, c ∈ link.2 := by
  induction plains generalizing displays with
  | nil => cases shown
  | cons plain plains inductionHypothesis =>
    cases displays with
    | nil => exact .inl ⟨plain, List.mem_cons_self, shown⟩
    | cons link displays =>
      rw [plainTextOfParts, List.mem_append, List.mem_append] at shown
      rcases shown with here | inLink | later
      · exact .inl ⟨plain, List.mem_cons_self, here⟩
      · exact .inr ⟨link, List.mem_cons_self, inLink⟩
      · exact (inductionHypothesis later).imp (fun ⟨other, listed, inOther⟩ => ⟨other, List.mem_cons_of_mem _ listed, inOther⟩)
          fun ⟨other, listed, inOther⟩ => ⟨other, List.mem_cons_of_mem _ listed, inOther⟩

/-- What the new text shows, an item of the new layout shows. -/
theorem IsPatched.shows (isPatched : IsPatched layout after plains displays) (shown : c ∈ plainTextOfParts plains displays) :
    ∃ node ∈ after.items, c ∈ node.itemText := by
  have ofStretch {items : List Node} (isStretch : items ⊆ after.items) (inText : c ∈ textOf items) : ∃ node ∈ after.items, c ∈ node.itemText := by
    obtain ⟨node, isNode, inNode⟩ := List.mem_flatMap.mp inText
    exact ⟨node, isStretch isNode, inNode⟩
  rcases mem_plainTextOfParts shown with ⟨plain, isPlain, inPlain⟩ | ⟨link, isLink, inLink⟩
  · rw [← isPatched.plain] at isPlain
    obtain ⟨items, isStretch, rfl⟩ := List.mem_map.mp isPlain
    refine ofStretch ?_ inPlain
    intro node listed
    rw [Layout.items, List.mem_append, List.mem_flatMap]
    rw [Layout.plain, List.mem_append, List.mem_singleton] at isStretch
    rcases isStretch with inParts | rfl
    · obtain ⟨part, isPart, rfl⟩ := List.mem_map.mp inParts
      exact .inl ⟨part, isPart, List.mem_append_left _ listed⟩
    · exact .inr listed
  · have isDisplay := List.mem_map_of_mem isLink (f := Prod.snd)
    rw [← isPatched.displays, Layout.links, List.map_map] at isDisplay
    obtain ⟨part, isPart, same⟩ := List.mem_map.mp isDisplay
    refine ofStretch (fun node listed => ?_) (same ▸ inLink)
    rw [Layout.items, List.mem_append, List.mem_flatMap]
    exact .inl ⟨part, isPart, List.mem_append_right _ listed⟩

/-- An item that shows another character than tabs, breaks and hyphens is a text node. -/
theorem text_of_shown (isPlain : characterTag? c = none) (shown : c ∈ node.itemText) : node.isText = true ∧ node.element.text ≠ [] := by
  rw [Node.itemText, Element.itemText] at shown
  split at shown
  next isText => exact ⟨beq_iff_eq.mpr isText, List.ne_nil_of_mem shown⟩
  next =>
    have isCharacter := Option.mem_toList.mp shown
    cases isTag : node.element.tag <;> rw [isTag] at isCharacter <;> cases isCharacter <;> cases isPlain

/-- An item of a layout stands in one of the stretches that get a text. -/
theorem rewrite_of_item (onePlain : plains.length = layout.parts.length + 1) (sameLinks : displays.length = layout.parts.length)
    (isItem : node ∈ layout.items) : ∃ entry ∈ layout.rewrites plains displays, node ∈ entry.1 := by
  have areStretches : (layout.rewrites plains displays).map Prod.fst = layout.stretches := by
    rw [Layout.rewrites, List.map_append, List.map_fst_zip (by simp [Layout.plain, onePlain]),
      List.map_fst_zip (by simp [Layout.links, sameLinks])]
    rfl
  obtain ⟨stretch, isStretch, inStretch⟩ := List.mem_flatten.mp ((stretches_perm layout).symm.subset isItem)
  rw [← areStretches] at isStretch
  obtain ⟨entry, isEntry, rfl⟩ := List.mem_map.mp isStretch
  exact ⟨entry, isEntry, inStretch⟩

/-- New content has a text node only for another character than tabs, breaks and hyphens. -/
theorem character_of_content {ancestors : List Tag} {value : Str} (listed : node ∈ contentNodes ancestors value) (isText : node.isText = true) :
    ∃ c ∈ value, characterTag? c = none := by
  by_contra noText
  have each : ∀ rest ⊆ value, ∀ node ∈ ownFrom ancestors (inlineElementsFrom [] rest), node.isText = false := by
    intro rest
    induction rest with
    | nil => exact fun _ => List.forall_mem_nil _
    | cons c rest inductionHypothesis =>
      intro subset
      rw [List.cons_subset] at subset
      rw [inlineElementsFrom]
      cases isTag : characterTag? c with
      | none => exact absurd ⟨c, subset.1, isTag⟩ noText
      | some tag =>
        have notText : tag ≠ .t := by
          rintro rfl
          have isCharacter := (characterTag?_isInline isTag).1
          cases isCharacter
        simp only [flushPending, List.isEmpty_nil, if_true]
        rw [ownFrom, List.forall_mem_cons, List.forall_mem_append]
        refine ⟨beq_false_of_ne notText, ?_, inductionHypothesis subset.2⟩
        rw [ownFrom, ite_self]
        exact List.forall_mem_nil _
  rw [each value (List.Subset.refl _) node listed] at isText
  cases isText

/-! ## Alternative renderings -/

/-- Where a stretch that gets another text than tabs, breaks and hyphens starts, is no alternative rendering. -/
def NoneAlternative (rewrites : List (List Node × Str)) : Prop :=
  ∀ entry ∈ rewrites, textOf entry.1 ≠ entry.2 → (∃ c ∈ entry.2, characterTag? c = none) →
    ∀ first ∈ entry.1.head?, .alternateContent ∉ first.ancestors

theorem AreEdits.noAlternate {plain display : List Edit} (areEdits : AreEdits layout text plains displays plain display)
    (source : IsSource isHyperlinkInstruction children layout) (noAlternate : hasOwnAlternateContent children = false)
    (none : NoneAlternative (layout.rewrites plains displays)) :
    hasOwnAlternateContent ((plain ++ display).foldl Edit.apply children) = false := by
  obtain ⟨isLine, editable⟩ := source.editable.run (areEdits.placed source) (areEdits.apart source)
  have own := areEdits.own source
  have held := @items_onEvent (fun node => node.isText = true → .alternateContent ∉ node.ancestors) (rewritingOf (plain ++ display))
    (events isHyperlinkInstruction children) ?ofItem ?beside
  case ofItem =>
    intro item listed node isNode isText
    rw [items_events source.editable.accepted, ← layout_items source.isLayout] at listed
    obtain ⟨original, isOriginal, rfl⟩ := List.mem_map.mp listed
    obtain ⟨onePlain, -⟩ := linkParts_plains areEdits.isParts
    have sameLinks : displays.length = layout.parts.length := by rw [← areEdits.sameLinks, Layout.links, List.length_map]
    obtain ⟨⟨items, value⟩, isEntry, inEntry⟩ := rewrite_of_item (by rw [onePlain, sameLinks]) sameLinks isOriginal
    have notText (same : textOf items = value) : original.bare.isText = true → .alternateContent ∉ original.ancestors := by
      intro isText inside
      have isOwn : original ∈ ownTextNodes children :=
        List.mem_filter.mpr ⟨(items_sublist source.isLayout).subset isOriginal, isText⟩
      have alternate : hasOwnAlternateContent children = true := List.any_eq_true.mpr ⟨original, isOwn, List.contains_iff_mem.mpr inside⟩
      rw [noAlternate] at alternate
      cases alternate
    by_cases same : textOf items = value
    · rw [areEdits.item_of_unchanged source isEntry same _ (List.mem_map_of_mem inEntry), List.mem_singleton] at isNode
      rw [isNode] at isText ⊢
      exact notText same isText
    · cases items with
      | nil => cases inEntry
      | cons first rest =>
        obtain ⟨isFirst, areRest⟩ := areEdits.item_of_changed source isEntry same
        rcases List.mem_cons.mp inEntry with rfl | inRest
        · rw [isFirst] at isNode
          rw [(mem_contentNodes isNode).1]
          exact none _ isEntry same (character_of_content isNode isText) original rfl
        · rw [areRest _ (List.mem_map_of_mem inRest)] at isNode
          cases isNode
  case beside =>
    intro element node listed _
    have inRun {before : Bool} {edits : List Edit} (listed : node ∈ edits.flatMap (Edit.beside before element)) : .alternateContent ∉ node.ancestors := by
      obtain ⟨edit, -, isBeside⟩ := List.mem_flatMap.mp listed
      cases edit with
      | rewrite first rest value => cases isBeside
      | insertRun anchor front value =>
        rw [Edit.beside] at isBeside
        split at isBeside
        next =>
          rw [(mem_contentNodes isBeside).1]
          decide
        next => cases isBeside
    rw [rewritingOf_before own, rewritingOf_behind own] at listed
    exact (List.mem_append.mp listed).elim inRun inRun
  -- the text nodes of the new paragraph are items of its line
  rw [hasOwnAlternateContent, List.any_eq_false]
  intro node listed inside
  obtain ⟨isOwn, isText⟩ := List.mem_filter.mp listed
  have isItem : node.isInlineItem = true := by
    rw [Node.isInlineItem, Element.isInlineItem]
    exact Bool.or_eq_true_iff.mpr (.inl isText)
  refine held node.bare ?_ isText (List.contains_iff_mem.mp inside)
  rw [← isLine, editable.items]
  exact List.mem_map_of_mem (List.mem_filter.mpr ⟨isOwn, isItem⟩)

/-! ## Patched paragraphs -/

/-- The paragraph an accepted text is written to, and its layout: it has the same links, and the texts are the new ones. -/
structure IsRelaid (isHyperlinkInstruction : Str → Bool) (children patched : Forest) (text : Str) (layout after : Layout) : Prop where
  isPatch : patchParagraph isHyperlinkInstruction children text = .ok patched
  isLayout : paragraphLayout isHyperlinkInstruction children = some layout
  isAfter : paragraphLayout isHyperlinkInstruction patched = some after
  isPatched : ∃ plains displays, linkParts text = .ok (plains, displays) ∧ IsPatched layout after plains displays

variable {candidate : ReplacementCandidate} {replacement : DocxReplacement}

/-- A block whose items sit in runs has an item to write to. -/
theorem IsSource.hasItems (source : IsSource isHyperlinkInstruction children layout)
    (isBlock : IsBlock isHyperlinkInstruction relationships linkNumber children block layout) : layout.items ≠ [] := by
  obtain ⟨node, listed, -⟩ := isBlock.hasText
  obtain ⟨isOwn, isText⟩ := List.mem_filter.mp listed
  have isItem : node.isInlineItem = true := by
    rw [Node.isInlineItem, Element.isInlineItem]
    exact Bool.or_eq_true_iff.mpr (.inl isText)
  have onLine : node.bare ∈ (events isHyperlinkInstruction children).flatMap Event.items := by
    rw [source.editable.items]
    exact List.mem_map_of_mem (List.mem_filter.mpr ⟨isOwn, isItem⟩)
  rw [items_events source.editable.accepted, ← layout_items source.isLayout] at onLine
  intro noItems
  rw [noItems] at onLine
  cases onLine

/-- An accepted replacement is written, and its texts are found again. -/
theorem relaid_of_accepted (source : IsSource isHyperlinkInstruction children layout)
    (isBlock : IsBlock isHyperlinkInstruction relationships linkNumber children block layout) (few : linkNumber + layout.parts.length < 1000000)
    (accepted : validateReplacement block candidate = .ok replacement) :
    ∃ patched after, IsRelaid isHyperlinkInstruction children patched replacement.text layout after := by
  obtain ⟨plains, displays, isParts, sameLinks⟩ := links_of_accepted isBlock few accepted
  obtain ⟨edits, areEdits⟩ := (paragraphEdits_isOk_iff isBlock isParts sameLinks).mpr fun noItems => absurd noItems (source.hasItems isBlock)
  obtain ⟨foundPlains, foundDisplays, after, areFound, isAfter, isPatched, -⟩ := layout_of_patched source areEdits
  refine ⟨edits.foldl Edit.apply children, after, ?_, source.isLayout, isAfter, foundPlains, foundDisplays, areFound, isPatched⟩
  rw [patchParagraph, source.isLayout]
  simp only [areEdits]
  rfl

/-- What an edited paragraph must be like to be a block again. -/
structure StaysBlock (isHyperlinkInstruction : Str → Bool) (children : Forest) (text : Str) : Prop where
  noBreak : ∀ node ∈ ownNodes children, node.element.isLayoutBreak = false
  shows : ∀ plains displays, linkParts text = .ok (plains, displays) → ∃ c ∈ plainTextOfParts plains displays, characterTag? c = none
  noAlternate : NoneAlternative (rewritesOf isHyperlinkInstruction children text)

theorem isBlock_of_relaid (source : IsSource isHyperlinkInstruction children layout)
    (isBlock : IsBlock isHyperlinkInstruction relationships linkNumber children block layout) (few : linkNumber + layout.parts.length < 1000000)
    (accepted : validateReplacement block candidate = .ok replacement)
    (relaid : IsRelaid isHyperlinkInstruction children patched replacement.text layout after)
    (stays : StaysBlock isHyperlinkInstruction children replacement.text) :
    IsBlock isHyperlinkInstruction relationships linkNumber patched { block with text := replacement.text } after := by
  obtain ⟨isPatch, isLayout, isAfter, plains, displays, isParts, isPatched⟩ := relaid
  obtain ⟨-, foundPlains, foundDisplays, areFound, sameIds, shown⟩ := parts_of_accepted isBlock few accepted
  rw [isParts] at areFound
  cases areFound
  rw [patchParagraph, isLayout] at isPatch
  obtain ⟨edits, areEdits, isPatch⟩ := ok_bind_iff.mp isPatch
  cases isPatch
  obtain ⟨otherPlains, otherDisplays, plain, display, areParts, rfl⟩ := areEdits_of_ok areEdits
  have sameParts := areParts.isParts
  rw [isParts] at sameParts
  cases sameParts
  have noAlternate := stays.noAlternate
  rw [rewritesOf, isLayout, isParts] at noAlternate
  obtain ⟨c, isShown, isPlain⟩ := stays.shows plains displays isParts
  obtain ⟨node, isItem, inNode⟩ := isPatched.shows isShown
  obtain ⟨isText, hasText⟩ := text_of_shown isPlain inNode
  constructor
  case isLayout => exact isAfter
  case noAlternate => exact areParts.noAlternate source isBlock.noAlternate noAlternate
  case noInteriorBreak => exact interiorBreakFrom_of_none (noBreak_run _ stays.noBreak) false
  case links =>
    exact ⟨_, _, linkTexts_iff.mpr ⟨isPatched.areLinkParts isBlock.areLinkParts isParts shown, rfl, rfl⟩⟩
  case lastFree =>
    refine (linkParts_ok isParts).2.1 _ ?_
    rw [← isPatched.plain, Layout.plain, List.map_append]
    exact List.mem_append_right _ (List.mem_singleton_self _)
  case hasText => exact ⟨node, List.mem_filter.mpr ⟨(items_sublist isAfter).subset isItem, isText⟩, hasText⟩
  case text => exact (isPatched.render sameIds isParts).symm

/-- The paragraph is read as its block again, with the new text and the same numbers. -/
theorem paragraphBlock_of_relaid {inTableCell : Bool} {blockNumber last : Nat} (source : IsSource isHyperlinkInstruction children layout)
    (built : paragraphBlock isHyperlinkInstruction inTableCell blockNumber linkNumber relationships children = .ok (some block, last))
    (few : linkNumber + layout.parts.length < 1000000) (accepted : validateReplacement block candidate = .ok replacement)
    (relaid : IsRelaid isHyperlinkInstruction children patched replacement.text layout after)
    (stays : StaysBlock isHyperlinkInstruction children replacement.text) :
    paragraphBlock isHyperlinkInstruction inTableCell blockNumber linkNumber relationships patched =
      .ok (some { block with text := replacement.text }, last) := by
  obtain ⟨found, isBlock⟩ := paragraphBlock_eq_some built
  have sameLayout := source.isLayout
  rw [isBlock.isLayout] at sameLayout
  cases sameLayout
  have onTop := linksOnTop_of_block built
  have again := isBlock_of_relaid source isBlock few accepted relaid stays
  obtain ⟨isPatch, isLayout, -, plains, displays, -, isPatched⟩ := relaid
  rw [patchParagraph, isLayout] at isPatch
  obtain ⟨edits, -, isPatch⟩ := ok_bind_iff.mp isPatch
  cases isPatch
  rw [paragraphBlock_of_isBlock isBlock onTop] at built
  obtain ⟨id, kind, shown⟩ := block
  simp only [Except.ok.injEq, Prod.mk.injEq, Option.some.injEq, DocxBlock.mk.injEq, and_true] at built
  obtain ⟨⟨rfl, rfl⟩, rfl⟩ := built
  rw [paragraphBlock_of_isBlock again (onTop.run edits), isPatched.sameLength]

end

end Oveo.Docx
