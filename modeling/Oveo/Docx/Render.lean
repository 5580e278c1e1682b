import Oveo.Docx.Changes

/-! # Rendering a document

`render_docx` up to the patched tree.  What it changes are the items of the stretches whose text changes: all
other nodes of the document keep their content, their ancestors and their order. -/

namespace Oveo.Docx

open Oveo.Lib

/-! ## The patched tree -/

/-- The tree, with the new children of some elements. -/
def Forest.withPatched (patchedOf : Element → Option Forest) : Forest → Forest
  | nil => nil
  | node element children next =>
    node element ((patchedOf element).getD (children.withPatched patchedOf)) (next.withPatched patchedOf)

section

variable (isHyperlinkInstruction : Str → Bool) (relationships : List Str)

/-- The loop of `render_docx` over the editable paragraphs and their replacements. -/
def patchEach : List ((Paragraph × DocxBlock) × DocxReplacement) → Except DocxError (List (Element × Forest))
  | [] => .ok []
  | ((paragraph, _), replacement) :: rest => do
    let children ← patchParagraph isHyperlinkInstruction paragraph.children replacement.text
    let patched ← patchEach rest
    return (paragraph.element, children) :: patched

/-- `render_docx`, for the tree of the document part. -/
def renderDocx (document : DocumentPart) (candidates : List ReplacementCandidate) (stored : Option Json) : Except DocxError DocumentPart := do
  let parsed ← parsePackage isHyperlinkInstruction relationships document
  stored.elim (.ok ()) (requireMatchingBlocks (parsed.map Prod.snd))
  let validated ← validateReplacements (parsed.map Prod.snd) candidates
  let patched ← patchEach isHyperlinkInstruction (parsed.zip validated)
  return { document with children := document.children.withPatched fun element => List.lookup element patched }

/-- The stretches of a paragraph, with the texts of a new block text. -/
def rewritesOf (children : Forest) (text : Str) : List (List Node × Str) :=
  match paragraphLayout isHyperlinkInstruction children, linkParts text with
  | some layout, .ok (plains, displays) => layout.rewrites plains displays
  | _, _ => []

/-- The items of all stretches whose text changes. -/
def changedOf (pairs : List ((Paragraph × DocxBlock) × DocxReplacement)) : List Element :=
  pairs.flatMap fun pair => changedItems (rewritesOf isHyperlinkInstruction pair.1.1.children pair.2.text)

end

/-- The rendered document differs from the template in the items of changed stretches, and in new and split runs. -/
structure Frame (isHyperlinkInstruction : Str → Bool) (document rendered : DocumentPart)
    (pairs : List ((Paragraph × DocxBlock) × DocxReplacement)) : Prop where
  root : rendered.root = document.root
  beside : rendered.beside = document.beside
  changes : Changes (changedOf isHyperlinkInstruction pairs) document.tree rendered.tree
  trace : rendered.tree.trace (changedOf isHyperlinkInstruction pairs) [] = document.tree.trace (changedOf isHyperlinkInstruction pairs) []
  /-- Items of stretches whose text stays are kept where they are. -/
  unchanged : ∀ pair ∈ pairs, ∀ element ∈ unchangedItems (rewritesOf isHyperlinkInstruction pair.1.1.children pair.2.text),
    ∃ path, (path, element) ∈ rendered.tree.trace (changedOf isHyperlinkInstruction pairs) []

/-! ## Trees with patched paragraphs -/

section

variable {patchedOf : Element → Option Forest} {changed : List Element} {forest : Forest}

theorem changes_withPatched (each : ∀ node ∈ forest.allNodes, ∀ patched, patchedOf node.1 = some patched → Changes changed node.2 patched) :
    Changes changed forest (forest.withPatched patchedOf) := by
  induction forest with
  | nil => exact .refl
  | node element children next childrenHypothesis nextHypothesis =>
    rw [Forest.allNodes, List.forall_mem_cons, List.forall_mem_append] at each
    obtain ⟨here, below, rest⟩ := each
    rw [Forest.withPatched]
    refine Changes.node ?_ (nextHypothesis rest)
    cases isPatched : patchedOf element with
    | none => exact childrenHypothesis below
    | some patched => exact here patched isPatched

theorem withPatched_eq_self (each : ∀ node ∈ forest.allNodes, ∀ patched, patchedOf node.1 = some patched → patched = node.2) :
    forest.withPatched patchedOf = forest := by
  induction forest with
  | nil => rfl
  | node element children next childrenHypothesis nextHypothesis =>
    rw [Forest.allNodes, List.forall_mem_cons, List.forall_mem_append] at each
    obtain ⟨here, below, rest⟩ := each
    rw [Forest.withPatched, nextHypothesis rest]
    cases isPatched : patchedOf element with
    | none => rw [Option.getD_none, childrenHypothesis below]
    | some patched => rw [Option.getD_some, here patched isPatched]

/-- A node that is neither changed nor below a changed one is in the trace. -/
theorem mem_trace {element : Element} {path : List Identity} (own : element.identity.isOwn = true) (listed : element ∈ forest.elements)
    (notChanged : element ∉ changed) (notBelow : ∀ node ∈ forest.allNodes, node.1 ∈ changed → element ∉ node.2.elements) :
    ∃ path', (path', element) ∈ forest.trace changed path := by
  induction forest generalizing path with
  | nil => cases listed
  | node first children next childrenHypothesis nextHypothesis =>
    rw [Forest.allNodes, List.forall_mem_cons, List.forall_mem_append] at notBelow
    obtain ⟨here, inChildren, inNext⟩ := notBelow
    rw [Forest.elements, List.mem_cons, List.mem_append] at listed
    rw [Forest.trace]
    rcases listed with rfl | below | later
    · rw [if_neg notChanged, if_pos own]
      exact ⟨path, List.mem_append_left _ (List.mem_append_left _ List.mem_cons_self)⟩
    · have notFirst : first ∉ changed := fun isChanged => here isChanged below
      obtain ⟨path', isTraced⟩ := @childrenHypothesis (first.identity.source :: path) below inChildren
      rw [if_neg notFirst]
      exact ⟨path', List.mem_append_left _ (List.mem_append_right _ isTraced)⟩
    · obtain ⟨path', isTraced⟩ := @nextHypothesis path later inNext
      exact ⟨path', List.mem_append_right _ isTraced⟩

theorem elements_of_node {node : Element × Forest} (listed : node ∈ forest.allNodes) : node.2.elements ⊆ forest.elements := by
  induction forest with
  | nil => cases listed
  | node element children next childrenHypothesis nextHypothesis =>
    rw [Forest.allNodes, List.mem_cons, List.mem_append] at listed
    rw [Forest.elements]
    rcases listed with rfl | below | later
    · exact List.subset_cons_of_subset _ (List.subset_append_left _ _)
    · exact List.subset_cons_of_subset _ (List.Subset.trans (childrenHypothesis below) (List.subset_append_left _ _))
    · exact List.subset_cons_of_subset _ (List.Subset.trans (nextHypothesis later) (List.subset_append_right _ _))

end

/-! ## One paragraph -/

section

variable {isHyperlinkInstruction : Str → Bool} {relationships : List Str} {linkNumber : Nat} {children patched : Forest} {block : DocxBlock}
  {layout : Layout} {text : Str} {element : Element}

theorem changes_patchParagraph (isPatched : patchParagraph isHyperlinkInstruction children text = .ok patched) :
    Changes (changedItems (rewritesOf isHyperlinkInstruction children text)) children patched := by
  rw [patchParagraph] at isPatched
  split at isPatched
  next => cases isPatched
  next layout isLayout =>
    obtain ⟨edits, areEdits, isPatched⟩ := ok_bind_iff.mp isPatched
    cases isPatched
    obtain ⟨plains, displays, isParts, areItems⟩ := items_paragraphEdits areEdits
    apply changes_edits
    rw [areItems, rewritesOf, isLayout, isParts]
    exact List.Subset.refl _

theorem layout_of_rewrites {entry : List Node × Str} (listed : entry ∈ rewritesOf isHyperlinkInstruction children text) :
    ∃ layout plains displays, paragraphLayout isHyperlinkInstruction children = some layout ∧
      rewritesOf isHyperlinkInstruction children text = layout.rewrites plains displays := by
  rw [rewritesOf] at listed ⊢
  split at listed
  next layout plains displays isLayout isParts => exact ⟨layout, plains, displays, isLayout, rfl⟩
  next => cases listed

/-- A rewritten item is a text item of the paragraph. -/
theorem item_of_rewrites {entry : List Node × Str} (listed : entry ∈ rewritesOf isHyperlinkInstruction children text)
    (inEntry : element ∈ entry.1.map Node.element) : ∃ layout node, paragraphLayout isHyperlinkInstruction children = some layout ∧
      node ∈ layout.items ∧ node.element = element := by
  obtain ⟨layout, plains, displays, isLayout, areRewrites⟩ := layout_of_rewrites listed
  obtain ⟨node, inStretch, rfl⟩ := List.mem_map.mp inEntry
  have isStretch := stretch_of_rewrite areRewrites listed
  exact ⟨layout, node, isLayout, (stretches_perm layout).subset (List.mem_flatten.mpr ⟨entry.1, isStretch, inStretch⟩), rfl⟩

theorem node_of_changed (isChanged : element ∈ changedItems (rewritesOf isHyperlinkInstruction children text)) :
    ∃ below, (element, below) ∈ children.allNodes := by
  obtain ⟨entry, listed, -, inEntry⟩ := mem_changedItems.mp isChanged
  obtain ⟨layout, node, isLayout, isItem, rfl⟩ := item_of_rewrites listed inEntry
  exact ⟨node.children, allNodes_of_own ((items_sublist isLayout).subset isItem)⟩

theorem isItem_of_changed (isTemplate : IsTemplate children)
    (isChanged : element ∈ changedItems (rewritesOf isHyperlinkInstruction children text)) : IsItem element := by
  obtain ⟨entry, listed, -, inEntry⟩ := mem_changedItems.mp isChanged
  obtain ⟨layout, node, isLayout, isItem, rfl⟩ := item_of_rewrites listed inEntry
  exact items_layout isTemplate isLayout node isItem

theorem element_of_unchanged (isUnchanged : element ∈ unchangedItems (rewritesOf isHyperlinkInstruction children text)) :
    element ∈ children.elements := by
  obtain ⟨entry, listed, -, inEntry⟩ := mem_unchangedItems.mp isUnchanged
  obtain ⟨layout, node, isLayout, isItem, rfl⟩ := item_of_rewrites listed inEntry
  exact (elements_ownFrom [] children).subset (List.mem_map_of_mem ((items_sublist isLayout).subset isItem))

theorem rewriteItems_same (items : List Node) : rewriteItems items (textOf items) = [] := by
  cases items with
  | nil => rfl
  | cons first rest => rw [rewriteItems, if_pos rfl]

theorem plainEdits_same (behind : Option Link) (last : List Node) (parts : List (List Node × Link)) :
    plainEdits behind last parts ((parts.map Prod.fst ++ [last]).map textOf) = .ok [] := by
  induction parts generalizing behind with
  | nil =>
    cases last with
    | nil => cases behind <;> rfl
    | cons item items => simp [plainEdits, rewriteItems_same]
  | cons part parts inductionHypothesis =>
    obtain ⟨items, link⟩ := part
    have noEdits : (if items.isEmpty then insertPlainRun link.start true (textOf items) else rewriteItems items (textOf items)) = [] := by
      cases items with
      | nil => rfl
      | cons item items => exact (if_neg Bool.false_ne_true).trans (rewriteItems_same _)
    rw [List.map_cons, List.cons_append, List.map_cons, plainEdits, inductionHypothesis, noEdits]
    rfl

theorem displayEdits_same (linkNumber : Nat) {parts : List (List Node × Link)} (shown : ∀ part ∈ parts, part.2.items ≠ []) :
    displayEdits (parts.map Prod.snd) (tokensOf linkNumber parts) = .ok [] := by
  induction parts generalizing linkNumber with
  | nil => rfl
  | cons part parts inductionHypothesis =>
    obtain ⟨hasItems, shown⟩ := List.forall_mem_cons.mp shown
    rw [List.map_cons, tokensOf, displayEdits, if_neg (by simpa using hasItems), inductionHypothesis _ shown, rewriteItems_same]
    rfl

/-- A paragraph that gets its own block text stays as it is. -/
theorem patchParagraph_same (isBlock : IsBlock isHyperlinkInstruction relationships linkNumber children block layout)
    (few : linkNumber + layout.parts.length < 1000000) : patchParagraph isHyperlinkInstruction children block.text = .ok children := by
  have shown : ∀ part ∈ layout.parts, part.2.items ≠ [] := fun part listed => items_of_link isBlock part.2 (List.mem_map_of_mem listed)
  have sameLinks : (layout.parts.map Prod.snd).length = (tokensOf linkNumber layout.parts).length := by
    rw [List.length_map, length_tokensOf]
  have noEdits : paragraphEdits layout block.text = .ok [] := by
    rw [paragraphEdits, linkParts_block isBlock few, ok_bind_eq]
    simp only [Layout.links, sameLinks, ne_eq, not_true_eq_false, if_false, Layout.plain, plainEdits_same, displayEdits_same linkNumber shown]
    rfl
  rw [patchParagraph, isBlock.isLayout]
  simp only [noEdits]
  rfl

end

/-! ## The whole document -/

section

variable {isHyperlinkInstruction : Str → Bool} {relationships : List Str} {document rendered : DocumentPart}
  {candidates : List ReplacementCandidate} {stored : Option Json} {paragraphs : List Paragraph} {paragraph : Paragraph}
  {parsed : List (Paragraph × DocxBlock)} {pairs : List ((Paragraph × DocxBlock) × DocxReplacement)} {patched : List (Element × Forest)}

theorem lookup_patchEach (areEach : patchEach isHyperlinkInstruction pairs = .ok patched) {element : Element} {children : Forest}
    (isPatched : List.lookup element patched = some children) : ∃ pair ∈ pairs, pair.1.1.element = element ∧
      patchParagraph isHyperlinkInstruction pair.1.1.children pair.2.text = .ok children := by
  induction pairs generalizing patched with
  | nil =>
    cases areEach
    cases isPatched
  | cons pair pairs inductionHypothesis =>
    obtain ⟨⟨paragraph, block⟩, replacement⟩ := pair
    rw [patchEach] at areEach
    obtain ⟨first, isFirst, areEach⟩ := ok_bind_iff.mp areEach
    obtain ⟨rest, areRest, areEach⟩ := ok_bind_iff.mp areEach
    cases areEach
    by_cases here : element = paragraph.element
    · subst here
      rw [List.lookup_cons_self] at isPatched
      cases isPatched
      exact ⟨_, List.mem_cons_self, rfl, isFirst⟩
    · rw [List.lookup_cons, beq_false_of_ne here] at isPatched
      obtain ⟨pair, listed, same, isPaired⟩ := inductionHypothesis areRest isPatched
      exact ⟨pair, List.mem_cons_of_mem _ listed, same, isPaired⟩

theorem paragraphs_of_parsed {count linkNumber : Nat}
    (isParsed : parseParagraphs isHyperlinkInstruction relationships count linkNumber paragraphs = .ok parsed) :
    (parsed.map Prod.fst).Sublist paragraphs := by
  induction paragraphs generalizing count linkNumber parsed with
  | nil =>
    cases isParsed
    exact List.Sublist.refl _
  | cons first paragraphs inductionHypothesis =>
    rw [parseParagraphs] at isParsed
    obtain ⟨⟨taken, last⟩, -, isParsed⟩ := ok_bind_iff.mp isParsed
    cases taken with
    | none => exact (inductionHypothesis isParsed).cons first
    | some block =>
      rw [ite_error_eq_ok] at isParsed
      obtain ⟨rest, isRest, isParsed⟩ := ok_bind_iff.mp isParsed.2
      cases isParsed
      exact (inductionHypothesis isRest).cons_cons first

theorem elements_of_paragraphs (ancestors : List Tag) (forest : Forest) :
    ((paragraphsFrom ancestors forest).flatMap fun paragraph => paragraph.children.elements).Sublist forest.elements := by
  induction forest generalizing ancestors with
  | nil => exact List.Sublist.refl _
  | node element children next childrenHypothesis nextHypothesis =>
    rw [paragraphsFrom, List.flatMap_append, Forest.elements]
    refine List.Sublist.cons element (List.Sublist.append ?_ (nextHypothesis ancestors))
    split
    next =>
      rw [List.flatMap_singleton]
    next => exact childrenHypothesis _

/-- The elements of two body paragraphs are different ones. -/
theorem paragraphs_disjoint (isRead : IsTemplate document.tree) (areParagraphs : bodyParagraphs document = .ok paragraphs) :
    paragraphs.Pairwise fun first second => first.children.elements.Disjoint second.children.elements := by
  have distinct : (paragraphs.flatMap fun paragraph => paragraph.children.elements).Nodup := by
    rw [bodyParagraphs] at areParagraphs
    split at areParagraphs
    next =>
      cases areParagraphs
      exact .nil
    next ancestors body isBody =>
      cases areParagraphs
      have ofTree : body.elements.Sublist document.tree.elements := by
        rw [← allNodes_elements, ← allNodes_elements]
        exact (nodes_of_body (isBody ▸ List.mem_singleton_self (ancestors, body))).map Prod.fst
      exact ((elements_of_paragraphs ancestors body).trans ofTree).nodup (List.Nodup.of_map _ isRead.distinct)
    next => cases areParagraphs
  rw [List.flatMap_def, List.nodup_flatten, List.pairwise_map] at distinct
  exact distinct.2

variable {validated : List DocxReplacement} {pair other : (Paragraph × DocxBlock) × DocxReplacement} {element : Element}

theorem node_of_pair (isParsed : parsePackage isHyperlinkInstruction relationships document = .ok parsed) (listed : pair ∈ parsed.zip validated) :
    ((pair.1.1.element, pair.1.1.children) :: pair.1.1.children.allNodes).Sublist document.tree.allNodes := by
  obtain ⟨paragraphs, -, -, areParagraphs, isParagraph, -⟩ := isBlock_of_parsed isParsed (List.of_mem_zip listed).1
  exact nodes_of_document areParagraphs isParagraph

theorem template_of_pair (isRead : IsTemplate document.tree) (isParsed : parsePackage isHyperlinkInstruction relationships document = .ok parsed)
    (listed : pair ∈ parsed.zip validated) : IsTemplate pair.1.1.children := by
  obtain ⟨paragraphs, -, -, areParagraphs, isParagraph, -⟩ := isBlock_of_parsed isParsed (List.of_mem_zip listed).1
  exact isRead.ofParagraph areParagraphs isParagraph

/-- A node is of one editable paragraph only. -/
theorem pair_once (isRead : IsTemplate document.tree) (isParsed : parsePackage isHyperlinkInstruction relationships document = .ok parsed)
    (isPair : pair ∈ parsed.zip validated) (isOther : other ∈ parsed.zip validated) (inPair : element ∈ pair.1.1.children.elements)
    (inOther : element ∈ other.1.1.children.elements) : pair = other := by
  obtain ⟨paragraphs, -, areParagraphs, isParsed⟩ := parsePackage_ok isParsed
  have disjoint : (parsed.zip validated).Pairwise fun first second => first.1.1.children.elements.Disjoint second.1.1.children.elements := by
    have ofZip := ((map_fst_zip_sublist parsed validated).map Prod.fst).trans (paragraphs_of_parsed isParsed)
    have pairwise := (paragraphs_disjoint isRead areParagraphs).sublist ofZip
    rwa [List.map_map, List.pairwise_map] at pairwise
  have symmetric : Std.Symm fun first second : (Paragraph × DocxBlock) × DocxReplacement =>
      first.1.1.children.elements.Disjoint second.1.1.children.elements := ⟨fun _ _ apart _ inFirst inSecond => apart inSecond inFirst⟩
  by_contra different
  exact disjoint.forall isPair isOther different inPair inOther

/-- The items of stretches whose text stays are neither items of changed stretches of the document nor inside one. -/
theorem unchanged_of_document (isRead : IsTemplate document.tree)
    (isParsed : parsePackage isHyperlinkInstruction relationships document = .ok parsed) (isPair : pair ∈ parsed.zip validated)
    (isUnchanged : element ∈ unchangedItems (rewritesOf isHyperlinkInstruction pair.1.1.children pair.2.text)) :
    element ∉ changedOf isHyperlinkInstruction (parsed.zip validated) ∧ ∀ node ∈ document.tree.allNodes,
      node.1 ∈ changedOf isHyperlinkInstruction (parsed.zip validated) → element ∉ node.2.elements := by
  have inPair := element_of_unchanged isUnchanged
  obtain ⟨entry, isEntry, -⟩ := mem_unchangedItems.mp isUnchanged
  obtain ⟨layout, plains, displays, isLayout, areRewrites⟩ := layout_of_rewrites isEntry
  have apart := isUnchanged
  rw [areRewrites] at apart
  obtain ⟨notItem, notInside⟩ := unchanged_apart (template_of_pair isRead isParsed isPair) isLayout apart
  rw [← areRewrites] at notItem notInside
  constructor
  · intro isChanged
    obtain ⟨other, isOther, ofOther⟩ := List.mem_flatMap.mp isChanged
    obtain ⟨below, isNode⟩ := node_of_changed ofOther
    have inOther : element ∈ other.1.1.children.elements := by
      rw [← allNodes_elements]
      exact List.mem_map_of_mem isNode
    obtain rfl := pair_once isRead isParsed isPair isOther inPair inOther
    exact notItem ofOther
  · rintro ⟨item, held⟩ isNode isChanged within
    obtain ⟨other, isOther, ofOther⟩ := List.mem_flatMap.mp isChanged
    obtain ⟨below, isItem⟩ := node_of_changed ofOther
    have ofTree := (node_of_pair isParsed isOther).subset (List.mem_cons_of_mem _ isItem)
    cases node_once (List.Nodup.of_map _ isRead.distinct) ofTree isNode rfl
    obtain rfl := pair_once isRead isParsed isPair isOther inPair (elements_of_node isItem within)
    exact notInside _ isItem ofOther within

/-- Rendering changes nothing but the items of changed stretches: everything else that is not inside one keeps its
content, its ancestors and its order, and unchanged texts leave the tree as it was. -/
theorem rendered_frame (isRead : IsTemplate document.tree)
    (isRendered : renderDocx isHyperlinkInstruction relationships document candidates stored = .ok rendered) :
    ∃ parsed validated, parsePackage isHyperlinkInstruction relationships document = .ok parsed ∧
      validateReplacements (parsed.map Prod.snd) candidates = .ok validated ∧
      Frame isHyperlinkInstruction document rendered (parsed.zip validated) ∧
      ((∀ pair ∈ parsed.zip validated, pair.2.text = pair.1.2.text) → rendered = document) := by
  obtain ⟨parsed, isParsed, isRendered⟩ := ok_bind_iff.mp isRendered
  obtain ⟨_, -, isRendered⟩ := ok_bind_iff.mp isRendered
  obtain ⟨validated, accepted, isRendered⟩ := ok_bind_iff.mp isRendered
  obtain ⟨patched, areEach, isRendered⟩ := ok_bind_iff.mp isRendered
  cases isRendered
  have isPatchOf {node : Element × Forest} (isNode : node ∈ document.children.allNodes) {children : Forest}
      (isPatched : List.lookup node.1 patched = some children) : ∃ pair ∈ parsed.zip validated, pair.1.1.children = node.2 ∧
        patchParagraph isHyperlinkInstruction pair.1.1.children pair.2.text = .ok children := by
    obtain ⟨pair, listed, same, isPaired⟩ := lookup_patchEach areEach isPatched
    have ofTree : node ∈ document.tree.allNodes := List.mem_cons_of_mem _ (List.mem_append_left _ isNode)
    have isParagraph := (node_of_pair isParsed listed).subset List.mem_cons_self
    have once := node_once (List.Nodup.of_map _ isRead.distinct) isParagraph ofTree same
    exact ⟨pair, listed, congrArg Prod.snd once, isPaired⟩
  have areItems : AreItems (changedOf isHyperlinkInstruction (parsed.zip validated)) := by
    intro element isChanged
    obtain ⟨pair, listed, ofPair⟩ := List.mem_flatMap.mp isChanged
    exact isItem_of_changed (template_of_pair isRead isParsed listed) ofPair
  have changes : Changes (changedOf isHyperlinkInstruction (parsed.zip validated)) document.children
      (document.children.withPatched fun element => List.lookup element patched) := by
    apply changes_withPatched
    intro node isNode children isPatched
    obtain ⟨pair, listed, same, isPaired⟩ := isPatchOf isNode isPatched
    rw [← same]
    exact (changes_patchParagraph isPaired).mono fun element isChanged => List.mem_flatMap.mpr ⟨pair, listed, isChanged⟩
  have changesTree : Changes (changedOf isHyperlinkInstruction (parsed.zip validated)) document.tree
      (DocumentPart.tree { document with children := document.children.withPatched fun element => List.lookup element patched }) :=
    changes.inside
  refine ⟨parsed, validated, isParsed, accepted, ?_, fun same => ?_⟩
  · constructor
    case root => rfl
    case beside => rfl
    case changes => exact changesTree
    case trace => exact changesTree.trace areItems []
    case unchanged =>
      intro pair listed element isUnchanged
      obtain ⟨notChanged, notBelow⟩ := unchanged_of_document isRead isParsed listed isUnchanged
      have inTree : element ∈ document.tree.elements := by
        rw [← allNodes_elements]
        have ofParagraph := element_of_unchanged isUnchanged
        rw [← allNodes_elements] at ofParagraph
        obtain ⟨node, isNode, rfl⟩ := List.mem_map.mp ofParagraph
        exact List.mem_map_of_mem ((node_of_pair isParsed listed).subset (List.mem_cons_of_mem _ isNode))
      rw [changesTree.trace areItems []]
      exact mem_trace (isRead.own element inTree) inTree notChanged notBelow
  · have unpatched : document.children.withPatched (fun element => List.lookup element patched) = document.children := by
      apply withPatched_eq_self
      intro node isNode children isPatched
      obtain ⟨pair, listed, isChildren, isPaired⟩ := isPatchOf isNode isPatched
      obtain ⟨-, before, layout, -, -, isBlock, few⟩ := isBlock_of_parsed isParsed (List.of_mem_zip listed).1
      rw [same pair listed, patchParagraph_same isBlock few] at isPaired
      cases isPaired
      exact isChildren
    rw [unpatched]

end

/-! ## What is inside a text item -/

def drawing : Element := ⟨.own 6, .other (str "drawing"), [], [], []⟩

/-- A paragraph of one run, whose text node holds something. -/
def oneTextDocument (held : Forest) : DocumentPart where
  root := ⟨.own 1, .other (str "document"), [], [], []⟩
  children := .node ⟨.own 2, .body, [], [], []⟩ (.node ⟨.own 3, .p, [], [], []⟩ (.node ⟨.own 4, .r, [], [], []⟩
    (.node ⟨.own 5, .t, [], str "Hi", []⟩ held .nil) .nil) .nil) .nil
  beside := 0

theorem rendered_frame_hello : ∃ rendered,
    renderDocx (fun _ => false) [] (oneTextDocument .nil) [.replacement ⟨str "p000001", str "Hello"⟩] none = .ok rendered ∧
      ∃ parsed validated, parsePackage (fun _ => false) [] (oneTextDocument .nil) = .ok parsed ∧
        Frame (fun _ => false) (oneTextDocument .nil) rendered (parsed.zip validated) := by
  have isRead : IsTemplate (oneTextDocument .nil).tree := ⟨by decide, by decide⟩
  refine ⟨_, rfl, ?_⟩
  obtain ⟨parsed, validated, isParsed, -, frame, -⟩ := @rendered_frame (fun _ => false) [] _ _
    [.replacement ⟨str "p000001", str "Hello"⟩] none isRead rfl
  exact ⟨parsed, validated, isParsed, frame⟩

/-- A drawing inside a text node goes with it. -/
theorem held_drawing_lost : ∃ rendered, renderDocx (fun _ => false) [] (oneTextDocument (.node drawing .nil .nil))
      [.replacement ⟨str "p000001", str "Hello"⟩] none = .ok rendered ∧
    drawing ∈ (oneTextDocument (.node drawing .nil .nil)).tree.elements ∧ drawing.tag.isInline = false ∧ drawing ∉ rendered.tree.elements :=
  ⟨_, rfl, by decide, rfl, by decide⟩

end Oveo.Docx
