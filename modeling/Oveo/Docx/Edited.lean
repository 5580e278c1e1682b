import Mathlib.Data.List.Nodup
import Mathlib.Data.List.Pairwise
import Oveo.Docx.Shown
import Oveo.Docx.Signs

/-! # Edits on the line of a paragraph

The edits of a layout replace the signs of their paragraph one by one: an item goes or gives place to new
content, and a run is inserted where a link starts or stops. -/

namespace Oveo.Docx

open Oveo.Lib

/-! ## Own signs -/

def Sign.element : Sign → Element
  | .start _ element => element
  | .stop element => element

def Identity.isOwn : Identity → Bool
  | .own _ => true
  | _ => false

/-- Is the sign one of the template? -/
def Sign.isOwn (sign : Sign) : Bool := sign.element.identity.isOwn

/-- The children of a paragraph as they are read: each element has a number of its own. -/
structure IsTemplate (children : Forest) : Prop where
  own : ∀ element ∈ children.elements, element.identity.isOwn = true
  distinct : (children.elements.map Element.identity).Nodup

section

variable {parent : Tag} {forest : Forest} {line : List Sign}

theorem started_sublist : ((signsFrom parent forest).filterMap Sign.started?).Sublist forest.elements := by
  induction forest generalizing parent with
  | nil => exact List.Sublist.refl _
  | node element children next childrenHypothesis nextHypothesis =>
    have below : ((if element.tag = .p then [] else signsFrom element.tag children).filterMap Sign.started?).Sublist children.elements := by
      split
      next => exact List.nil_sublist _
      next => exact childrenHypothesis
    have first : ((if element.tag.isMarked then .start parent element :: ((if element.tag = .p then [] else signsFrom element.tag children) ++
        [.stop element]) else if element.tag = .p then [] else signsFrom element.tag children).filterMap Sign.started?).Sublist
          (element :: children.elements) := by
      split
      next =>
        simp only [List.filterMap_cons, List.filterMap_append, List.filterMap_nil, Sign.started?, List.append_nil]
        exact below.cons_cons element
      next => exact below.cons element
    rw [signsFrom, List.filterMap_append]
    exact first.append nextHypothesis

/-- The nodes of a paragraph that have signs, with the tags of their parents, are the signs that start. -/
def Sign.start? : Sign → Option (Tag × Element)
  | .start parent element => some (parent, element)
  | .stop _ => none

theorem starts_eq (ancestors : List Tag) (forest : Forest) : (signsFrom (ancestors.headD .p) forest).filterMap Sign.start? =
    ((ownFrom ancestors forest).filter fun node => node.element.tag.isMarked).map fun node => (node.parent, node.element) := by
  induction forest generalizing ancestors with
  | nil => rfl
  | node element children next childrenHypothesis nextHypothesis =>
    have below : (if element.tag = .p then [] else signsFrom element.tag children).filterMap Sign.start? =
        ((if element.tag = .p then [] else ownFrom (element.tag :: ancestors) children).filter fun node => node.element.tag.isMarked).map
          fun node => (node.parent, node.element) := by
      split
      next => rfl
      next => exact childrenHypothesis (element.tag :: ancestors)
    rw [signsFrom, ownFrom, List.filterMap_append, nextHypothesis, List.filter_cons, List.filter_append]
    split
    next isMarked =>
      rw [List.filterMap_cons, List.filterMap_append, below]
      simp [Sign.start?, Node.parent]
    next notMarked => rw [below, List.map_append]

theorem mem_start {parent : Tag} {element : Element} : Sign.start parent element ∈ line ↔ (parent, element) ∈ line.filterMap Sign.start? := by
  rw [List.mem_filterMap]
  constructor
  · exact fun listed => ⟨_, listed, rfl⟩
  · rintro ⟨sign, listed, same⟩
    cases sign with
    | start _ _ =>
      cases same
      exact listed
    | stop _ => cases same

theorem start_of_node {children : Forest} {node : Node} (listed : node ∈ ownNodes children) (isMarked : node.element.tag.isMarked = true) :
    Sign.start node.parent node.element ∈ signs children := by
  rw [mem_start, signs, show Tag.p = ([] : List Tag).headD .p from rfl, starts_eq]
  exact List.mem_map.mpr ⟨node, List.mem_filter.mpr ⟨listed, isMarked⟩, rfl⟩

end

/-! ## Edits on the line -/

/-- What becomes of a sign in one edit. -/
def Edit.onSign : Edit → Sign → List Sign
  | .rewrite first rest value => rewriteSign first.element (rest.map Node.element) (inlineElements value)
  | .insertRun anchor before value => insertSign anchor before (inlineElements value)

/-- And in several, one after the other. -/
def editedSign : List Edit → Sign → List Sign
  | [], sign => [sign]
  | edit :: edits, sign => (edit.onSign sign).flatMap (editedSign edits)

/-- What a run is inserted next to. -/
structure IsAnchor (line : List Sign) (element : Element) : Prop where
  own : element.identity.isOwn = true
  isMarked : element.tag.isMarked = true
  notInline : element.tag.isInline = false
  inRun : element.tag = .fldChar → .start .r element ∈ line

/-- A text item of the template. -/
structure IsItem (element : Element) : Prop where
  isInline : element.tag.isInline = true
  notBreak : element.isLayoutBreak = false
  own : element.identity.isOwn = true

/-- What an edit of a paragraph with this line relies on. -/
inductive Edit.Fits (line : List Sign) : Edit → Prop where
  | rewrite {first rest value} (areItems : ∀ element ∈ first.element :: rest.map Node.element, IsItem element) :
      Fits line (.rewrite first rest value)
  | insertRun {anchor before value} (isAnchor : IsAnchor line anchor) : Fits line (.insertRun anchor before value)

/-- A paragraph in the course of the edits. -/
structure Ready (line : List Sign) (forest : Forest) : Prop where
  regular : Regular forest
  own : ((signs forest).filter Sign.isOwn).Sublist line

section

variable {parent : Tag} {forest content : Forest} {line : List Sign} {edit : Edit} {edits : List Edit} {element : Element}

theorem element_mem {sign : Sign} (listed : sign ∈ signsFrom parent forest) : sign.element ∈ forest.elements := by
  cases sign with
  | start _ element => exact started_sublist.subset (List.mem_filterMap.mpr ⟨_, listed, rfl⟩)
  | stop element => exact started_sublist.subset (started_of_stop listed)

theorem characterTag?_isInline {c : CodePoint} {tag : Tag} (isTag : characterTag? c = some tag) :
    (inlineCharacter? tag).isSome = true ∧ tag ≠ .t := by
  simp only [characterTag?] at isTag
  split_ifs at isTag <;> cases isTag <;> exact ⟨rfl, by decide⟩

theorem made_inlineElementsFrom (pending value : Str) : ∀ element ∈ (inlineElementsFrom pending value).elements, element.identity = .made := by
  have flushed (pending : Str) {next : Forest} (made : ∀ element ∈ next.elements, element.identity = .made) :
      ∀ element ∈ (flushPending pending next).elements, element.identity = .made := by
    rw [flushPending]
    split
    next => exact made
    next => exact List.forall_mem_cons.mpr ⟨rfl, made⟩
  induction value generalizing pending with
  | nil => exact flushed pending (List.forall_mem_nil _)
  | cons c rest inductionHypothesis =>
    rw [inlineElementsFrom]
    split
    next => exact inductionHypothesis _
    next => exact flushed pending (List.forall_mem_cons.mpr ⟨rfl, inductionHypothesis []⟩)

/-- New content is not of the template. -/
theorem filter_isOwn_inlineElements (value : Str) : (signsFrom parent (inlineElements value)).filter Sign.isOwn = [] := by
  refine List.filter_eq_nil_iff.mpr fun sign listed => ?_
  rw [Sign.isOwn, made_inlineElementsFrom [] value _ (element_mem listed)]
  exact Bool.false_ne_true

theorem onSign_own (edit : Edit) (sign : Sign) : ((edit.onSign sign).filter Sign.isOwn).Sublist ([sign].filter Sign.isOwn) := by
  cases edit with
  | rewrite first rest value =>
    cases sign with
    | start parent element =>
      simp only [Edit.onSign, rewriteSign]
      split
      · rw [filter_isOwn_inlineElements]
        exact List.nil_sublist _
      · split
        · exact List.nil_sublist _
        · exact List.Sublist.refl _
    | stop element =>
      simp only [Edit.onSign, rewriteSign]
      split
      · exact List.nil_sublist _
      · exact List.Sublist.refl _
  | insertRun anchor before value =>
    cases sign with
    | start parent element =>
      simp only [Edit.onSign, insertSign]
      split
      · rw [List.filter_append, filter_isOwn_inlineElements]
        exact List.Sublist.refl _
      · exact List.Sublist.refl _
    | stop element =>
      simp only [Edit.onSign, insertSign]
      split
      · rw [← List.singleton_append, List.filter_append, filter_isOwn_inlineElements, List.append_nil]
      · exact List.Sublist.refl _

theorem flatMap_onSign_own (edit : Edit) (line : List Sign) :
    ((line.flatMap edit.onSign).filter Sign.isOwn).Sublist (line.filter Sign.isOwn) := by
  induction line with
  | nil => exact List.Sublist.refl _
  | cons sign line inductionHypothesis =>
    rw [List.flatMap_cons, List.filter_append, ← List.singleton_append, List.filter_append]
    exact (onSign_own edit sign).append inductionHypothesis

/-- An element starts in one place of a line. -/
theorem parent_unique (distinct : (line.filterMap Sign.started?).Nodup) {first second : Tag} (isFirst : .start first element ∈ line)
    (isSecond : .start second element ∈ line) : first = second := by
  by_contra different
  have apart := List.pairwise_filterMap.mp distinct
  have symmetric : Std.Symm fun sign other : Sign => ∀ b ∈ Sign.started? sign, ∀ b' ∈ Sign.started? other, b ≠ b' :=
    ⟨fun _ _ apart b isB b' isB' same => apart b' isB' b isB same.symm⟩
  exact apart.forall isFirst isSecond (fun same => different (Sign.start.inj same).1) element rfl element rfl rfl

theorem count_filter_isOwn (own : element.identity.isOwn = true) (line : List Sign) :
    ((line.filter Sign.isOwn).filterMap Sign.started?).count element = (line.filterMap Sign.started?).count element := by
  induction line with
  | nil => rfl
  | cons sign line inductionHypothesis =>
    rw [List.filter_cons]
    split
    next => rw [← List.singleton_append, List.filterMap_append, List.count_append, inductionHypothesis, ← List.count_append,
        ← List.filterMap_append, List.singleton_append]
    next notOwn =>
      rw [inductionHypothesis, ← List.singleton_append, List.filterMap_append, List.count_append]
      cases sign with
      | start _ other =>
        have different : other ≠ element := fun same => notOwn (same ▸ own)
        simp [Sign.started?, different]
      | stop _ => simp [Sign.started?, List.filterMap_cons]

theorem Ready.standsOnce (ready : Ready line forest) (distinct : (line.filterMap Sign.started?).Nodup) (own : element.identity.isOwn = true)
    (inRun : .start .r element ∈ line) : StandsOnce element (signs forest) := by
  have ofLine {parent : Tag} (started : .start parent element ∈ signs forest) : .start parent element ∈ line :=
    ready.own.subset (List.mem_filter.mpr ⟨started, own⟩)
  refine ⟨?_, fun parent started => parent_unique distinct (ofLine started) inRun⟩
  rw [← count_filter_isOwn own]
  exact ((ready.own.filterMap _).count_le _).trans (List.nodup_iff_count_le_one.mp distinct element)

/-- An edit replaces each sign on its own. -/
theorem Ready.step (ready : Ready line forest) (distinct : (line.filterMap Sign.started?).Nodup) (fits : edit.Fits line) :
    signs (edit.apply forest) = (signs forest).flatMap edit.onSign ∧ Ready line (edit.apply forest) := by
  have both : signs (edit.apply forest) = (signs forest).flatMap edit.onSign ∧ Regular (edit.apply forest) := by
    cases fits with
    | @rewrite first rest value areItems =>
      have areInline : ∀ element ∈ first.element :: rest.map Node.element, element.tag.isInline = true := fun element listed =>
        (areItems element listed).isInline
      exact ⟨signsFrom_rewrite ready.regular areInline,
        regular_rewrite ready.regular areInline (regular_inlineElementsFrom [] value)⟩
    | @insertRun anchor before value isAnchor =>
      have isContent : Regular (inlineElements value) := regular_inlineElementsFrom [] value
      simp only [Edit.apply]
      split
      next isField =>
        have stands := ready.standsOnce distinct isAnchor.own (isAnchor.inRun isField)
        have notHere : Tag.p = .r → forest.breakAt anchor = none := fun impossible => nomatch impossible
        exact ⟨signsFrom_insertAtField ready.regular isField stands notHere,
          regular_insertAtField ready.regular isField stands notHere isContent⟩
      next => exact ⟨signsFrom_insertBeside isAnchor.isMarked, regular_insertBeside isAnchor.isMarked ready.regular isContent⟩
  refine ⟨both.1, both.2, ?_⟩
  rw [both.1]
  exact (flatMap_onSign_own edit _).trans ready.own

theorem Ready.run (ready : Ready line forest) (distinct : (line.filterMap Sign.started?).Nodup) (fit : ∀ edit ∈ edits, edit.Fits line) :
    signs (edits.foldl Edit.apply forest) = (signs forest).flatMap (editedSign edits) := by
  induction edits generalizing forest with
  | nil => exact (List.flatMap_singleton' _).symm
  | cons edit edits inductionHypothesis =>
    obtain ⟨fits, fit⟩ := List.forall_mem_cons.mp fit
    obtain ⟨isLine, next⟩ := ready.step distinct fits
    rw [List.foldl_cons, inductionHypothesis next fit, isLine, List.flatMap_assoc]
    rfl

theorem ready_of_regular (regular : Regular forest) : Ready (signs forest) forest where
  regular := regular
  own := List.filter_sublist

theorem started_nodup (isTemplate : IsTemplate forest) : ((signs forest).filterMap Sign.started?).Nodup :=
  started_sublist.nodup (List.Nodup.of_map _ isTemplate.distinct)

end

/-! ## The edits of a paragraph -/

/-- The places of the links that a scan has found, and of the field it is in. -/
structure Scan.Anchored (line : List Sign) (scan : Scan) : Prop where
  parts : ∀ part ∈ scan.parts, IsAnchor line part.2.start ∧ IsAnchor line part.2.stop
  field : ∀ field, scan.field = some field → IsAnchor line field.start

section

variable {isHyperlinkInstruction : Str → Bool} {children : Forest} {layout : Layout} {line : List Sign} {scan next : Scan} {node : Node}
  {childTag : Tag} {child : Element × Forest} {text : Str} {edits : List Edit} {edit : Edit}

theorem ancestors_suffix {ancestors : List Tag} {forest : Forest} (listed : node ∈ ownFrom ancestors forest) : ancestors <:+ node.ancestors := by
  induction forest generalizing ancestors with
  | nil => cases listed
  | node element children next childrenHypothesis nextHypothesis =>
    rw [ownFrom, List.mem_cons, List.mem_append] at listed
    rcases listed with rfl | below | rest
    · exact List.suffix_rfl
    · split at below
      next => cases below
      next => exact (List.suffix_cons _ _).trans (childrenHypothesis below)
    · exact nextHypothesis rest

/-- An element one level below a child of the paragraph has this child as its parent. -/
theorem parent_of_ownOf (listed : node ∈ ownOf child) (isBelow : node.ancestors.length = 1) : node.parent = child.1.tag := by
  rw [ownOf, ownFrom, List.mem_cons] at listed
  rcases listed with rfl | below
  · cases isBelow
  · rw [ownFrom, List.append_nil] at below
    split at below
    next => cases below
    next =>
      have same := (ancestors_suffix below).eq_of_length (by rw [isBelow]; rfl)
      rw [Node.parent, ← same]
      rfl

theorem mem_ownNodes_of_child (isChild : child ∈ children.nodes) (listed : node ∈ ownOf child) : node ∈ ownNodes children := by
  rw [ownNodes_eq_flatMap]
  exact List.mem_flatMap.mpr ⟨child, isChild, listed⟩

theorem mem_elements_of_own {ancestors : List Tag} {forest : Forest} (listed : node ∈ ownFrom ancestors forest) :
    node.element ∈ forest.elements := by
  induction forest generalizing ancestors with
  | nil => cases listed
  | node element children next childrenHypothesis nextHypothesis =>
    rw [Forest.elements, List.mem_cons, List.mem_append]
    rw [ownFrom, List.mem_cons, List.mem_append] at listed
    rcases listed with rfl | below | rest
    · exact .inl rfl
    · split at below
      next => cases below
      next => exact .inr (.inl (childrenHypothesis below))
    · exact .inr (.inr (nextHypothesis rest))

theorem Scan.Anchored.item (anchored : scan.Anchored line) (taken : scan.item node = some next) : next.Anchored line := by
  rw [Scan.item] at taken
  split at taken
  next =>
    cases taken
    exact ⟨anchored.parts, anchored.field⟩
  next field isField =>
    split at taken
    next => cases taken
    next =>
      cases taken
      have isAnchor := anchored.field field isField
      refine ⟨anchored.parts, fun field isField => ?_⟩
      cases isField
      exact isAnchor

theorem Scan.Anchored.fieldCharacter {element : Element} (anchored : scan.Anchored line) (isAnchor : IsAnchor line element)
    (taken : scan.fieldCharacter isHyperlinkInstruction element = some next) : next.Anchored line := by
  simp only [Scan.fieldCharacter] at taken
  split at taken
  next =>
    obtain ⟨-, isNext⟩ := Option.ite_none_right_eq_some.mp taken
    cases isNext
    refine ⟨anchored.parts, fun field isField => ?_⟩
    cases isField
    exact isAnchor
  next field isField =>
    split at taken
    next =>
      obtain ⟨-, isNext⟩ := Option.ite_none_right_eq_some.mp taken
      cases isNext
      have isStart := anchored.field field isField
      refine ⟨anchored.parts, fun field isField => ?_⟩
      cases isField
      exact isStart
    next =>
      obtain ⟨-, isNext⟩ := Option.ite_none_right_eq_some.mp taken
      cases isNext
      refine ⟨fun part listed => ?_, fun _ none => by cases none⟩
      rcases List.mem_append.mp listed with earlier | last
      · exact anchored.parts part earlier
      · cases List.mem_singleton.mp last
        exact ⟨anchored.field _ isField, isAnchor⟩

theorem Scan.Anchored.element (anchored : scan.Anchored line)
    (isAnchor : node.element.tag = .fldChar → childTag = .r → node.ancestors.length = 1 → IsAnchor line node.element)
    (taken : scan.element isHyperlinkInstruction childTag node = some next) : next.Anchored line := by
  rw [Scan.element] at taken
  split at taken
  next isField =>
    split at taken
    next => cases taken
    next accepted =>
      simp only [Bool.or_eq_true, decide_eq_true_eq, bne_iff_ne, ne_eq, not_or, not_not] at accepted
      obtain ⟨⟨notSimple, isRun⟩, isBelow⟩ := accepted
      split at taken
      next =>
        split at taken
        next start instruction isOpen =>
          cases taken
          have isStart := anchored.field _ isOpen
          refine ⟨anchored.parts, fun field isField => ?_⟩
          cases isField
          exact isStart
        next => cases taken
      next notInstruction =>
        have isCharacter : node.element.tag = .fldChar := by
          simp only [Tag.isField, Bool.or_eq_true, beq_iff_eq] at isField
          tauto
        exact anchored.fieldCharacter (isAnchor isCharacter isRun isBelow) taken
  next =>
    split at taken
    next => exact anchored.item taken
    next =>
      cases taken
      exact anchored

theorem Scan.Anchored.elements {nodes : List Node} (anchored : scan.Anchored line) (areAnchors : ∀ node ∈ nodes, node.element.tag = .fldChar →
    childTag = .r → node.ancestors.length = 1 → IsAnchor line node.element)
    (taken : nodes.foldlM (Scan.element isHyperlinkInstruction childTag) scan = some next) : next.Anchored line := by
  induction nodes generalizing scan with
  | nil =>
    cases taken
    exact anchored
  | cons node nodes inductionHypothesis =>
    obtain ⟨isAnchor, areAnchors⟩ := List.forall_mem_cons.mp areAnchors
    obtain ⟨between, isFirst, isRest⟩ := Option.bind_eq_some_iff.mp taken
    exact inductionHypothesis (anchored.element isAnchor isFirst) areAnchors isRest

theorem Scan.Anchored.ofChild (isTemplate : IsTemplate children) (anchored : scan.Anchored (signs children)) (isChild : child ∈ children.nodes)
    (taken : scan.child isHyperlinkInstruction child = some next) : next.Anchored (signs children) := by
  have isOwn {node : Node} (listed : node ∈ ownOf child) : node.element.identity.isOwn = true :=
    isTemplate.own _ (mem_elements_of_own (mem_ownNodes_of_child isChild listed))
  simp only [Scan.child] at taken
  split at taken
  next =>
    cases taken
    exact anchored
  next =>
    split at taken
    next isLink =>
      obtain ⟨-, isNext⟩ := Option.ite_none_left_eq_some.mp taken
      cases isNext
      have listed : (⟨[], child.1, child.2⟩ : Node) ∈ ownOf child := List.mem_cons_self
      have own : child.1.identity.isOwn = true := isOwn listed
      have isAnchor : IsAnchor (signs children) child.1 := by
        rcases isLink with isTag | isTag
        · exact ⟨own, by rw [isTag]; rfl, by rw [isTag]; rfl, fun isField => by cases isTag.symm.trans isField⟩
        · exact ⟨own, by rw [isTag]; rfl, by rw [isTag]; rfl, fun isField => by cases isTag.symm.trans isField⟩
      refine ⟨fun part listed => ?_, anchored.field⟩
      rcases List.mem_append.mp listed with earlier | last
      · exact anchored.parts part earlier
      · cases List.mem_singleton.mp last
        exact ⟨isAnchor, isAnchor⟩
    next =>
      refine anchored.elements (fun node listed isField isRun isBelow => ?_) taken
      have isMarked : node.element.tag.isMarked = true := by
        rw [isField]
        rfl
      have started := start_of_node (mem_ownNodes_of_child isChild listed) isMarked
      rw [parent_of_ownOf listed isBelow, isRun] at started
      exact ⟨isOwn listed, isMarked, by rw [isField]; rfl, fun _ => started⟩

theorem Scan.Anchored.ofChildren {nodes : List (Element × Forest)} (isTemplate : IsTemplate children) (anchored : scan.Anchored (signs children))
    (areChildren : ∀ child ∈ nodes, child ∈ children.nodes) (taken : nodes.foldlM (Scan.child isHyperlinkInstruction) scan = some next) :
    next.Anchored (signs children) := by
  induction nodes generalizing scan with
  | nil =>
    cases taken
    exact anchored
  | cons child nodes inductionHypothesis =>
    obtain ⟨isChild, areChildren⟩ := List.forall_mem_cons.mp areChildren
    obtain ⟨between, isFirst, isRest⟩ := Option.bind_eq_some_iff.mp taken
    exact inductionHypothesis (anchored.ofChild isTemplate isChild isFirst) areChildren isRest

/-- The links of a layout start and stop at elements that a run can be inserted next to. -/
theorem anchored_layout (isTemplate : IsTemplate children) (isLayout : paragraphLayout isHyperlinkInstruction children = some layout) :
    ∀ part ∈ layout.parts, IsAnchor (signs children) part.2.start ∧ IsAnchor (signs children) part.2.stop := by
  rw [paragraphLayout] at isLayout
  split at isLayout
  next parts current scanned =>
    cases isLayout
    have nothing : Scan.Anchored (signs children) ⟨[], [], none⟩ := ⟨List.forall_mem_nil _, fun _ isField => by cases isField⟩
    exact (nothing.ofChildren isTemplate (fun _ isChild => isChild) scanned).parts
  next => cases isLayout

/-- The items of a layout are text items of the template. -/
theorem items_layout (isTemplate : IsTemplate children) (isLayout : paragraphLayout isHyperlinkInstruction children = some layout) :
    ∀ item ∈ layout.items, IsItem item.element := by
  rw [layout_items isLayout]
  intro item listed
  obtain ⟨child, isChild, listed⟩ := List.mem_flatMap.mp listed
  rw [shownItems] at listed
  split at listed
  next => cases listed
  next =>
    obtain ⟨isNode, isItem⟩ := List.mem_filter.mp listed
    refine ⟨?_, ?_, isTemplate.own _ (mem_elements_of_own (mem_ownNodes_of_child isChild isNode))⟩
    · exact Node.isInline_of_isInlineItem isItem
    · simp only [Node.isInlineItem, Element.isInlineItem, Bool.or_eq_true, Bool.and_eq_true, beq_iff_eq, Bool.not_eq_true'] at isItem
      rcases isItem with isText | isCharacter
      · rw [Element.isLayoutBreak, isText]
        rfl
      · exact isCharacter.2

theorem fits_of_rewriteItems {items : List Node} {value : Str} (areItems : ∀ item ∈ items, IsItem item.element) :
    ∀ edit ∈ rewriteItems items value, edit.Fits line := by
  intro edit listed
  cases items with
  | nil => cases listed
  | cons first rest =>
    simp only [rewriteItems] at listed
    split at listed
    next => cases listed
    next =>
      cases List.mem_singleton.mp listed
      refine .rewrite fun element listed => ?_
      rw [← List.map_cons] at listed
      obtain ⟨item, isItem, rfl⟩ := List.mem_map.mp listed
      exact areItems item isItem

theorem fits_of_insertPlainRun {anchor : Element} {before : Bool} {value : Str} (isAnchor : IsAnchor line anchor) :
    ∀ edit ∈ insertPlainRun anchor before value, edit.Fits line := by
  intro edit listed
  rw [insertPlainRun] at listed
  split at listed
  next => cases listed
  next =>
    cases List.mem_singleton.mp listed
    exact .insertRun isAnchor

/-- What the edits of stretches and links are made of. -/
structure Fitting (line : List Sign) (parts : List (List Node × Link)) : Prop where
  plain : ∀ part ∈ parts, ∀ item ∈ part.1, IsItem item.element
  display : ∀ part ∈ parts, ∀ item ∈ part.2.items, IsItem item.element
  anchors : ∀ part ∈ parts, IsAnchor line part.2.start ∧ IsAnchor line part.2.stop

theorem fits_of_plainEdits {parts : List (List Node × Link)} {last : List Node} {behind : Option Link} {values : List Str} {edits : List Edit}
    (fitting : Fitting line parts) (areItems : ∀ item ∈ last, IsItem item.element) (isBehind : ∀ link ∈ behind, IsAnchor line link.stop)
    (areEdits : plainEdits behind last parts values = .ok edits) : ∀ edit ∈ edits, edit.Fits line := by
  induction parts generalizing behind values edits with
  | nil =>
    match values with
    | [] => cases areEdits
    | _ :: _ :: _ => cases areEdits
    | [value] =>
      simp only [plainEdits] at areEdits
      split at areEdits
      next =>
        split at areEdits
        next link =>
          cases areEdits
          exact fits_of_insertPlainRun (isBehind link rfl)
        next =>
          split at areEdits
          next =>
            cases areEdits
            exact fun _ listed => (nomatch listed)
          next => cases areEdits
      next =>
        cases areEdits
        exact fits_of_rewriteItems areItems
  | cons part parts inductionHypothesis =>
    obtain ⟨items, link⟩ := part
    cases values with
    | nil => cases areEdits
    | cons value values =>
      rw [plainEdits] at areEdits
      obtain ⟨rest, isRest, areEdits⟩ := ok_bind_iff.mp areEdits
      cases areEdits
      obtain ⟨plain, plains⟩ := List.forall_mem_cons.mp fitting.plain
      obtain ⟨-, displays⟩ := List.forall_mem_cons.mp fitting.display
      obtain ⟨anchors, others⟩ := List.forall_mem_cons.mp fitting.anchors
      have restFit := inductionHypothesis ⟨plains, displays, others⟩ (fun _ isLink => Option.mem_some.mp isLink ▸ anchors.2) isRest
      intro edit listed
      rcases List.mem_append.mp listed with isHere | later
      · split at isHere
        next => exact fits_of_insertPlainRun anchors.1 edit isHere
        next => exact fits_of_rewriteItems plain edit isHere
      · exact restFit edit later

theorem fits_of_displayEdits {links : List Link} {displays : List (Str × Str)} {edits : List Edit}
    (areItems : ∀ link ∈ links, ∀ item ∈ link.items, IsItem item.element) (areEdits : displayEdits links displays = .ok edits) :
    ∀ edit ∈ edits, edit.Fits line := by
  induction links generalizing displays edits with
  | nil =>
    cases areEdits
    exact fun _ listed => (nomatch listed)
  | cons link links inductionHypothesis =>
    cases displays with
    | nil =>
      cases areEdits
      exact fun _ listed => (nomatch listed)
    | cons display displays =>
      obtain ⟨id, display⟩ := display
      rw [displayEdits, ite_error_eq_ok] at areEdits
      obtain ⟨rest, isRest, areEdits⟩ := ok_bind_iff.mp areEdits.2
      cases areEdits
      obtain ⟨here, others⟩ := List.forall_mem_cons.mp areItems
      intro edit listed
      rcases List.mem_append.mp listed with isHere | later
      · exact fits_of_rewriteItems here edit isHere
      · exact inductionHypothesis others isRest edit later

/-- The edits of a paragraph fit its line. -/
theorem fits_of_paragraphEdits (isTemplate : IsTemplate children) (isLayout : paragraphLayout isHyperlinkInstruction children = some layout)
    (areEdits : paragraphEdits layout text = .ok edits) : ∀ edit ∈ edits, edit.Fits (signs children) := by
  have areItems := items_layout isTemplate isLayout
  have fitting : Fitting (signs children) layout.parts := by
    refine ⟨fun part listed item isItem => areItems item ?_, fun part listed item isItem => areItems item ?_, anchored_layout isTemplate isLayout⟩
    · exact List.mem_append_left _ (List.mem_flatMap.mpr ⟨part, listed, List.mem_append_left _ isItem⟩)
    · exact List.mem_append_left _ (List.mem_flatMap.mpr ⟨part, listed, List.mem_append_right _ isItem⟩)
  simp only [paragraphEdits, throw_bind, ite_error_eq_ok, ok_bind_iff, pure_eq_ok, Except.ok.injEq, Prod.exists] at areEdits
  obtain ⟨plains, links, -, -, plain, isPlain, display, isDisplay, rfl⟩ := areEdits
  intro edit listed
  rcases List.mem_append.mp listed with isPlainEdit | isDisplayEdit
  · have lastItems : ∀ item ∈ layout.last, IsItem item.element := fun item isItem => areItems item (List.mem_append_right _ isItem)
    exact fits_of_plainEdits fitting lastItems (fun _ isLink => by cases isLink) isPlain edit isPlainEdit
  · refine fits_of_displayEdits (fun link listed => ?_) isDisplay edit isDisplayEdit
    obtain ⟨part, isPart, rfl⟩ := List.mem_map.mp listed
    exact fitting.display part isPart

/-- Patched, a paragraph has the line its edits make of its line, sign by sign. -/
theorem signs_patchParagraph {patched : Forest} (isTemplate : IsTemplate children) (regular : Regular children)
    (isPatched : patchParagraph isHyperlinkInstruction children text = .ok patched) :
    ∃ layout edits, paragraphLayout isHyperlinkInstruction children = some layout ∧ paragraphEdits layout text = .ok edits ∧
      (∀ edit ∈ edits, edit.Fits (signs children)) ∧ signs patched = (signs children).flatMap (editedSign edits) := by
  rw [patchParagraph] at isPatched
  split at isPatched
  next => cases isPatched
  next layout isLayout =>
    obtain ⟨edits, areEdits, isPatched⟩ := ok_bind_iff.mp isPatched
    cases isPatched
    have fit := fits_of_paragraphEdits isTemplate isLayout areEdits
    exact ⟨layout, edits, isLayout, areEdits, fit, (ready_of_regular regular).run (started_nodup isTemplate) fit⟩

end

end Oveo.Docx
