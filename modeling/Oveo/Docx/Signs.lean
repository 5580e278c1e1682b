import Oveo.Docx.Patch

/-! # A paragraph as a line of signs

The text items, breaks, fields and links of a paragraph in document order, each with a sign where it
starts and one where it stops.  On this line an edit is a local replacement. -/

namespace Oveo.Docx

open Oveo.Lib

/-! ## Signs -/

inductive Sign where
  | start (parent : Tag) (element : Element)
  | stop (element : Element)
deriving DecidableEq

/-- The tags that have signs. -/
def Tag.isMarked (tag : Tag) : Bool := tag.isInline || tag.isField || tag == .hyperlink

/-- The signs of siblings, without what belongs to a nested paragraph. -/
def signsFrom (parent : Tag) : Forest → List Sign
  | .nil => []
  | .node element children next =>
    let below := if element.tag = .p then [] else signsFrom element.tag children
    (if element.tag.isMarked then .start parent element :: (below ++ [.stop element]) else below) ++ signsFrom parent next

/-- The signs of a paragraph with these children. -/
def signs (children : Forest) : List Sign := signsFrom .p children

/-- The element that starts here. -/
def Sign.started? : Sign → Option Element
  | .start _ element => some element
  | .stop _ => none

section

variable {parent : Tag} {forest : Forest} {element : Element}

theorem signsFrom_append (first second : Forest) :
    signsFrom parent (first.append second) = signsFrom parent first ++ signsFrom parent second := by
  induction first with
  | nil => rfl
  | node element children next _ inductionHypothesis =>
    rw [Forest.append, signsFrom, signsFrom, inductionHypothesis, List.append_assoc]

theorem signsFrom_marked {children next : Forest} (marked : element.tag.isMarked = true) :
    signsFrom parent (.node element children next) =
      .start parent element :: (signsFrom element.tag children ++ .stop element :: signsFrom parent next) := by
  have notParagraph : element.tag ≠ .p := by
    intro isParagraph
    rw [isParagraph] at marked
    cases marked
  rw [signsFrom, if_neg notParagraph, if_pos marked]
  simp

theorem signsFrom_run {children next : Forest} (isRun : element.tag = .r) :
    signsFrom parent (.node element children next) = signsFrom .r children ++ signsFrom parent next := by
  rw [signsFrom, isRun]
  rfl

theorem isMarked_of_isInline {tag : Tag} (isInline : tag.isInline = true) : tag.isMarked = true := by
  rw [Tag.isMarked, isInline]
  rfl

/-- What stops has started. -/
theorem started_of_stop (stopped : .stop element ∈ signsFrom parent forest) :
    element ∈ (signsFrom parent forest).filterMap Sign.started? := by
  induction forest generalizing parent with
  | nil => cases stopped
  | node first children next childrenHypothesis nextHypothesis =>
    rw [signsFrom, List.mem_append] at stopped
    rw [signsFrom, List.filterMap_append, List.mem_append]
    rcases stopped with inFirst | later
    · refine .inl ?_
      have inside (below : .stop element ∈ if first.tag = .p then [] else signsFrom first.tag children) :
          element ∈ (if first.tag = .p then [] else signsFrom first.tag children).filterMap Sign.started? := by
        split at below
        next => cases below
        next notParagraph =>
          rw [if_neg notParagraph]
          exact childrenHypothesis below
      split at inFirst
      next isMarked =>
        rw [if_pos isMarked, List.filterMap_cons, List.filterMap_append]
        rcases List.mem_cons.mp inFirst with impossible | inFirst
        · cases impossible
        · rcases List.mem_append.mp inFirst with below | last
          · exact List.mem_cons_of_mem _ (List.mem_append_left _ (inside below))
          · cases List.mem_singleton.mp last
            exact List.mem_cons_self
      next notMarked =>
        rw [if_neg notMarked]
        exact inside inFirst
    · exact .inr (nextHypothesis later)

end

/-! ## Regular paragraphs -/

/-- As the format has it: neither an inline item nor the properties of a run hold items, breaks, fields or links. -/
def Regular : Forest → Prop
  | .nil => True
  | .node element children next =>
    (element.tag.isInline = true ∨ element.tag = .rPr → signsFrom element.tag children = []) ∧
      (element.tag ≠ .p → Regular children) ∧ Regular next

section

variable {parent : Tag} {forest : Forest}

theorem regular_append {first second : Forest} :
    Regular (first.append second) ↔ Regular first ∧ Regular second := by
  induction first with
  | nil => exact (and_iff_right trivial).symm
  | node element children next _ inductionHypothesis =>
    simp only [Forest.append, Regular, inductionHypothesis, and_assoc]

theorem signsFrom_copy (forest : Forest) : signsFrom parent forest.copy = [] ↔ signsFrom parent forest = [] := by
  induction forest generalizing parent with
  | nil => exact Iff.rfl
  | node element children next childrenHypothesis nextHypothesis =>
    rw [Forest.copy, signsFrom, signsFrom, List.append_eq_nil_iff, List.append_eq_nil_iff, nextHypothesis]
    refine and_congr_left fun _ => ?_
    cases element.tag.isMarked
    · simp only [Bool.false_eq_true, if_false]
      split
      next => exact Iff.rfl
      next => exact childrenHypothesis
    · simp

theorem regular_copy (regular : Regular forest) : Regular forest.copy := by
  induction forest with
  | nil => trivial
  | node element children next childrenHypothesis nextHypothesis =>
    obtain ⟨noItems, isBelow, isRest⟩ := regular
    exact ⟨fun isItem => (signsFrom_copy children).mpr (noItems isItem), fun notParagraph => childrenHypothesis (isBelow notParagraph),
      nextHypothesis isRest⟩

theorem regular_copiedProperties (regular : Regular forest) : Regular forest.copiedProperties := by
  induction forest with
  | nil => trivial
  | node element children next _ nextHypothesis =>
    obtain ⟨noItems, isBelow, isRest⟩ := regular
    rw [Forest.copiedProperties]
    split
    next =>
      exact ⟨fun isItem => (signsFrom_copy children).mpr (noItems isItem), fun notParagraph => regular_copy (isBelow notParagraph),
        trivial⟩
    next => exact nextHypothesis isRest

/-- The properties that a second half of a run gets have no signs. -/
theorem signsFrom_copiedProperties (regular : Regular forest) : signsFrom parent forest.copiedProperties = [] := by
  induction forest with
  | nil => rfl
  | node element children next _ nextHypothesis =>
    obtain ⟨noItems, -, isRest⟩ := regular
    rw [Forest.copiedProperties]
    split
    next isProperties =>
      have noSigns := (signsFrom_copy children).mpr (noItems (.inr isProperties))
      rw [isProperties] at noSigns
      rw [signsFrom, isProperties, if_neg (by decide), if_neg (by decide), noSigns]
      rfl
    next => exact nextHypothesis isRest

/-- Properties alone have no signs. -/
theorem signsFrom_properties (regular : Regular forest)
    (areProperties : (forest.nodes.all fun child => child.1.tag == .rPr) = true) : signsFrom parent forest = [] := by
  induction forest with
  | nil => rfl
  | node element children next _ nextHypothesis =>
    obtain ⟨noItems, -, isRest⟩ := regular
    rw [Forest.nodes, List.all_cons, Bool.and_eq_true, beq_iff_eq] at areProperties
    obtain ⟨isProperties, areProperties⟩ := areProperties
    have noSigns := noItems (.inr isProperties)
    simp only at isProperties
    rw [isProperties] at noSigns
    rw [signsFrom, isProperties, if_neg (by decide), if_neg (by decide), noSigns, nextHypothesis isRest areProperties]
    rfl

/-- New content is regular in a run. -/
theorem regular_inlineElementsFrom (pending value : Str) : Regular (inlineElementsFrom pending value) := by
  have flushed (pending : Str) {next : Forest} (regular : Regular next) : Regular (flushPending pending next) := by
    rw [flushPending]
    split
    next => exact regular
    next => exact ⟨fun _ => rfl, fun _ => trivial, regular⟩
  induction value generalizing pending with
  | nil => exact flushed pending trivial
  | cons c rest inductionHypothesis =>
    rw [inlineElementsFrom]
    split
    next => exact inductionHypothesis _
    next tag isTag => exact flushed pending ⟨fun _ => rfl, fun _ => trivial, inductionHypothesis _⟩

end

/-! ## Rewriting a stretch -/

/-- What becomes of a sign when a stretch is rewritten. -/
def rewriteSign (first : Element) (rest : List Element) (content : Forest) : Sign → List Sign
  | .start parent element =>
    if element = first then signsFrom parent content else if element ∈ rest then [] else [.start parent element]
  | .stop element => if element = first ∨ element ∈ rest then [] else [.stop element]

section

variable {parent : Tag} {forest content : Forest} {first : Element} {rest : List Element}

theorem signsFrom_rewrite (regular : Regular forest) (areInline : ∀ element ∈ first :: rest, element.tag.isInline = true) :
    signsFrom parent (Forest.rewrite first rest content forest) =
      (signsFrom parent forest).flatMap (rewriteSign first rest content) := by
  induction forest generalizing parent with
  | nil => rfl
  | node element children next childrenHypothesis nextHypothesis =>
    obtain ⟨noItems, isBelow, isRest⟩ := regular
    have nextEq := @nextHypothesis parent isRest
    rw [Forest.rewrite]
    by_cases isFirst : element = first
    · have isInline := areInline element (isFirst ▸ List.mem_cons_self)
      rw [if_pos isFirst, signsFrom_append, nextEq, signsFrom_marked (isMarked_of_isInline isInline), noItems (.inl isInline)]
      simp [rewriteSign, isFirst]
    · rw [if_neg isFirst]
      by_cases isOther : element ∈ rest
      · have isInline := areInline element (List.mem_cons_of_mem _ isOther)
        rw [if_pos isOther, nextEq, signsFrom_marked (isMarked_of_isInline isInline), noItems (.inl isInline)]
        simp [rewriteSign, isFirst, isOther]
      · have below : (if element.tag = .p then [] else signsFrom element.tag (Forest.rewrite first rest content children)) =
            (if element.tag = .p then [] else signsFrom element.tag children).flatMap (rewriteSign first rest content) := by
          split
          next => rfl
          next notParagraph => exact childrenHypothesis (isBelow notParagraph)
        rw [if_neg isOther, signsFrom, signsFrom, below, nextEq]
        split
        next => simp [rewriteSign, isFirst, isOther]
        next => simp

theorem regular_rewrite (regular : Regular forest) (areInline : ∀ element ∈ first :: rest, element.tag.isInline = true)
    (isContent : Regular content) : Regular (Forest.rewrite first rest content forest) := by
  induction forest with
  | nil => trivial
  | node element children next childrenHypothesis nextHypothesis =>
    obtain ⟨noItems, isBelow, isRest⟩ := regular
    have nextRegular := nextHypothesis isRest
    rw [Forest.rewrite]
    split
    next => exact regular_append.mpr ⟨isContent, nextRegular⟩
    next =>
      split
      next => exact nextRegular
      next =>
        refine ⟨fun isItem => ?_, fun notParagraph => childrenHypothesis (isBelow notParagraph), nextRegular⟩
        have notParagraph : element.tag ≠ .p := by
          rintro isParagraph
          rcases isItem with isInline | isProperties
          · rw [isParagraph] at isInline
            cases isInline
          · cases isProperties.symm.trans isParagraph
        rw [signsFrom_rewrite (isBelow notParagraph) areInline, noItems isItem]
        rfl

end

/-! ## Inserting a run -/

/-- What becomes of a sign when a run is inserted next to its element. -/
def insertSign (anchor : Element) (before : Bool) (content : Forest) : Sign → List Sign
  | .start parent element =>
    if before = true ∧ element = anchor then signsFrom .r content ++ [.start parent element] else [.start parent element]
  | .stop element => if before = false ∧ element = anchor then .stop element :: signsFrom .r content else [.stop element]

section

variable {parent : Tag} {forest content : Forest} {anchor : Element} {before : Bool}

theorem signsFrom_insertBeside (marked : anchor.tag.isMarked = true) :
    signsFrom parent (Forest.insertBeside anchor before content forest) =
      (signsFrom parent forest).flatMap (insertSign anchor before content) := by
  induction forest generalizing parent with
  | nil => rfl
  | node element children next childrenHypothesis nextHypothesis =>
    rw [Forest.insertBeside]
    by_cases isAnchor : element = anchor
    · subst isAnchor
      simp only [if_true]
      rw [signsFrom_marked marked]
      cases before with
      | false =>
        rw [if_neg Bool.false_ne_true, signsFrom_marked marked, signsFrom_run rfl, childrenHypothesis, nextHypothesis]
        simp [insertSign]
      | true =>
        rw [if_pos rfl, signsFrom_run rfl, signsFrom_marked marked, childrenHypothesis, nextHypothesis]
        simp [insertSign]
    · rw [if_neg isAnchor, signsFrom, signsFrom, nextHypothesis, List.flatMap_append]
      refine congrArg (· ++ _) ?_
      have below : (if element.tag = .p then [] else signsFrom element.tag (Forest.insertBeside anchor before content children)) =
          (if element.tag = .p then [] else signsFrom element.tag children).flatMap (insertSign anchor before content) := by
        split
        next => rfl
        next => exact childrenHypothesis
      rw [below]
      split
      next => simp [insertSign, isAnchor]
      next => rfl

theorem regular_run {element : Element} {children next : Forest} (isRun : element.tag = .r) (isContent : Regular children)
    (isRest : Regular next) : Regular (.node element children next) := by
  rw [Regular, isRun]
  refine ⟨?_, fun _ => isContent, isRest⟩
  rintro (isInline | isProperties)
  · cases isInline
  · cases isProperties

theorem regular_insertBeside (marked : anchor.tag.isMarked = true) (regular : Regular forest) (isContent : Regular content) :
    Regular (Forest.insertBeside anchor before content forest) := by
  induction forest with
  | nil => trivial
  | node element children next childrenHypothesis nextHypothesis =>
    obtain ⟨noItems, isBelow, isRest⟩ := regular
    have nextRegular := nextHypothesis isRest
    have same (rest : Forest) (isRest : Regular rest) :
        Regular (.node element (Forest.insertBeside anchor before content children) rest) := by
      refine ⟨fun isItem => ?_, fun notParagraph => childrenHypothesis (isBelow notParagraph), isRest⟩
      rw [signsFrom_insertBeside marked, noItems isItem]
      rfl
    simp only [Forest.insertBeside]
    split
    next =>
      split
      next => exact regular_run rfl isContent (same _ nextRegular)
      next => exact same _ (regular_run rfl isContent nextRegular)
    next => exact same _ nextRegular

/-- Where the field character does not start, nothing is inserted. -/
theorem flatMap_insertSign_of_absent (absent : anchor ∉ (signsFrom parent forest).filterMap Sign.started?) :
    (signsFrom parent forest).flatMap (insertSign anchor before content) = signsFrom parent forest := by
  have untouched : ∀ sign ∈ signsFrom parent forest, insertSign anchor before content sign = [sign] := by
    intro sign listed
    cases sign with
    | start parent' element =>
      have other : element ≠ anchor := fun isAnchor => absent (isAnchor ▸ List.mem_filterMap.mpr ⟨_, listed, rfl⟩)
      simp [insertSign, other]
    | stop element =>
      have other : element ≠ anchor := fun isAnchor => absent (isAnchor ▸ started_of_stop listed)
      simp [insertSign, other]
  rw [List.flatMap_congr untouched, List.flatMap_singleton']

theorem breakAt_eq_some {element : Element} {preceding following : Forest} (found : forest.breakAt element = some (preceding, following)) :
    forest = preceding.append following ∧ ∃ children next, following = .node element children next := by
  induction forest generalizing preceding with
  | nil => cases found
  | node first children next _ nextHypothesis =>
    rw [Forest.breakAt] at found
    split at found
    next isElement =>
      cases found
      exact ⟨rfl, children, next, by rw [isElement]⟩
    next =>
      obtain ⟨⟨preceding, after⟩, isFound, same⟩ := Option.map_eq_some_iff.mp found
      cases same
      obtain ⟨rfl, isNode⟩ := nextHypothesis isFound
      exact ⟨rfl, isNode⟩

/-- Once, and in a run: how a field character of a layout stands in its paragraph. -/
structure StandsOnce (element : Element) (line : List Sign) : Prop where
  once : (line.filterMap Sign.started?).count element ≤ 1
  inRun : ∀ parent, .start parent element ∈ line → parent = .r

theorem StandsOnce.append {first second : List Sign} (stands : StandsOnce anchor (first ++ second)) :
    StandsOnce anchor first ∧ StandsOnce anchor second := by
  obtain ⟨once, inRun⟩ := stands
  rw [List.filterMap_append, List.count_append] at once
  exact ⟨⟨by omega, fun parent started => inRun parent (List.mem_append_left _ started)⟩,
    by omega, fun parent started => inRun parent (List.mem_append_right _ started)⟩

theorem StandsOnce.absent {first second : List Sign} (stands : StandsOnce anchor (first ++ second))
    (started : anchor ∈ first.filterMap Sign.started?) : anchor ∉ second.filterMap Sign.started? := by
  have once := stands.once
  rw [List.filterMap_append, List.count_append] at once
  have := List.count_pos_iff.mpr started
  exact List.count_eq_zero.mp (by omega)

theorem StandsOnce.absent' {first second : List Sign} (stands : StandsOnce anchor (first ++ second))
    (started : anchor ∈ second.filterMap Sign.started?) : anchor ∉ first.filterMap Sign.started? := by
  have once := stands.once
  rw [List.filterMap_append, List.count_append] at once
  have := List.count_pos_iff.mpr started
  exact List.count_eq_zero.mp (by omega)

/-- The signs of a field character, with those of its run around it. -/
theorem signsFrom_field {field : Element} {preceding inField moving : Forest} (isField : field.tag = .fldChar) :
    signsFrom .r (preceding.append (.node field inField moving)) =
      signsFrom .r preceding ++ .start .r field :: (signsFrom field.tag inField ++ .stop field :: signsFrom .r moving) := by
  rw [signsFrom_append, signsFrom_marked (by rw [isField]; rfl)]

/-- Next to a field character that stands once and in a run, a run is inserted at its sign. -/
theorem flatMap_insertSign_field {field : Element} {preceding inField moving next : Forest} (isField : field.tag = .fldChar)
    (stands : StandsOnce field (signsFrom .r (preceding.append (.node field inField moving)) ++ signsFrom parent next)) :
    (signsFrom .r (preceding.append (.node field inField moving)) ++ signsFrom parent next).flatMap (insertSign field before content) =
      signsFrom .r preceding ++ ((if before then signsFrom .r content else []) ++ .start .r field :: (signsFrom field.tag inField ++
        .stop field :: ((if before then [] else signsFrom .r content) ++ (signsFrom .r moving ++ signsFrom parent next)))) := by
  rw [signsFrom_field isField, List.append_assoc, List.cons_append, List.append_assoc, List.cons_append] at stands ⊢
  have isStarted (more : List Sign) : field ∈ (.start .r field :: more).filterMap Sign.started? := by
    rw [List.filterMap_cons]
    exact List.mem_cons_self
  have others := stands.append.2.once
  rw [List.filterMap_cons, List.filterMap_append, List.filterMap_cons, List.filterMap_append] at others
  simp only [Sign.started?, List.count_cons_self, List.count_append] at others
  rw [List.flatMap_append, flatMap_insertSign_of_absent (stands.absent' (isStarted _)), List.flatMap_cons, List.flatMap_append,
    flatMap_insertSign_of_absent (List.count_eq_zero.mp (by omega)), List.flatMap_cons, List.flatMap_append,
    flatMap_insertSign_of_absent (List.count_eq_zero.mp (by omega)), flatMap_insertSign_of_absent (List.count_eq_zero.mp (by omega))]
  cases before <;> simp [insertSign]

theorem signsFrom_remainder {run : Element} {children moving next : Forest} (regular : Regular children) :
    signsFrom parent (Forest.remainder run children moving next) = signsFrom .r moving ++ signsFrom parent next := by
  rw [Forest.remainder, signsFrom_run rfl, signsFrom_append, signsFrom_copiedProperties regular, List.nil_append]

/-- What stands once and in a run among siblings does so below the first of them, and among the others. -/
theorem StandsOnce.parts {element : Element} {children next : Forest} (stands : StandsOnce anchor (signsFrom parent (.node element children next))) :
    (element.tag ≠ .p → StandsOnce anchor (signsFrom element.tag children)) ∧ StandsOnce anchor (signsFrom parent next) := by
  rw [signsFrom] at stands
  refine ⟨fun notParagraph => ?_, stands.append.2⟩
  replace stands := stands.append.1
  rw [if_neg notParagraph] at stands
  split at stands
  next =>
    have around : StandsOnce anchor ([.start parent element] ++ (signsFrom element.tag children ++ [.stop element])) := stands
    exact around.append.2.append.1
  next => exact stands

/-- Among siblings that do not hold it, a field character is not the first one, and the others do not hold it. -/
theorem absent_of_breakAt {element : Element} {children next : Forest}
    (absent : parent = .r → (Forest.node element children next).breakAt anchor = none) :
    (parent = .r → element ≠ anchor) ∧ (parent = .r → next.breakAt anchor = none) := by
  refine ⟨fun isRun isAnchor => ?_, fun isRun => ?_⟩
  · have absent := absent isRun
    rw [Forest.breakAt, if_pos isAnchor] at absent
    cases absent
  · have absent := absent isRun
    rw [Forest.breakAt] at absent
    split at absent
    next => cases absent
    next => exact Option.map_eq_none_iff.mp absent

theorem signsFrom_insertAtField (regular : Regular forest) (isField : anchor.tag = .fldChar)
    (stands : StandsOnce anchor (signsFrom parent forest)) (notHere : parent = .r → forest.breakAt anchor = none) :
    signsFrom parent (Forest.insertAtField anchor before content forest) =
      (signsFrom parent forest).flatMap (insertSign anchor before content) := by
  induction forest generalizing parent with
  | nil => rfl
  | node element children next childrenHypothesis nextHypothesis =>
    obtain ⟨-, isBelow, isRest⟩ := regular
    rw [Forest.insertAtField]
    split
    next notBelow =>
      obtain ⟨notFirst, notNext⟩ := absent_of_breakAt notHere
      obtain ⟨standsBelow, standsNext⟩ := stands.parts
      have belowEq (notParagraph : element.tag ≠ .p) :=
        childrenHypothesis (isBelow notParagraph) (standsBelow notParagraph) fun isRun => by rwa [if_pos isRun] at notBelow
      rw [signsFrom, signsFrom, nextHypothesis isRest standsNext notNext, List.flatMap_append]
      refine congrArg (· ++ _) ?_
      by_cases isParagraph : element.tag = .p
      · rw [isParagraph]
        rfl
      · rw [if_neg isParagraph, if_neg isParagraph, belowEq isParagraph]
        split
        next isMarked =>
          have other : element ≠ anchor := fun isAnchor => by
            refine notFirst (stands.inRun parent ?_) isAnchor
            rw [signsFrom, if_pos isMarked, isAnchor]
            exact List.mem_cons_self
          simp [insertSign, other]
        next => rfl
    next preceding following here =>
      split at here
      next isRun =>
        have childrenRegular : Regular children := isBelow (by rw [isRun]; decide)
        obtain ⟨rfl, inField, moving, rfl⟩ := breakAt_eq_some here
        rw [signsFrom_run isRun] at stands ⊢
        rw [flatMap_insertSign_field isField stands]
        cases before with
        | true =>
          simp only [if_true]
          split
          next areProperties =>
            rw [signsFrom_run rfl, signsFrom_run isRun, signsFrom_field isField,
              signsFrom_properties (regular_append.mp childrenRegular).1 areProperties]
            simp
          next =>
            rw [signsFrom_run isRun, signsFrom_run rfl, signsFrom_remainder childrenRegular,
              signsFrom_marked (by rw [isField]; rfl)]
            simp
        | false =>
          simp only [Bool.false_eq_true, if_false]
          split
          next impossible => cases impossible
          next same =>
            cases same
            rw [signsFrom_run isRun, signsFrom_run rfl, signsFrom_field isField]
            simp [signsFrom]
          next _ same =>
            cases same
            rw [signsFrom_run isRun, signsFrom_run rfl, signsFrom_remainder childrenRegular, signsFrom_field isField]
            simp [signsFrom]
      next => cases here

theorem regular_remainder {run : Element} {children moving next : Forest} (isChildren : Regular children) (isMoving : Regular moving)
    (isRest : Regular next) : Regular (Forest.remainder run children moving next) :=
  regular_run rfl (regular_append.mpr ⟨regular_copiedProperties isChildren, isMoving⟩) isRest

theorem regular_insertAtField (regular : Regular forest) (isField : anchor.tag = .fldChar)
    (stands : StandsOnce anchor (signsFrom parent forest)) (notHere : parent = .r → forest.breakAt anchor = none)
    (isContent : Regular content) : Regular (Forest.insertAtField anchor before content forest) := by
  induction forest generalizing parent with
  | nil => trivial
  | node element children next childrenHypothesis nextHypothesis =>
    obtain ⟨noItems, isBelow, isRest⟩ := regular
    rw [Forest.insertAtField]
    split
    next notBelow =>
      obtain ⟨-, notNext⟩ := absent_of_breakAt notHere
      obtain ⟨standsBelow, standsNext⟩ := stands.parts
      have childAbsent : element.tag = .r → children.breakAt anchor = none := fun isRun => by rwa [if_pos isRun] at notBelow
      refine ⟨fun isItem => ?_, fun notParagraph => ?_, nextHypothesis isRest standsNext notNext⟩
      · have notParagraph : element.tag ≠ .p := by
          intro isParagraph
          rw [isParagraph] at isItem
          rcases isItem with isInline | isProperties
          · cases isInline
          · cases isProperties
        rw [signsFrom_insertAtField (isBelow notParagraph) isField (standsBelow notParagraph) childAbsent, noItems isItem]
        rfl
      · exact childrenHypothesis (isBelow notParagraph) (standsBelow notParagraph) childAbsent
    next preceding following here =>
      split at here
      next isRun =>
        have childrenRegular : Regular children := isBelow (by rw [isRun]; decide)
        obtain ⟨rfl, inField, moving, rfl⟩ := breakAt_eq_some here
        obtain ⟨isPreceding, isFollowing⟩ := regular_append.mp childrenRegular
        cases before with
        | true =>
          simp only [if_true]
          split
          next => exact regular_run rfl isContent (regular_run isRun childrenRegular isRest)
          next =>
            exact regular_run isRun isPreceding (regular_run rfl isContent (regular_remainder childrenRegular isFollowing isRest))
        | false =>
          simp only [Bool.false_eq_true, if_false]
          split
          next impossible => cases impossible
          next same =>
            cases same
            exact regular_run isRun childrenRegular (regular_run rfl isContent isRest)
          next _ same =>
            cases same
            obtain ⟨fieldItems, fieldBelow, isMoving⟩ := isFollowing
            refine regular_run isRun (regular_append.mpr ⟨isPreceding, fieldItems, fieldBelow, trivial⟩) ?_
            exact regular_run rfl isContent (regular_remainder childrenRegular isMoving isRest)
      next => cases here

end

end Oveo.Docx
