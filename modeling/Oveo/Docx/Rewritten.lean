import Oveo.Docx.Rewriting

/-! # A rewritten stretch, read again

An item sits in a run of the paragraph.  Where the items of a stretch give place to new content, the line of
the paragraph is rewritten at these items only. -/

namespace Oveo.Docx

open Oveo.Lib

/-! ## Items in runs -/

/-- Is it an element in which no run is written: content of a run, a field character or properties? -/
def Tag.holdsNoRun (tag : Tag) : Bool := tag.isInline || tag == .fldChar || tag == .rPr || tag == .pPr

/-- Directly in a run, which stands where a run can be. -/
def Sits (ancestors : List Tag) : Prop := ancestors.headD .p = .r ∧ ∀ tag ∈ ancestors, tag.holdsNoRun = false

instance decidableSits (ancestors : List Tag) : Decidable (Sits ancestors) := inferInstanceAs (Decidable (_ ∧ _))

def Node.SitsInRun (node : Node) : Prop := Sits node.ancestors

instance decidableSitsInRun (node : Node) : Decidable node.SitsInRun := inferInstanceAs (Decidable (Sits _))

/-- The nodes of new content. -/
def contentNodes (ancestors : List Tag) (value : Str) : List Node := ownFrom ancestors (inlineElements value)

def Forest.tails (forest : Forest) : Str := forest.nodes.flatMap fun child => child.1.tail

section

variable {childTag : Tag} {ancestors : List Tag} {forest children next : Forest} {element : Element} {node : Node}

theorem eventsFrom_node : eventsFrom childTag ancestors (.node element children next) =
    (Node.event? childTag ⟨ancestors, element, children⟩).toList ++
      ((if element.tag = .p then [] else eventsFrom childTag (element.tag :: ancestors) children) ++ eventsFrom childTag ancestors next) := by
  have inside : (if element.tag = .p then [] else ownFrom (element.tag :: ancestors) children).filterMap (Node.event? childTag) =
      if element.tag = .p then [] else eventsFrom childTag (element.tag :: ancestors) children := by
    split <;> rfl
  rw [eventsFrom, ownFrom, List.filterMap_cons, List.filterMap_append, inside]
  cases Node.event? childTag ⟨ancestors, element, children⟩ <;> rfl

theorem ownFrom_append (first second : Forest) : ownFrom ancestors (first.append second) = ownFrom ancestors first ++ ownFrom ancestors second := by
  induction first with
  | nil => rfl
  | node element children next _ inductionHypothesis =>
    rw [Forest.append, ownFrom, ownFrom, inductionHypothesis, List.cons_append, List.append_assoc]

theorem eventsFrom_append (first second : Forest) :
    eventsFrom childTag ancestors (first.append second) = eventsFrom childTag ancestors first ++ eventsFrom childTag ancestors second := by
  rw [eventsFrom, ownFrom_append, List.filterMap_append]
  rfl

/-- A node is seen by its ancestors, its element and its own character content. -/
theorem event?_congr {inside : Forest} (sameText : element.tag.isField = true → inside.tails = children.tails) :
    Node.event? childTag ⟨ancestors, element, inside⟩ = Node.event? childTag ⟨ancestors, element, children⟩ := by
  simp only [Node.event?]
  split
  next isField =>
    have same : Node.instructionText ⟨ancestors, element, inside⟩ = Node.instructionText ⟨ancestors, element, children⟩ :=
      congrArg (element.text ++ ·) (sameText isField)
    rw [same]
  next => rfl

theorem event?_item (isItem : node.isInlineItem = true) : node.event? childTag = some (.item node.bare) := by
  rw [Node.event?, if_neg (by simp [Node.not_isField_of_isInlineItem isItem]), if_pos isItem]

/-- Inside the content or the properties of a run nothing is read. -/
theorem nothing_inside {tag : Tag} (inRun : .r ∈ ancestors) (noRun : tag.holdsNoRun = true)
    (sits : ∀ node ∈ ownFrom (tag :: ancestors) forest, node.isInlineItem = true → node.SitsInRun)
    (accepted : .refusal ∉ eventsFrom childTag (tag :: ancestors) forest) : eventsFrom childTag (tag :: ancestors) forest = [] := by
  refine List.filterMap_eq_nil_iff.mpr fun node listed => ?_
  have below := ancestors_suffix listed
  rw [Node.event?]
  split
  next isField =>
    -- field markup this deep is refused
    have deep : node.ancestors.length ≠ 1 := by
      have longer := below.length_le
      have nonempty := List.length_pos_of_mem inRun
      rw [List.length_cons] at longer
      omega
    refine absurd (List.mem_filterMap.mpr ⟨node, listed, ?_⟩) accepted
    rw [Node.event?, if_pos isField, if_pos (by simp [deep])]
  next =>
    split
    next isItem =>
      have mayHold := (sits node listed isItem).2 tag (below.subset List.mem_cons_self)
      rw [noRun] at mayHold
      cases mayHold
    next => rfl

theorem mem_ownFrom_of_nodes {child : Element × Forest} (listed : child ∈ forest.nodes) :
    ⟨ancestors, child.1, child.2⟩ ∈ ownFrom ancestors forest := by
  induction forest with
  | nil => cases listed
  | node element children next _ inductionHypothesis =>
    rw [Forest.nodes, List.mem_cons] at listed
    rw [ownFrom, List.mem_cons, List.mem_append]
    rcases listed with rfl | later
    · exact .inl rfl
    · exact .inr (.inr (inductionHypothesis later))

end

/-! ## New content -/

section

variable {childTag : Tag} {ancestors : List Tag}

/-- New content is text nodes and characters, whose text is the value. -/
theorem contentNodes_from (pending value : Str) : ∀ nodes, nodes = ownFrom ancestors (inlineElementsFrom pending value) →
    textOf nodes = pending ++ value ∧ ∀ node ∈ nodes, node.ancestors = ancestors ∧ node.children = .nil ∧ node.element.identity = .made ∧
      node.element.tag.isInline = true ∧ node.element.isLayoutBreak = false := by
  have flushed (pending : Str) (next : Forest) : textOf (ownFrom ancestors (flushPending pending next)) = pending ++ textOf (ownFrom ancestors next) ∧
      ∀ node ∈ ownFrom ancestors (flushPending pending next), node ∈ ownFrom ancestors next ∨
        node = ⟨ancestors, textElement pending, .nil⟩ := by
    rw [flushPending]
    split
    next isEmpty =>
      rw [List.isEmpty_iff.mp isEmpty]
      exact ⟨rfl, fun node listed => .inl listed⟩
    next =>
      rw [ownFrom]
      refine ⟨rfl, fun node listed => ?_⟩
      rcases List.mem_cons.mp listed with rfl | later
      · exact .inr rfl
      · exact .inl later
  induction value generalizing pending with
  | nil =>
    rintro _ rfl
    obtain ⟨isText, each⟩ := flushed pending .nil
    refine ⟨isText, fun node listed => ?_⟩
    rcases each node listed with later | rfl
    · cases later
    · exact ⟨rfl, rfl, rfl, rfl, rfl⟩
  | cons c rest inductionHypothesis =>
    rintro _ rfl
    rw [inlineElementsFrom]
    cases isTag : characterTag? c with
    | none =>
      obtain ⟨isText, each⟩ := inductionHypothesis (pending ++ [c]) _ rfl
      exact ⟨by rw [isText, List.append_assoc, List.singleton_append], each⟩
    | some tag =>
      obtain ⟨isText, each⟩ := inductionHypothesis [] _ rfl
      obtain ⟨flushedText, flushedEach⟩ := flushed pending (.node (newElement tag) .nil (inlineElementsFrom [] rest))
      have isCharacter : Element.itemText (newElement tag) = [c] ∧ tag.isInline = true ∧ tag ≠ .p ∧ (newElement tag).isLayoutBreak = false := by
        simp only [characterTag?] at isTag
        split_ifs at isTag with isTab isBreak isHyphen isSoft <;> cases isTag <;> subst c <;> exact ⟨by decide, rfl, by decide, by decide⟩
      have isRest : ownFrom ancestors (.node (newElement tag) .nil (inlineElementsFrom [] rest)) =
          ⟨ancestors, newElement tag, .nil⟩ :: ownFrom ancestors (inlineElementsFrom [] rest) := by
        rw [ownFrom]
        simp [ownFrom]
      refine ⟨?_, fun node listed => ?_⟩
      · rw [flushedText, isRest]
        have tailText : textOf (ownFrom ancestors (inlineElementsFrom [] rest)) = rest := isText
        exact congrArg (pending ++ ·) (congrArg₂ (· ++ ·) isCharacter.1 tailText)
      · rcases flushedEach node listed with later | rfl
        · rw [isRest] at later
          rcases List.mem_cons.mp later with rfl | later
          · exact ⟨rfl, rfl, rfl, isCharacter.2.1, isCharacter.2.2.2⟩
          · exact each node later
        · exact ⟨rfl, rfl, rfl, rfl, rfl⟩

theorem textOf_contentNodes (ancestors : List Tag) (value : Str) : textOf (contentNodes ancestors value) = value :=
  (contentNodes_from [] value _ rfl).1

theorem mem_contentNodes {value : Str} {node : Node} (listed : node ∈ contentNodes ancestors value) :
    node.ancestors = ancestors ∧ node.children = .nil ∧ node.element.identity = .made ∧
      node.element.tag.isInline = true ∧ node.element.isLayoutBreak = false :=
  (contentNodes_from [] value _ rfl).2 node listed

/-- An element with an inline tag is an item in a run, but for page and column breaks. -/
theorem isInlineItem_of_run {node : Node} (inRun : node.parent = .r) (isInline : node.element.tag.isInline = true)
    (notBreak : node.element.isLayoutBreak = false) : node.isInlineItem = true := by
  rw [Node.isInlineItem, Element.isInlineItem, inRun, notBreak]
  simpa [Tag.isInline] using isInline

/-- In a run, new content is read as items. -/
theorem eventsFrom_content (inRun : ancestors.headD .p = .r) (value : Str) :
    eventsFrom childTag ancestors (inlineElements value) = (contentNodes ancestors value).map .item := by
  rw [eventsFrom, ← List.filterMap_eq_map, ← contentNodes]
  refine List.filterMap_congr fun node listed => ?_
  obtain ⟨isPlace, noChildren, -, isInline, notBreak⟩ := mem_contentNodes listed
  have isItem : node.isInlineItem = true := isInlineItem_of_run (by rw [Node.parent, isPlace, inRun]) isInline notBreak
  have isBare : node.bare = node := by rw [Node.bare, ← noChildren]
  rw [event?_item isItem, isBare]
  rfl

end

/-! ## A rewritten stretch -/

def rewritingOfItems (first : Element) (rest : List Element) (value : Str) : Rewriting where
  item node :=
    if node.element = first then contentNodes node.ancestors value else if node.element ∈ rest then [] else [node]
  before _ := []
  behind _ := []

section

variable {isHyperlinkInstruction : Str → Bool} {childTag : Tag} {ancestors : List Tag} {forest children : Forest} {first : Element}
  {rest : List Element} {value : Str} {content : Forest}

theorem tails_rewrite (apart : ∀ child ∈ forest.nodes, child.1 ∉ first :: rest) : (Forest.rewrite first rest content forest).tails = forest.tails := by
  induction forest with
  | nil => rfl
  | node element children next _ inductionHypothesis =>
    obtain ⟨isApart, areApart⟩ := List.forall_mem_cons.mp apart
    obtain ⟨notFirst, notRest⟩ := not_or.mp (fun listed => isApart (List.mem_cons.mpr listed))
    have isNext := inductionHypothesis areApart
    rw [Forest.rewrite, if_neg notFirst, if_neg notRest]
    simp only [Forest.tails, Forest.nodes, List.flatMap_cons] at isNext ⊢
    rw [isNext]

/-- Where none of the items is a node of the paragraph, its nodes stay. -/
theorem ownFrom_rewrite_of_absent (absent : ∀ node ∈ ownFrom ancestors forest, node.element ∉ first :: rest) :
    (ownFrom ancestors (Forest.rewrite first rest content forest)).map Node.bare = (ownFrom ancestors forest).map Node.bare := by
  induction forest generalizing ancestors with
  | nil => rfl
  | node element children next childrenHypothesis nextHypothesis =>
    rw [ownFrom, List.forall_mem_cons, List.forall_mem_append] at absent
    obtain ⟨isApart, below, later⟩ := absent
    obtain ⟨notFirst, notRest⟩ := not_or.mp (fun listed => isApart (List.mem_cons.mpr listed))
    rw [Forest.rewrite, if_neg notFirst, if_neg notRest, ownFrom, ownFrom, List.map_cons, List.map_cons, List.map_append, List.map_append,
      nextHypothesis later]
    refine congrArg₂ List.cons rfl (congrArg (· ++ _) ?_)
    split
    next => rfl
    next notParagraph =>
      rw [if_neg notParagraph] at below
      exact childrenHypothesis below

/-- The items of a stretch give place to the new content, and nothing else that is read changes. -/
theorem eventsFrom_rewrite (areItems : ∀ node ∈ ownFrom ancestors forest, node.element ∈ first :: rest → node.isInlineItem = true)
    (sits : ∀ node ∈ ownFrom ancestors forest, node.isInlineItem = true → node.SitsInRun)
    (accepted : .refusal ∉ eventsFrom childTag ancestors forest) :
    eventsFrom childTag ancestors (Forest.rewrite first rest (inlineElements value) forest) =
      (eventsFrom childTag ancestors forest).flatMap (rewritingOfItems first rest value).onEvent := by
  induction forest generalizing ancestors with
  | nil => rfl
  | node element children next childrenHypothesis nextHypothesis =>
    rw [eventsFrom_node, List.mem_append, List.mem_append, not_or, not_or] at accepted
    obtain ⟨-, acceptedBelow, acceptedRest⟩ := accepted
    rw [ownFrom, List.forall_mem_cons, List.forall_mem_append] at areItems sits
    obtain ⟨isItem, itemsBelow, itemsRest⟩ := areItems
    obtain ⟨sitsHere, sitsBelow, sitsRest⟩ := sits
    have isNext := nextHypothesis itemsRest sitsRest acceptedRest
    rw [Forest.rewrite, eventsFrom_node, List.flatMap_append, List.flatMap_append, ← isNext]
    by_cases listed : element ∈ first :: rest
    · -- the item goes, and inside it is nothing to read
      have itemHere := isItem listed
      obtain ⟨isParent, -⟩ := sitsHere itemHere
      have inRun : .r ∈ ancestors := by
        cases ancestors with
        | nil => cases isParent
        | cons tag ancestors => exact isParent ▸ List.mem_cons_self
      have noneInside : (if element.tag = .p then [] else eventsFrom childTag (element.tag :: ancestors) children) = [] := by
        split
        next => rfl
        next notParagraph =>
          rw [if_neg notParagraph] at sitsBelow acceptedBelow
          have noRun : element.tag.holdsNoRun = true := by
            rw [Tag.holdsNoRun, Node.isInline_of_isInlineItem itemHere]
            rfl
          exact nothing_inside inRun noRun sitsBelow acceptedBelow
      rw [noneInside, event?_item itemHere, Option.toList_some, List.flatMap_singleton, List.flatMap_nil, List.nil_append]
      by_cases isFirst : element = first
      · rw [if_pos isFirst, eventsFrom_append, eventsFrom_content isParent]
        simp [Rewriting.onEvent, rewritingOfItems, Node.bare, isFirst]
      · have isRest := (List.mem_cons.mp listed).resolve_left isFirst
        rw [if_neg isFirst, if_pos isRest]
        simp [Rewriting.onEvent, rewritingOfItems, Node.bare, isFirst, isRest]
    · obtain ⟨notFirst, notRest⟩ := not_or.mp (fun isListed => listed (List.mem_cons.mpr isListed))
      have sameText : element.tag.isField = true → (Forest.rewrite first rest (inlineElements value) children).tails = children.tails := by
        -- what is directly in field markup is in no run
        intro isField
        refine tails_rewrite fun child isChild isListed => ?_
        have notParagraph : element.tag ≠ .p := by
          rintro isParagraph
          rw [isParagraph] at isField
          cases isField
        rw [if_neg notParagraph] at itemsBelow sitsBelow
        have isOwn : ⟨element.tag :: ancestors, child.1, child.2⟩ ∈ ownFrom (element.tag :: ancestors) children := mem_ownFrom_of_nodes isChild
        obtain ⟨isParent, -⟩ := sitsBelow _ isOwn (itemsBelow _ isOwn isListed)
        have isRun : element.tag = .r := isParent
        rw [isRun] at isField
        cases isField
      have isKept : (Node.event? childTag ⟨ancestors, element, children⟩).toList.flatMap (rewritingOfItems first rest value).onEvent =
          (Node.event? childTag ⟨ancestors, element, children⟩).toList := by
        simp only [Node.event?]
        split
        next =>
          split
          next => rfl
          next => rfl
        next =>
          split
          next => simp [Rewriting.onEvent, rewritingOfItems, Node.bare, notFirst, notRest]
          next => rfl
      rw [if_neg notFirst, if_neg notRest, eventsFrom_node, event?_congr sameText, isKept]
      refine congrArg (_ ++ ·) (congrArg (· ++ _) ?_)
      by_cases isParagraph : element.tag = .p
      · rw [if_pos isParagraph, if_pos isParagraph]
        rfl
      · rw [if_neg isParagraph] at itemsBelow sitsBelow acceptedBelow
        rw [if_neg isParagraph, if_neg isParagraph]
        exact childrenHypothesis itemsBelow sitsBelow acceptedBelow

end

end Oveo.Docx
