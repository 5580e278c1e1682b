import Oveo.Docx.Rewritten

/-! # An inserted run, read again

A run is inserted beside a link of the paragraph, or beside a field character, whose run is split where it
shares it.  The line of the paragraph gets the new items there and nothing else. -/

namespace Oveo.Docx

open Oveo.Lib

def insertion (anchor : Element) (before : Bool) (value : Str) : Rewriting where
  item node := [node]
  before element := if element = anchor ∧ before = true then contentNodes [.r] value else []
  behind element := if element = anchor ∧ before = false then contentNodes [.r] value else []

/-! ## Away from the anchor -/

section

variable {isHyperlinkInstruction : Str → Bool} {childTag : Tag} {ancestors : List Tag} {forest children next : Forest} {anchor : Element}
  {before : Bool} {content : Forest} {value : Str} {event : Event} {line : List Event} {child : Element × Forest}

theorem insertBeside_of_absent (absent : anchor ∉ forest.elements) : Forest.insertBeside anchor before content forest = forest := by
  induction forest with
  | nil => rfl
  | node element children next childrenHypothesis nextHypothesis =>
    rw [Forest.elements, List.mem_cons, List.mem_append, not_or, not_or] at absent
    obtain ⟨other, notInside, notLater⟩ := absent
    rw [Forest.insertBeside, childrenHypothesis notInside, nextHypothesis notLater, if_neg (Ne.symm other)]

theorem breakAt_of_absent (absent : anchor ∉ forest.elements) : forest.breakAt anchor = none := by
  induction forest with
  | nil => rfl
  | node element children next _ inductionHypothesis =>
    rw [Forest.elements, List.mem_cons, List.mem_append, not_or, not_or] at absent
    rw [Forest.breakAt, if_neg (Ne.symm absent.1), inductionHypothesis absent.2.2]
    rfl

theorem insertAtField_of_absent (absent : anchor ∉ forest.elements) : Forest.insertAtField anchor before content forest = forest := by
  induction forest with
  | nil => rfl
  | node element children next childrenHypothesis nextHypothesis =>
    rw [Forest.elements, List.mem_cons, List.mem_append, not_or, not_or] at absent
    obtain ⟨-, notInside, notLater⟩ := absent
    rw [Forest.insertAtField, breakAt_of_absent notInside, ite_self]
    simp only
    rw [childrenHypothesis notInside, nextHypothesis notLater]

theorem insertAtField_append {first : Forest} (absent : anchor ∉ first.elements) :
    Forest.insertAtField anchor before content (first.append forest) = first.append (Forest.insertAtField anchor before content forest) := by
  induction first with
  | nil => rfl
  | node element children next _ inductionHypothesis =>
    rw [Forest.elements, List.mem_cons, List.mem_append, not_or, not_or] at absent
    obtain ⟨-, notInside, notLater⟩ := absent
    rw [Forest.append, Forest.insertAtField, breakAt_of_absent notInside, ite_self]
    simp only
    rw [insertAtField_of_absent notInside, inductionHypothesis notLater]
    rfl

theorem breakAt_append_node {preceding inside : Forest} (absent : anchor ∉ preceding.elements) :
    (preceding.append (.node anchor inside next)).breakAt anchor = some (preceding, .node anchor inside next) := by
  induction preceding with
  | nil => rw [Forest.append, Forest.breakAt, if_pos rfl]
  | node element children next _ inductionHypothesis =>
    rw [Forest.elements, List.mem_cons, List.mem_append, not_or, not_or] at absent
    rw [Forest.append, Forest.breakAt, if_neg (Ne.symm absent.1), inductionHypothesis absent.2.2]
    rfl

/-- Places of a line are elements of the tree, in order. -/
theorem places_eventsFrom (childTag : Tag) (ancestors : List Tag) (forest : Forest) :
    ((eventsFrom childTag ancestors forest).filterMap Event.place?).Sublist forest.elements := by
  refine List.Sublist.trans ?_ (elements_ownFrom ancestors forest)
  rw [eventsFrom, List.filterMap_filterMap]
  induction ownFrom ancestors forest with
  | nil => exact List.Sublist.refl _
  | cons node nodes inductionHypothesis =>
    have isPlace : (node.event? childTag).bind Event.place? = none ∨ (node.event? childTag).bind Event.place? = some node.element := by
      rw [Node.event?]
      split_ifs <;> simp [Event.place?]
    rw [List.filterMap_cons, List.map_cons]
    rcases isPlace with isNone | isSome
    · rw [isNone]
      exact inductionHypothesis.cons node.element
    · rw [isSome]
      exact inductionHypothesis.cons_cons node.element

theorem places_childEvents (child : Element × Forest) :
    ((childEvents isHyperlinkInstruction child).filterMap Event.place?).Sublist (child.1 :: child.2.elements) := by
  simp only [childEvents]
  split
  next => exact List.nil_sublist _
  next =>
    split
    next =>
      split
      next => exact List.nil_sublist _
      next => exact List.Sublist.cons_cons _ (List.nil_sublist _)
    next =>
      have places := places_eventsFrom child.1.tag [] (.node child.1 child.2 .nil)
      rwa [Forest.elements, Forest.elements, List.append_nil] at places

theorem places_events (children : Forest) : ((events isHyperlinkInstruction children).filterMap Event.place?).Sublist children.elements := by
  induction children with
  | nil => exact List.Sublist.refl _
  | node element children next _ inductionHypothesis =>
    rw [events, Forest.nodes, List.flatMap_cons, List.filterMap_append, Forest.elements, ← List.cons_append]
    exact (places_childEvents (element, children)).append inductionHypothesis

/-- Away from the anchor, nothing is inserted. -/
theorem flatMap_insertion (absent : anchor ∉ line.filterMap Event.place?) : line.flatMap (insertion anchor before value).onEvent = line := by
  have untouched : ∀ event ∈ line, (insertion anchor before value).onEvent event = [event] := by
    intro event listed
    have other {element : Element} (isPlace : event.place? = some element) : element ≠ anchor := by
      rintro rfl
      exact absent (List.mem_filterMap.mpr ⟨event, listed, isPlace⟩)
    cases event with
    | item node => rfl
    | mark element code =>
      have other := other rfl
      simp [Rewriting.onEvent, insertion, other]
    | link element items =>
      have other := other rfl
      simp [Rewriting.onEvent, insertion, other]
    | refusal => rfl
  rw [List.flatMap_congr untouched, List.flatMap_singleton']

theorem isRead_eventsFrom (listed : event ∈ eventsFrom childTag ancestors forest) : event.IsRead := by
  obtain ⟨node, -, isEvent⟩ := List.mem_filterMap.mp listed
  rw [Node.event?] at isEvent
  split at isEvent
  next isField =>
    split at isEvent
    next =>
      cases isEvent
      trivial
    next accepted =>
      cases isEvent
      simp only [Bool.or_eq_true, decide_eq_true_eq, not_or] at accepted
      simp only [Tag.isField, Bool.or_eq_true, beq_iff_eq] at isField
      rcases isField with (isCharacter | isCode) | isSimple
      · exact .inl isCharacter
      · exact .inr isCode
      · exact absurd isSimple accepted.1.1
  next =>
    split at isEvent
    next =>
      cases isEvent
      trivial
    next => cases isEvent

theorem isRead_childEvents (listed : event ∈ childEvents isHyperlinkInstruction child) : event.IsRead := by
  simp only [childEvents] at listed
  split at listed
  next => cases listed
  next =>
    split at listed
    next isLink =>
      split at listed
      next =>
        cases List.mem_singleton.mp listed
        trivial
      next =>
        cases List.mem_singleton.mp listed
        exact isLink
    next => exact isRead_eventsFrom listed

theorem isRead_events (listed : event ∈ events isHyperlinkInstruction children) : event.IsRead := by
  obtain ⟨child, -, isEvent⟩ := List.mem_flatMap.mp listed
  exact isRead_childEvents isEvent

/-! ## Beside a link -/

/-- A run with new content is read as its items. -/
theorem childEvents_run {run : Element} (isRun : run.tag = .r) (content : Forest) :
    childEvents isHyperlinkInstruction (run, content) = eventsFrom .r [.r] content := by
  have notEvent : Node.event? .r ⟨[], run, content⟩ = none := by
    simp [Node.event?, Node.isInlineItem, Element.isInlineItem, isRun, Tag.isField, inlineCharacter?]
  simp only [childEvents, isRun]
  rw [eventsFrom_node, isRun, notEvent]
  simp [eventsFrom, ownFrom]

theorem childEvents_newRun (value : Str) :
    childEvents isHyperlinkInstruction (newElement .r, inlineElements value) = (contentNodes [.r] value).map .item := by
  rw [childEvents_run rfl, eventsFrom_content rfl]

theorem events_node {element : Element} : events isHyperlinkInstruction (.node element children next) =
    childEvents isHyperlinkInstruction (element, children) ++ events isHyperlinkInstruction next := List.flatMap_cons

theorem events_append (first second : Forest) :
    events isHyperlinkInstruction (first.append second) = events isHyperlinkInstruction first ++ events isHyperlinkInstruction second := by
  rw [events, Forest.nodes_append, List.flatMap_append]
  rfl

theorem events_insertBeside (isLink : anchor.tag = .hyperlink ∨ anchor.tag = .fldSimple)
    (accepted : .refusal ∉ events isHyperlinkInstruction forest) (onTop : ∀ child ∈ forest.nodes, anchor ∉ child.2.elements) :
    events isHyperlinkInstruction (Forest.insertBeside anchor before (inlineElements value) forest) =
      (events isHyperlinkInstruction forest).flatMap (insertion anchor before value).onEvent := by
  induction forest with
  | nil => rfl
  | node element children next _ inductionHypothesis =>
    obtain ⟨notInside, onTop⟩ := List.forall_mem_cons.mp onTop
    rw [events_node, List.mem_append, not_or] at accepted
    have isNext := inductionHypothesis accepted.2 onTop
    rw [Forest.insertBeside, insertBeside_of_absent notInside, events_node, List.flatMap_append, ← isNext]
    by_cases isAnchor : element = anchor
    · subst isAnchor
      -- the anchor is read as one link
      obtain ⟨items, isEvent⟩ : ∃ items, childEvents isHyperlinkInstruction (element, children) = [.link element items] := by
        have acceptedHere := accepted.1
        simp only [childEvents] at acceptedHere ⊢
        have notProperties : element.tag ≠ .pPr := by
          rcases isLink with isLink | isLink <;> rw [isLink] <;> decide
        rw [if_neg notProperties, if_pos isLink] at acceptedHere ⊢
        split at acceptedHere
        next => exact absurd (List.mem_singleton_self _) acceptedHere
        next notRefused => exact ⟨_, if_neg notRefused⟩
      cases before with
      | true =>
        simp only [if_true]
        rw [events_node, events_node, childEvents_newRun, isEvent]
        simp [Rewriting.onEvent, insertion]
      | false =>
        simp only [if_true, Bool.false_eq_true, if_false]
        rw [events_node, events_node, childEvents_newRun, isEvent]
        simp [Rewriting.onEvent, insertion]
    · have absent : anchor ∉ (childEvents isHyperlinkInstruction (element, children)).filterMap Event.place? := by
        intro isPlace
        rcases List.mem_cons.mp ((places_childEvents _).subset isPlace) with same | inside
        · exact isAnchor same.symm
        · exact notInside inside
      simp only [if_neg isAnchor]
      rw [events_node, flatMap_insertion absent]

/-! ## Beside a field character -/

theorem eventsFrom_copy (nothing : eventsFrom childTag ancestors forest = []) : eventsFrom childTag ancestors forest.copy = [] := by
  induction forest generalizing ancestors with
  | nil => rfl
  | node element children next childrenHypothesis nextHypothesis =>
    rw [eventsFrom_node, List.append_eq_nil_iff, List.append_eq_nil_iff] at nothing
    obtain ⟨noEvent, noneInside, noneLater⟩ := nothing
    rw [Forest.copy, eventsFrom_node, nextHypothesis noneLater, List.append_nil, List.append_eq_nil_iff]
    constructor
    · rw [Option.toList_eq_nil_iff] at noEvent ⊢
      simp only [Node.event?] at noEvent ⊢
      split at noEvent
      next => split at noEvent <;> cases noEvent
      next notField =>
        split at noEvent
        next => cases noEvent
        next notItem =>
          have sameItem : Node.isInlineItem ⟨ancestors, { element with identity := .made }, children.copy⟩ =
              Node.isInlineItem ⟨ancestors, element, children⟩ := rfl
          rw [if_neg notField, sameItem, if_neg notItem]
    · by_cases isParagraph : element.tag = .p
      · rw [if_pos isParagraph]
      · rw [if_neg isParagraph] at noneInside ⊢
        exact childrenHypothesis noneInside

/-- A node with the properties of a run is not read itself. -/
theorem event?_properties {element : Element} (isProperties : element.tag = .rPr) :
    Node.event? childTag ⟨ancestors, element, children⟩ = none := by
  simp [Node.event?, Node.isInlineItem, Element.isInlineItem, isProperties, Tag.isField, inlineCharacter?]

theorem eventsFrom_properties {run : List Tag} (inRun : .r ∈ run) (sits : ∀ node ∈ ownFrom run forest, node.isInlineItem = true → node.SitsInRun)
    (accepted : .refusal ∉ eventsFrom childTag run forest) :
    ∀ child ∈ forest.nodes, child.1.tag = .rPr → eventsFrom childTag (.rPr :: run) child.2 = [] := by
  induction forest with
  | nil => exact List.forall_mem_nil _
  | node element children next _ inductionHypothesis =>
    rw [ownFrom, List.forall_mem_cons, List.forall_mem_append] at sits
    rw [eventsFrom_node, List.mem_append, List.mem_append, not_or, not_or] at accepted
    rw [Forest.nodes, List.forall_mem_cons]
    refine ⟨fun isProperties => ?_, inductionHypothesis sits.2.2 accepted.2.2⟩
    have isTag : element.tag = .rPr := isProperties
    rw [isTag] at sits accepted
    exact nothing_inside inRun rfl sits.2.1 accepted.2.1

/-- The copied properties of a run are not read. -/
theorem eventsFrom_copiedProperties {run : List Tag}
    (nothing : ∀ child ∈ forest.nodes, child.1.tag = .rPr → eventsFrom childTag (.rPr :: run) child.2 = []) :
    eventsFrom childTag run forest.copiedProperties = [] := by
  induction forest with
  | nil => rfl
  | node element children next _ inductionHypothesis =>
    rw [Forest.nodes, List.forall_mem_cons] at nothing
    rw [Forest.copiedProperties]
    split
    next isProperties =>
      have isCopy : ({ element with identity := .made } : Element).tag = .rPr := isProperties
      rw [eventsFrom_node, event?_properties isCopy, isCopy, eventsFrom_copy (nothing.1 isProperties)]
      rfl
    next => exact inductionHypothesis nothing.2

/-- Properties alone are not read. -/
theorem eventsFrom_allProperties {run : List Tag} (areProperties : (forest.nodes.all fun child => child.1.tag == .rPr) = true)
    (nothing : ∀ child ∈ forest.nodes, child.1.tag = .rPr → eventsFrom childTag (.rPr :: run) child.2 = []) :
    eventsFrom childTag run forest = [] := by
  induction forest with
  | nil => rfl
  | node element children next _ inductionHypothesis =>
    rw [Forest.nodes, List.forall_mem_cons] at nothing
    rw [Forest.nodes, List.all_cons, Bool.and_eq_true, beq_iff_eq] at areProperties
    obtain ⟨isProperties, areProperties⟩ := areProperties
    have isTag : element.tag = .rPr := isProperties
    rw [eventsFrom_node, event?_properties isTag, inductionHypothesis areProperties nothing.2, isTag, nothing.1 isTag]
    rfl

/-- How a field character of the paragraph's own runs stands in the tree: nowhere else. -/
structure StandsIn (anchor : Element) (front : Forest) (run : Element) (preceding inField moving next : Forest) : Prop where
  isRun : run.tag = .r
  isField : anchor.tag = .fldChar
  inFront : anchor ∉ front.elements
  before : anchor ∉ preceding.elements
  after : anchor ∉ moving.elements
  behind : anchor ∉ next.elements

variable {front preceding inField moving : Forest} {run : Element}

theorem event?_field (isField : anchor.tag = .fldChar) (inField : Forest) :
    Node.event? .r ⟨[.r], anchor, inField⟩ = some (.mark anchor (anchor.text ++ inField.tails)) := by
  simp [Node.event?, isField, Tag.isField, Node.instructionText, Forest.tails]

theorem nothing_in_field (isField : anchor.tag = .fldChar)
    (sits : ∀ node ∈ ownFrom [.r] (preceding.append (.node anchor inField moving)), node.isInlineItem = true → node.SitsInRun)
    (accepted : .refusal ∉ eventsFrom .r [.r] (preceding.append (.node anchor inField moving))) :
    (if anchor.tag = .p then [] else eventsFrom .r [anchor.tag, .r] inField) = [] := by
  have notParagraph : anchor.tag ≠ .p := by rw [isField]; decide
  rw [ownFrom_append, List.forall_mem_append, ownFrom, if_neg notParagraph, List.forall_mem_cons, List.forall_mem_append] at sits
  rw [eventsFrom_append, eventsFrom_node, if_neg notParagraph, List.mem_append, List.mem_append, List.mem_append, not_or, not_or, not_or] at accepted
  rw [if_neg notParagraph]
  exact nothing_inside List.mem_cons_self (by rw [isField]; rfl) sits.2.2.1 accepted.2.2.1

theorem events_insertAtField_of_stands (stands : StandsIn anchor front run preceding inField moving next)
    (sits : ∀ node ∈ ownFrom [.r] (preceding.append (.node anchor inField moving)), node.isInlineItem = true → node.SitsInRun)
    (accepted : .refusal ∉ eventsFrom .r [.r] (preceding.append (.node anchor inField moving))) :
    events isHyperlinkInstruction (Forest.insertAtField anchor before (inlineElements value)
        (front.append (.node run (preceding.append (.node anchor inField moving)) next))) =
      (events isHyperlinkInstruction (front.append (.node run (preceding.append (.node anchor inField moving)) next))).flatMap
        (insertion anchor before value).onEvent := by
  obtain ⟨isRun, isField, inFront, notBefore, notAfter, notBehind⟩ := stands
  have absentFrom {forest : Forest} (absent : anchor ∉ forest.elements) :
      (events isHyperlinkInstruction forest).flatMap (insertion anchor before value).onEvent = events isHyperlinkInstruction forest :=
    flatMap_insertion fun isPlace => absent ((places_events forest).subset isPlace)
  have absentIn {forest : Forest} (absent : anchor ∉ forest.elements) :
      (eventsFrom .r [.r] forest).flatMap (insertion anchor before value).onEvent = eventsFrom .r [.r] forest :=
    flatMap_insertion fun isPlace => absent ((places_eventsFrom .r [.r] forest).subset isPlace)
  -- neither half of the run reads its properties
  have noProperties := eventsFrom_properties List.mem_cons_self sits accepted
  have noCopies : eventsFrom .r [.r] (preceding.append (.node anchor inField moving)).copiedProperties = [] :=
    eventsFrom_copiedProperties noProperties
  have isMark := event?_field isField inField
  have noneInside := nothing_in_field isField sits accepted
  -- a run is read up to its field character, then the character, then the rest
  have isLine : eventsFrom .r [.r] (preceding.append (.node anchor inField moving)) =
      eventsFrom .r [.r] preceding ++ .mark anchor (anchor.text ++ inField.tails) :: eventsFrom .r [.r] moving := by
    rw [eventsFrom_append, eventsFrom_node, isMark, noneInside]
    rfl
  have isRemainder {other : Element} {half : Forest} (isRun : other.tag = .r) : childEvents isHyperlinkInstruction
      (other, (preceding.append (.node anchor inField moving)).copiedProperties.append half) = eventsFrom .r [.r] half := by
    rw [childEvents_run isRun, eventsFrom_append, noCopies, List.nil_append]
  rw [insertAtField_append inFront, events_append, events_append, List.flatMap_append, absentFrom inFront, Forest.insertAtField, if_pos isRun,
    breakAt_append_node notBefore, events_node, childEvents_run isRun, isLine, List.flatMap_append, List.flatMap_append, List.flatMap_cons,
    absentIn notBefore, absentIn notAfter, absentFrom notBehind]
  refine congrArg (_ ++ ·) ?_
  cases before with
  | true =>
    simp only [if_true]
    split
    next areProperties =>
      -- the run starts with the character: the new run stands before it
      have noneBefore : eventsFrom .r [.r] preceding = [] := by
        refine eventsFrom_allProperties areProperties fun child isChild isProperties => noProperties child ?_ isProperties
        rw [Forest.nodes_append]
        exact List.mem_append_left _ isChild
      rw [events_node, events_node, childEvents_newRun, childEvents_run isRun, isLine, noneBefore]
      simp [Rewriting.onEvent, insertion]
    next =>
      rw [Forest.remainder, events_node, events_node, events_node, childEvents_run isRun, childEvents_newRun, isRemainder rfl, eventsFrom_node,
        isMark, noneInside]
      simp [Rewriting.onEvent, insertion]
  | false =>
    simp only [Bool.false_eq_true, if_false]
    split
    next impossible => cases impossible
    next same =>
      -- the run ends with the character: the new run stands behind it
      cases same
      rw [events_node, events_node, childEvents_newRun, childEvents_run isRun, isLine]
      simp [Rewriting.onEvent, insertion, eventsFrom, ownFrom]
    next same =>
      cases same
      rw [Forest.remainder, events_node, events_node, events_node, childEvents_run isRun, childEvents_newRun, isRemainder rfl, eventsFrom_append,
        eventsFrom_node, isMark, noneInside]
      simp [Rewriting.onEvent, insertion, eventsFrom, ownFrom]

end

end Oveo.Docx
