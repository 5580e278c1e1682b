import Oveo.Docx.Changes
import Oveo.Docx.Inserted

/-! # The edits of a paragraph, read again

A paragraph in the course of its edits: its items sit in runs, and each element of the template stands in one
place.  So every edit rewrites the line of the paragraph where the edit is placed, and leaves such a paragraph. -/

namespace Oveo.Docx

open Oveo.Lib

/-- A paragraph that can be edited at the places its line names. -/
structure Editable (isHyperlinkInstruction : Str → Bool) (forest : Forest) : Prop where
  distinct : (forest.elements.filter fun element => element.identity.isOwn).Nodup
  sits : ∀ node ∈ ownNodes forest, node.isInlineItem = true → node.SitsInRun
  accepted : .refusal ∉ events isHyperlinkInstruction forest

/-- The rewriting of an edit. -/
def Edit.rewriting : Edit → Rewriting
  | .rewrite first rest value => rewritingOfItems first.element (rest.map Node.element) value
  | .insertRun anchor before value => insertion anchor before value

/-- Where an edit finds what it names. -/
inductive Edit.Placed (line : List Event) : Edit → Prop
  | rewrite {first rest value} (areOwn : ∀ element ∈ first.element :: rest.map Node.element, element.identity.isOwn = true)
      (areItems : ∀ element ∈ first.element :: rest.map Node.element, ∃ node ∈ line.flatMap Event.items, node.element = element) :
      Placed line (.rewrite first rest value)
  | besideLink {anchor before value items} (own : anchor.identity.isOwn = true) (listed : .link anchor items ∈ line) :
      Placed line (.insertRun anchor before value)
  | besideField {anchor before value code} (own : anchor.identity.isOwn = true) (isField : anchor.tag = .fldChar)
      (listed : .mark anchor code ∈ line) : Placed line (.insertRun anchor before value)

/-! ## One place for each element -/

section

variable {isHyperlinkInstruction : Str → Bool} {changed : List Element} {forest next : Forest} {element : Element} {node other : Node}
  {child : Element × Forest} {event : Event}

theorem elements_copy_not_own (forest : Forest) : forest.copy.elements.filter (fun element => element.identity.isOwn) = [] := by
  induction forest with
  | nil => rfl
  | node element children next childrenHypothesis nextHypothesis =>
    rw [Forest.copy, Forest.elements, List.filter_cons_of_neg (by exact Bool.false_ne_true), List.filter_append, childrenHypothesis, nextHypothesis]
    rfl

theorem elements_copiedProperties_not_own (forest : Forest) :
    forest.copiedProperties.elements.filter (fun element => element.identity.isOwn) = [] := by
  induction forest with
  | nil => rfl
  | node element children next _ inductionHypothesis =>
    rw [Forest.copiedProperties]
    split
    next =>
      rw [Forest.elements, List.filter_cons_of_neg (by exact Bool.false_ne_true), List.filter_append, elements_copy_not_own]
      rfl
    next => exact inductionHypothesis

theorem elements_content_not_own {content : Forest} (isContent : IsContent content) :
    content.elements.filter (fun element => element.identity.isOwn) = [] := by
  induction isContent with
  | nil => rfl
  | @node element next isNew _ _ inductionHypothesis =>
    have notOwn : ¬ element.identity.isOwn = true := by
      rw [isNew]
      exact Bool.false_ne_true
    rw [Forest.elements, List.filter_cons_of_neg (by exact notOwn)]
    exact inductionHypothesis

/-- A change gives no element of the template a second place. -/
theorem Change.own_sublist (change : Change changed forest next) : (next.elements.filter fun element => element.identity.isOwn).Sublist
    (forest.elements.filter fun element => element.identity.isOwn) := by
  induction change with
  | @replace item children content next isChanged isContent =>
    rw [Forest.elements_append, List.filter_append, elements_content_not_own isContent, List.nil_append, Forest.elements]
    exact ((List.sublist_append_right _ _).cons item).filter _
  | @addRun content next isContent =>
    rw [Forest.elements, List.filter_cons_of_neg (by exact Bool.false_ne_true), List.filter_append, elements_content_not_own isContent]
    exact List.Sublist.refl _
  | @splitRun run preceding following next isRun =>
    have notOwn : ¬ (Forest.remainderIdentity run.identity).isOwn = true := by
      rw [isOwn_remainderIdentity]
      exact Bool.false_ne_true
    have sameElements : ((Forest.remainder run (preceding.append following) following next).elements.filter fun element => element.identity.isOwn) =
        (following.elements ++ next.elements).filter fun element => element.identity.isOwn := by
      rw [Forest.remainder, Forest.elements, List.filter_cons_of_neg (by exact notOwn), Forest.elements_append, List.filter_append, List.filter_append,
        elements_copiedProperties_not_own, List.nil_append, List.filter_append]
    rw [Forest.elements, Forest.elements, Forest.elements_append, List.filter_cons, List.filter_cons, List.filter_append, sameElements,
      ← List.filter_append, ← List.append_assoc]
  | inside _ inductionHypothesis =>
    rw [Forest.elements, Forest.elements, List.filter_cons, List.filter_cons, List.filter_append, List.filter_append]
    split
    next => exact (inductionHypothesis.append_right _).cons_cons _
    next => exact inductionHypothesis.append_right _
  | behind _ inductionHypothesis =>
    rw [Forest.elements, Forest.elements, List.filter_cons, List.filter_cons, List.filter_append, List.filter_append]
    split
    next => exact (inductionHypothesis.append_left _).cons_cons _
    next => exact inductionHypothesis.append_left _

theorem Changes.own_sublist (changes : Changes changed forest next) : (next.elements.filter fun element => element.identity.isOwn).Sublist
    (forest.elements.filter fun element => element.identity.isOwn) := by
  induction changes with
  | refl => exact List.Sublist.refl _
  | tail _ change inductionHypothesis => exact change.own_sublist.trans inductionHypothesis

/-- An element of the template is the element of one node of the paragraph. -/
theorem Editable.node_once (editable : Editable isHyperlinkInstruction forest) (own : node.element.identity.isOwn = true)
    (isNode : node ∈ ownNodes forest) (isOther : other ∈ ownNodes forest) (same : node.element = other.element) : node = other := by
  have distinct := ((elements_ownFrom [] forest).filter fun element => element.identity.isOwn).nodup editable.distinct
  have ownOther : other.element.identity.isOwn = true := same ▸ own
  rw [List.filter_map] at distinct
  exact List.inj_on_of_nodup_map distinct (List.mem_filter.mpr ⟨isNode, own⟩) (List.mem_filter.mpr ⟨isOther, ownOther⟩) same

/-- It is not behind or below another place of it. -/
theorem absent_of_distinct {first second : List Element} (own : element.identity.isOwn = true)
    (distinct : ((first ++ element :: second).filter fun element => element.identity.isOwn).Nodup) : element ∉ first ∧ element ∉ second := by
  rw [List.filter_append, List.filter_cons_of_pos (by exact own)] at distinct
  obtain ⟨-, behind, apart⟩ := List.nodup_append.mp distinct
  exact ⟨fun listed => apart element (List.mem_filter.mpr ⟨listed, own⟩) element List.mem_cons_self rfl,
    fun listed => (List.nodup_cons.mp behind).1 (List.mem_filter.mpr ⟨listed, own⟩)⟩

/-! ## Items of the line -/

theorem refusal_of_child (accepted : .refusal ∉ events isHyperlinkInstruction forest) (isChild : child ∈ forest.nodes) :
    .refusal ∉ childEvents isHyperlinkInstruction child := fun refused => accepted (List.mem_flatMap.mpr ⟨child, isChild, refused⟩)

/-- The properties of a paragraph hold no item. -/
theorem Editable.noneInProperties (editable : Editable isHyperlinkInstruction forest) (isChild : child ∈ forest.nodes)
    (isProperties : child.1.tag = .pPr) : ∀ node ∈ ownOf child, node.isInlineItem = false := by
  intro node listed
  by_contra isItem
  rw [Bool.not_eq_false] at isItem
  obtain ⟨-, outside⟩ := editable.sits node (mem_ownNodes_of_child isChild listed) isItem
  rw [ownOf, ownFrom, List.mem_cons] at listed
  rcases listed with rfl | below
  · simp [Node.isInlineItem, Element.isInlineItem, isProperties, inlineCharacter?] at isItem
  · rw [ownFrom, List.append_nil, isProperties, if_neg (by decide)] at below
    exact Bool.false_ne_true (outside .pPr ((ancestors_suffix below).subset List.mem_cons_self)).symm

theorem items_events (accepted : .refusal ∉ events isHyperlinkInstruction forest) :
    (events isHyperlinkInstruction forest).flatMap Event.items = (forest.nodes.flatMap shownItems).map Node.bare := by
  rw [events, List.flatMap_assoc, List.map_flatMap]
  exact List.flatMap_congr fun child isChild => items_childEvents (refusal_of_child accepted isChild)

/-- The items of the line are those of the paragraph. -/
theorem Editable.items (editable : Editable isHyperlinkInstruction forest) :
    (events isHyperlinkInstruction forest).flatMap Event.items = ((ownNodes forest).filter Node.isInlineItem).map Node.bare := by
  rw [items_events editable.accepted, ownNodes_eq_flatMap, List.filter_flatMap]
  refine congrArg (List.map Node.bare) (List.flatMap_congr fun child isChild => ?_)
  rw [shownItems]
  split
  next isProperties =>
    exact (List.filter_eq_nil_iff.mpr fun node listed => by simp [editable.noneInProperties isChild isProperties node listed]).symm
  next => rfl

/-- Items sit in runs where those of the line do. -/
theorem sits_of_line (accepted : .refusal ∉ events isHyperlinkInstruction forest)
    (noneInProperties : ∀ child ∈ forest.nodes, child.1.tag = .pPr → ∀ node ∈ ownOf child, node.isInlineItem = false)
    (sits : ∀ node ∈ (events isHyperlinkInstruction forest).flatMap Event.items, node.SitsInRun) :
    ∀ node ∈ ownNodes forest, node.isInlineItem = true → node.SitsInRun := by
  intro node listed isItem
  rw [ownNodes_eq_flatMap] at listed
  obtain ⟨child, isChild, listed⟩ := List.mem_flatMap.mp listed
  have notProperties : child.1.tag ≠ .pPr := by
    intro isProperties
    rw [noneInProperties child isChild isProperties node listed] at isItem
    cases isItem
  have isShown : node ∈ shownItems child := by
    rw [shownItems, if_neg notProperties]
    exact List.mem_filter.mpr ⟨listed, isItem⟩
  have isBare : node.bare.SitsInRun := by
    refine sits node.bare ?_
    rw [items_events accepted]
    exact List.mem_map_of_mem (List.mem_flatMap.mpr ⟨child, isChild, isShown⟩)
  exact isBare

theorem refusal_onEvent {rewriting : Rewriting} {line : List Event} (accepted : .refusal ∉ line) : .refusal ∉ line.flatMap rewriting.onEvent := by
  intro refused
  obtain ⟨event, listed, refused⟩ := List.mem_flatMap.mp refused
  cases event with
  | item node => simp [Rewriting.onEvent] at refused
  | mark element code => simp [Rewriting.onEvent] at refused
  | link element items => simp [Rewriting.onEvent] at refused
  | refusal => exact accepted listed

/-- What holds of all that a rewriting puts on a line holds of the items of the line. -/
theorem items_onEvent {holds : Node → Prop} {rewriting : Rewriting} {line : List Event}
    (ofItem : ∀ item ∈ line.flatMap Event.items, ∀ node ∈ rewriting.item item, holds node)
    (beside : ∀ element, ∀ node ∈ rewriting.before element ++ rewriting.behind element, holds node) :
    ∀ node ∈ (line.flatMap rewriting.onEvent).flatMap Event.items, holds node := by
  intro node listed
  rw [List.flatMap_assoc] at listed
  obtain ⟨event, isEvent, listed⟩ := List.mem_flatMap.mp listed
  have ofEvent {item : Node} (isItem : item ∈ event.items) : ∀ node ∈ rewriting.item item, holds node :=
    ofItem item (List.mem_flatMap.mpr ⟨event, isEvent, isItem⟩)
  have ofItems {made : List Node} (inMade : node ∈ (made.map Event.item).flatMap Event.items) : node ∈ made := by
    rw [List.flatMap_map] at inMade
    obtain ⟨other, isOther, same⟩ := List.mem_flatMap.mp inMade
    rwa [List.mem_singleton.mp same]
  cases event with
  | item item => exact ofEvent (List.mem_singleton_self item) node (ofItems listed)
  | mark element code =>
    rw [Rewriting.onEvent, List.flatMap_append, List.flatMap_cons, List.mem_append, List.mem_append] at listed
    rcases listed with inFront | here | after
    · exact beside element node (List.mem_append_left _ (ofItems inFront))
    · cases here
    · exact beside element node (List.mem_append_right _ (ofItems after))
  | link element items =>
    rw [Rewriting.onEvent, List.flatMap_append, List.flatMap_cons, List.mem_append, List.mem_append] at listed
    rcases listed with inFront | here | after
    · exact beside element node (List.mem_append_left _ (ofItems inFront))
    · obtain ⟨item, isItem, isMade⟩ := List.mem_flatMap.mp here
      exact ofEvent isItem node isMade
    · exact beside element node (List.mem_append_right _ (ofItems after))
  | refusal => cases listed

/-- New content stands where an item stood, or in the new run. -/
theorem sits_rewriting (edit : Edit) {line : List Event} (sits : ∀ node ∈ line.flatMap Event.items, node.SitsInRun) :
    ∀ node ∈ (line.flatMap edit.rewriting.onEvent).flatMap Event.items, node.SitsInRun := by
  have inRun : Sits [.r] := ⟨rfl, by decide⟩
  have ofContent {ancestors : List Tag} {value : Str} (isHeld : Sits ancestors) : ∀ node ∈ contentNodes ancestors value, node.SitsInRun := by
    intro node listed
    rwa [Node.SitsInRun, (mem_contentNodes listed).1]
  cases edit with
  | rewrite first rest value =>
    refine items_onEvent (fun item isItem node listed => ?_) fun _ => List.forall_mem_nil _
    simp only [Edit.rewriting, rewritingOfItems] at listed
    split_ifs at listed
    · exact ofContent (sits item isItem) node listed
    · cases listed
    · rw [List.mem_singleton.mp listed]
      exact sits item isItem
  | insertRun anchor before value =>
    refine items_onEvent (fun item isItem node listed => ?_) fun element node listed => ?_
    · rw [List.mem_singleton.mp listed]
      exact sits item isItem
    · simp only [Edit.rewriting, insertion, List.mem_append] at listed
      rcases listed with inFront | after
      · split_ifs at inFront
        · exact ofContent inRun node inFront
        · cases inFront
      · split_ifs at after
        · exact ofContent inRun node after
        · cases after

/-! ## One edit -/

variable {first : Element} {rest : List Element} {value : Str} {anchor : Element} {before : Bool} {content : Forest}

/-- No child of the paragraph is an item: it would sit in no run. -/
theorem child_not_listed (areItems : ∀ node ∈ ownNodes forest, node.element ∈ first :: rest → node.isInlineItem = true)
    (sits : ∀ node ∈ ownNodes forest, node.isInlineItem = true → node.SitsInRun) : ∀ child ∈ forest.nodes, child.1 ∉ first :: rest := by
  intro child isChild listed
  have isOwn : ⟨[], child.1, child.2⟩ ∈ ownNodes forest := mem_ownFrom_of_nodes isChild
  obtain ⟨inRun, -⟩ := sits _ isOwn (areItems _ isOwn listed)
  cases inRun

theorem nodes_rewrite (apart : ∀ child ∈ forest.nodes, child.1 ∉ first :: rest) :
    (Forest.rewrite first rest content forest).nodes = forest.nodes.map fun child => (child.1, Forest.rewrite first rest content child.2) := by
  induction forest with
  | nil => rfl
  | node element children next _ inductionHypothesis =>
    obtain ⟨isApart, areApart⟩ := List.forall_mem_cons.mp apart
    obtain ⟨notFirst, notRest⟩ := not_or.mp (fun listed => isApart (List.mem_cons.mpr listed))
    rw [Forest.rewrite, if_neg notFirst, if_neg notRest, Forest.nodes, inductionHypothesis areApart]
    rfl

theorem childEvents_rewrite (apart : child.1 ∉ first :: rest)
    (areItems : ∀ node ∈ ownOf child, node.element ∈ first :: rest → node.isInlineItem = true)
    (sits : ∀ node ∈ ownOf child, node.isInlineItem = true → node.SitsInRun)
    (accepted : .refusal ∉ childEvents isHyperlinkInstruction child) :
    childEvents isHyperlinkInstruction (child.1, Forest.rewrite first rest (inlineElements value) child.2) =
      (childEvents isHyperlinkInstruction child).flatMap (rewritingOfItems first rest value).onEvent := by
  obtain ⟨element, children⟩ := child
  obtain ⟨notFirst, notRest⟩ := not_or.mp (fun listed => apart (List.mem_cons.mpr listed))
  by_cases isProperties : element.tag = .pPr
  · simp only [childEvents, if_pos isProperties]
    rfl
  by_cases isLink : element.tag = .hyperlink ∨ element.tag = .fldSimple
  · -- a link is read by the items below it
    have notParagraph : element.tag ≠ .p := by
      rcases isLink with isLink | isLink <;> rw [isLink] <;> decide
    simp only [childEvents, if_neg isProperties, if_pos isLink] at accepted ⊢
    rw [ownOf, ownFrom, if_neg notParagraph, List.forall_mem_cons, List.forall_mem_append] at areItems sits
    by_cases refused : (eventsFrom element.tag [element.tag] children).any Event.isRefusal = true
    · rw [if_pos (by rw [refused, Bool.true_or])] at accepted
      exact absurd (List.mem_singleton_self _) accepted
    rw [Bool.not_eq_true] at refused
    have acceptedInside : .refusal ∉ eventsFrom element.tag [element.tag] children := fun listed =>
      Bool.false_ne_true (refused.symm.trans (List.any_eq_true.mpr ⟨_, listed, rfl⟩))
    have inside := @eventsFrom_rewrite element.tag [element.tag] children first rest value areItems.2.1 sits.2.1 acceptedInside
    have stillAccepted : ((eventsFrom element.tag [element.tag] children).flatMap (rewritingOfItems first rest value).onEvent).any
        Event.isRefusal = false := by
      rw [Bool.eq_false_iff]
      intro isRefused
      obtain ⟨event, listed, isRefusal⟩ := List.any_eq_true.mp isRefused
      cases event with
      | refusal => exact refusal_onEvent acceptedInside listed
      | _ => cases isRefusal
    have sameItems : ((eventsFrom element.tag [element.tag] children).flatMap (rewritingOfItems first rest value).onEvent).flatMap Event.items =
        ((eventsFrom element.tag [element.tag] children).flatMap Event.items).flatMap (rewritingOfItems first rest value).item := by
      rw [List.flatMap_assoc, List.flatMap_assoc]
      refine List.flatMap_congr fun event _ => ?_
      cases event with
      | item node => simp [Rewriting.onEvent, Event.items, List.flatMap_map]
      | mark _ _ => rfl
      | link _ _ => simp [Rewriting.onEvent, Event.items, rewritingOfItems]
      | refusal => rfl
    rw [inside, refused, stillAccepted, sameItems]
    simp only [Bool.false_or]
    split
    next => rfl
    next => rfl
  · simp only [childEvents, if_neg isProperties, if_neg isLink] at accepted ⊢
    have isRewritten := @eventsFrom_rewrite element.tag [] (.node element children .nil) first rest value areItems sits accepted
    rw [Forest.rewrite, if_neg notFirst, if_neg notRest] at isRewritten
    exact isRewritten

/-- The line of a rewritten paragraph. -/
theorem events_rewrite (areItems : ∀ node ∈ ownNodes forest, node.element ∈ first :: rest → node.isInlineItem = true)
    (sits : ∀ node ∈ ownNodes forest, node.isInlineItem = true → node.SitsInRun) (accepted : .refusal ∉ events isHyperlinkInstruction forest) :
    events isHyperlinkInstruction (Forest.rewrite first rest (inlineElements value) forest) =
      (events isHyperlinkInstruction forest).flatMap (rewritingOfItems first rest value).onEvent := by
  have apart := child_not_listed areItems sits
  rw [events, nodes_rewrite apart, List.flatMap_map, events, List.flatMap_assoc]
  refine List.flatMap_congr fun child isChild => ?_
  exact childEvents_rewrite (apart child isChild) (fun node listed => areItems node (mem_ownNodes_of_child isChild listed))
    (fun node listed => sits node (mem_ownNodes_of_child isChild listed)) (refusal_of_child accepted isChild)

theorem split_of_child (isChild : child ∈ forest.nodes) : ∃ front next : Forest, forest = front.append (.node child.1 child.2 next) := by
  induction forest with
  | nil => cases isChild
  | node element children next _ inductionHypothesis =>
    rw [Forest.nodes, List.mem_cons] at isChild
    rcases isChild with rfl | later
    · exact ⟨.nil, next, rfl⟩
    · obtain ⟨front, behind, rfl⟩ := inductionHypothesis later
      exact ⟨.node element children front, behind, rfl⟩

/-- A node as deep as these siblings is one of them. -/
theorem child_of_own {ancestors : List Tag} (listed : node ∈ ownFrom ancestors forest) (isHere : node.ancestors.length = ancestors.length) :
    (node.element, node.children) ∈ forest.nodes := by
  induction forest with
  | nil => cases listed
  | node element children next _ inductionHypothesis =>
    rw [ownFrom, List.mem_cons, List.mem_append] at listed
    rw [Forest.nodes, List.mem_cons]
    rcases listed with rfl | below | later
    · exact .inl rfl
    · split at below
      next => cases below
      next =>
        have deeper := length_ancestors below
        rw [isHere, List.length_cons] at deeper
        omega
    · exact .inr (inductionHypothesis later)

/-- Field markup that is read is a child of a run of the paragraph. -/
theorem run_of_mark {code : Str} (listed : .mark anchor code ∈ events isHyperlinkInstruction forest) :
    ∃ (front : Forest) (run : Element) (preceding inField moving next : Forest), run.tag = .r ∧
      forest = front.append (.node run (preceding.append (.node anchor inField moving)) next) := by
  obtain ⟨⟨run, children⟩, isChild, isEvent⟩ := List.mem_flatMap.mp listed
  simp only [childEvents] at isEvent
  split at isEvent
  next => cases isEvent
  next =>
    split at isEvent
    next =>
      split at isEvent
      next => cases List.mem_singleton.mp isEvent
      next => cases List.mem_singleton.mp isEvent
    next =>
      obtain ⟨node, isNode, isEvent⟩ := List.mem_filterMap.mp isEvent
      rw [Node.event?] at isEvent
      split at isEvent
      next isField =>
        split at isEvent
        next => cases isEvent
        next accepted =>
          cases isEvent
          simp only [Bool.or_eq_true, decide_eq_true_eq, bne_iff_ne, ne_eq, not_or, not_not] at accepted
          obtain ⟨⟨-, isRun⟩, isBelow⟩ := accepted
          rw [ownFrom, List.mem_cons] at isNode
          rcases isNode with rfl | below
          · cases isBelow
          · rw [ownFrom, List.append_nil, isRun, if_neg (by decide)] at below
            obtain ⟨front, next, isForest⟩ := split_of_child isChild
            obtain ⟨preceding, moving, isRunForest⟩ := split_of_child (child_of_own below isBelow)
            exact ⟨front, run, preceding, node.children, moving, next, isRun, by rw [isForest, isRunForest]⟩
      next =>
        split at isEvent
        next => cases isEvent
        next => cases isEvent

theorem child_of_link {items : List Node} (listed : .link anchor items ∈ events isHyperlinkInstruction forest) :
    ∃ inside, (anchor, inside) ∈ forest.nodes := by
  obtain ⟨⟨element, children⟩, isChild, isEvent⟩ := List.mem_flatMap.mp listed
  simp only [childEvents] at isEvent
  split at isEvent
  next => cases isEvent
  next =>
    split at isEvent
    next =>
      split at isEvent
      next => cases List.mem_singleton.mp isEvent
      next =>
        cases List.mem_singleton.mp isEvent
        exact ⟨children, isChild⟩
    next =>
      obtain ⟨node, -, isEvent⟩ := List.mem_filterMap.mp isEvent
      rw [Node.event?] at isEvent
      split_ifs at isEvent <;> cases isEvent

theorem elements_of_child (isChild : child ∈ forest.nodes) : child.2.elements ⊆ forest.elements := by
  obtain ⟨front, next, rfl⟩ := split_of_child isChild
  intro element listed
  rw [Forest.elements_append, Forest.elements]
  exact List.mem_append_right _ (List.mem_cons_of_mem _ (List.mem_append_left _ listed))

/-- A link of the paragraph stands in no child of it. -/
theorem Editable.onTop {items : List Node} (editable : Editable isHyperlinkInstruction forest) (own : anchor.identity.isOwn = true)
    (listed : .link anchor items ∈ events isHyperlinkInstruction forest) : ∀ child ∈ forest.nodes, anchor ∉ child.2.elements := by
  obtain ⟨inside, isAnchor⟩ := child_of_link listed
  obtain ⟨front, next, isForest⟩ := split_of_child isAnchor
  have distinct := editable.distinct
  rw [isForest, Forest.elements_append, Forest.elements] at distinct
  obtain ⟨notBefore, notAfter⟩ := absent_of_distinct own distinct
  rw [List.mem_append, not_or] at notAfter
  intro child isChild listed
  rw [isForest, Forest.nodes_append, Forest.nodes, List.mem_append, List.mem_cons] at isChild
  rcases isChild with inFront | rfl | later
  · exact notBefore (elements_of_child inFront listed)
  · exact notAfter.1 listed
  · exact notAfter.2 (elements_of_child later listed)

/-- A field character of the paragraph stands in one run. -/
theorem Editable.stands {code : Str} (editable : Editable isHyperlinkInstruction forest) (own : anchor.identity.isOwn = true)
    (isField : anchor.tag = .fldChar) (listed : .mark anchor code ∈ events isHyperlinkInstruction forest) :
    ∃ (front : Forest) (run : Element) (preceding inField moving next : Forest), StandsIn anchor front run preceding inField moving next ∧
      forest = front.append (.node run (preceding.append (.node anchor inField moving)) next) := by
  obtain ⟨front, run, preceding, inField, moving, next, isRun, rfl⟩ := run_of_mark listed
  have distinct := editable.distinct
  have isSplit : (front.append (.node run (preceding.append (.node anchor inField moving)) next)).elements =
      (front.elements ++ run :: preceding.elements) ++ anchor :: (inField.elements ++ (moving.elements ++ next.elements)) := by
    simp only [Forest.elements_append, Forest.elements, List.append_assoc, List.cons_append]
  rw [isSplit] at distinct
  obtain ⟨notBefore, notAfter⟩ := absent_of_distinct own distinct
  simp only [List.mem_append, List.mem_cons, not_or] at notBefore notAfter
  exact ⟨front, run, preceding, inField, moving, next,
    ⟨isRun, isField, notBefore.1, notBefore.2.2, notAfter.2.1, notAfter.2.2⟩, rfl⟩

/-- What an insertion adds among the children are runs. -/
theorem properties_of_insertBeside (onTop : ∀ child ∈ forest.nodes, anchor ∉ child.2.elements)
    (isChild : child ∈ (Forest.insertBeside anchor before content forest).nodes) (isProperties : child.1.tag = .pPr) : child ∈ forest.nodes := by
  induction forest with
  | nil => cases isChild
  | node element children next _ inductionHypothesis =>
    obtain ⟨notInside, onTop⟩ := List.forall_mem_cons.mp onTop
    have notRun {inside : Forest} : child ≠ (newElement .r, inside) := by
      rintro rfl
      cases isProperties
    rw [Forest.nodes, List.mem_cons]
    rw [Forest.insertBeside, insertBeside_of_absent notInside] at isChild
    split_ifs at isChild
    · rcases List.mem_cons.mp isChild with isRun | isChild
      · exact absurd isRun notRun
      · exact (List.mem_cons.mp isChild).imp_right (inductionHypothesis onTop)
    · rcases List.mem_cons.mp isChild with here | isChild
      · exact .inl here
      · rcases List.mem_cons.mp isChild with isRun | later
        · exact absurd isRun notRun
        · exact .inr (inductionHypothesis onTop later)
    · exact (List.mem_cons.mp isChild).imp_right (inductionHypothesis onTop)

theorem properties_of_insertAtField {front preceding inField moving next : Forest} {run : Element}
    (stands : StandsIn anchor front run preceding inField moving next)
    (isChild : child ∈ (Forest.insertAtField anchor before content
      (front.append (.node run (preceding.append (.node anchor inField moving)) next))).nodes) (isProperties : child.1.tag = .pPr) :
    child ∈ (front.append (.node run (preceding.append (.node anchor inField moving)) next)).nodes := by
  have notRun {element : Element} {inside : Forest} (isRun : element.tag = .r) : child ≠ (element, inside) := by
    rintro rfl
    rw [isRun] at isProperties
    cases isProperties
  have noRun (inside : Forest) : child ≠ (run, inside) := notRun stands.isRun
  have notNew (inside : Forest) : child ≠ (⟨.made, .r, [], [], []⟩, inside) := notRun rfl
  have notHalf (inside : Forest) : child ≠ (⟨Forest.remainderIdentity run.identity, .r, run.attributes, [], []⟩, inside) := notRun rfl
  rw [insertAtField_append stands.inFront, Forest.nodes_append, List.mem_append, Forest.insertAtField, if_pos stands.isRun,
    breakAt_append_node stands.before] at isChild
  rw [Forest.nodes_append, List.mem_append, Forest.nodes, List.mem_cons]
  refine isChild.imp_right fun isChild => .inr ?_
  cases before with
  | true =>
    simp only [if_true] at isChild
    split at isChild
    next => simpa [Forest.nodes, newElement, noRun, notNew] using isChild
    next => simpa [Forest.remainder, Forest.nodes, newElement, noRun, notNew, notHalf] using isChild
  | false =>
    simp only [Bool.false_eq_true, if_false] at isChild
    split at isChild
    next impossible => cases impossible
    next => simpa [Forest.nodes, newElement, noRun, notNew] using isChild
    next => simpa [Forest.remainder, Forest.nodes, newElement, noRun, notNew, notHalf] using isChild

/-! ## Every edit -/

variable {edit : Edit} {edits : List Edit}

/-- What is edited is an item wherever it is a node of the paragraph. -/
theorem Editable.areItems (editable : Editable isHyperlinkInstruction forest) {elements : List Element}
    (areOwn : ∀ element ∈ elements, element.identity.isOwn = true)
    (areItems : ∀ element ∈ elements, ∃ node ∈ (events isHyperlinkInstruction forest).flatMap Event.items, node.element = element) :
    ∀ node ∈ ownNodes forest, node.element ∈ elements → node.isInlineItem = true := by
  intro node isNode listed
  obtain ⟨other, isOther, same⟩ := areItems node.element listed
  rw [editable.items] at isOther
  obtain ⟨item, isItem, rfl⟩ := List.mem_map.mp isOther
  obtain ⟨isOwnNode, isItem⟩ := List.mem_filter.mp isItem
  rwa [editable.node_once (areOwn _ listed) isNode isOwnNode same.symm]

theorem Editable.events_apply (editable : Editable isHyperlinkInstruction forest) (placed : edit.Placed (events isHyperlinkInstruction forest)) :
    events isHyperlinkInstruction (edit.apply forest) = (events isHyperlinkInstruction forest).flatMap edit.rewriting.onEvent := by
  cases placed with
  | rewrite areOwn areItems => exact events_rewrite (editable.areItems areOwn areItems) editable.sits editable.accepted
  | @besideLink anchor before value items own listed =>
    have isLink : anchor.tag = .hyperlink ∨ anchor.tag = .fldSimple := isRead_events listed
    have notField : anchor.tag ≠ .fldChar := by
      rcases isLink with isLink | isLink <;> rw [isLink] <;> decide
    rw [Edit.apply, if_neg notField]
    exact events_insertBeside isLink editable.accepted (editable.onTop own listed)
  | @besideField anchor before value code own isField listed =>
    obtain ⟨front, run, preceding, inField, moving, next, stands, rfl⟩ := editable.stands own isField listed
    have isRunNode : ⟨[], run, preceding.append (.node anchor inField moving)⟩ ∈
        ownNodes (front.append (.node run (preceding.append (.node anchor inField moving)) next)) := by
      rw [ownNodes, ownFrom_append, ownFrom]
      exact List.mem_append_right _ List.mem_cons_self
    rw [Edit.apply, if_pos isField]
    refine events_insertAtField_of_stands stands (fun node isNode => editable.sits node ?_) fun refused => editable.accepted ?_
    · rw [ownNodes, ownFrom_append, ownFrom, stands.isRun, if_neg (by decide)]
      exact List.mem_append_right _ (List.mem_cons_of_mem _ (List.mem_append_left _ isNode))
    · rw [events_append, events_node, childEvents_run stands.isRun]
      exact List.mem_append_right _ (List.mem_append_left _ refused)

theorem Editable.properties_apply (editable : Editable isHyperlinkInstruction forest) (placed : edit.Placed (events isHyperlinkInstruction forest)) :
    ∀ child ∈ (edit.apply forest).nodes, child.1.tag = .pPr → ∀ node ∈ ownOf child, node.isInlineItem = false := by
  intro child isChild isProperties
  cases placed with
  | @rewrite first rest value areOwn areItems =>
    have listed := editable.areItems areOwn areItems
    rw [Edit.apply, nodes_rewrite (child_not_listed listed editable.sits)] at isChild
    obtain ⟨⟨element, children⟩, isOld, rfl⟩ := List.mem_map.mp isChild
    have noItem := editable.noneInProperties isOld isProperties
    have isTag : element.tag = .pPr := isProperties
    have absent : ∀ node ∈ ownFrom [.pPr] children, node.element ∉ first.element :: rest.map Node.element := by
      intro node isNode isListed
      have inChild : node ∈ ownOf (element, children) := by
        rw [ownOf, ownFrom, isTag, if_neg (by decide)]
        exact List.mem_cons_of_mem _ (List.mem_append_left _ isNode)
      have isItem := listed node (mem_ownNodes_of_child isOld inChild) isListed
      rw [noItem node inChild] at isItem
      cases isItem
    have sameNodes := @ownFrom_rewrite_of_absent [.pPr] children first.element (rest.map Node.element) (inlineElements value) absent
    intro node isNode
    rw [ownOf, ownFrom, isTag, if_neg (by decide), ownFrom, List.append_nil, List.mem_cons] at isNode
    rcases isNode with rfl | isNode
    · simp [Node.isInlineItem, Element.isInlineItem, isTag, inlineCharacter?]
    · have isBare : node.bare ∈ _ := List.mem_map_of_mem isNode
      rw [sameNodes] at isBare
      obtain ⟨other, isOther, same⟩ := List.mem_map.mp isBare
      have isItem : other.bare.isInlineItem = false := by
        refine noItem other ?_
        rw [ownOf, ownFrom, isTag, if_neg (by decide)]
        exact List.mem_cons_of_mem _ (List.mem_append_left _ isOther)
      rw [same] at isItem
      exact isItem
  | @besideLink anchor before value items own listed =>
    have isLink : anchor.tag = .hyperlink ∨ anchor.tag = .fldSimple := isRead_events listed
    have notField : anchor.tag ≠ .fldChar := by
      rcases isLink with isLink | isLink <;> rw [isLink] <;> decide
    rw [Edit.apply, if_neg notField] at isChild
    exact editable.noneInProperties (properties_of_insertBeside (editable.onTop own listed) isChild isProperties) isProperties
  | @besideField anchor before value code own isField listed =>
    obtain ⟨front, run, preceding, inField, moving, next, stands, rfl⟩ := editable.stands own isField listed
    rw [Edit.apply, if_pos isField] at isChild
    exact editable.noneInProperties (properties_of_insertAtField stands isChild isProperties) isProperties

/-- An edit rewrites the line where it is placed, and the paragraph can be edited further. -/
theorem Editable.step (editable : Editable isHyperlinkInstruction forest) (placed : edit.Placed (events isHyperlinkInstruction forest)) :
    events isHyperlinkInstruction (edit.apply forest) = (events isHyperlinkInstruction forest).flatMap edit.rewriting.onEvent ∧
      Editable isHyperlinkInstruction (edit.apply forest) := by
  have isLine := editable.events_apply placed
  have accepted : .refusal ∉ events isHyperlinkInstruction (edit.apply forest) := by
    rw [isLine]
    exact refusal_onEvent editable.accepted
  refine ⟨isLine, ?_, ?_, accepted⟩
  · exact (changes_apply (List.Subset.refl _) forest).own_sublist.nodup editable.distinct
  · refine sits_of_line accepted (editable.properties_apply placed) ?_
    rw [isLine]
    refine sits_rewriting edit fun node listed => ?_
    rw [editable.items] at listed
    obtain ⟨item, isItem, rfl⟩ := List.mem_map.mp listed
    obtain ⟨isNode, isItem⟩ := List.mem_filter.mp isItem
    exact editable.sits item isNode isItem

end

end Oveo.Docx
