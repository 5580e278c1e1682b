import Oveo.Docx.Stretches

/-! # What a layout reads

The layout of a paragraph depends on little of its tree: the items, the field markup of its own runs and its
links, in order.  Of this line `_paragraph_layout` is a machine with one step for each event. -/

namespace Oveo.Docx

open Oveo.Lib

/-! ## Events -/

/-- A node without what is inside. -/
def Node.bare (node : Node) : Node := ⟨node.ancestors, node.element, .nil⟩

inductive Event where
  | item (node : Node)
  /-- Field markup of one of the paragraph's own runs, with its character content. -/
  | mark (element : Element) (code : Str)
  /-- A hyperlink or a simple field of a hyperlink. -/
  | link (element : Element) (items : List Node)
  /-- What keeps a paragraph from having a layout. -/
  | refusal

def Event.items : Event → List Node
  | .item node => [node]
  | .link _ items => items
  | _ => []

def Event.isRefusal : Event → Bool
  | .refusal => true
  | _ => false

/-- The element where a field changes or a link stands. -/
def Event.place? : Event → Option Element
  | .mark element _ | .link element _ => some element
  | _ => none

/-- What the scan sees of a node below a child with this tag. -/
def Node.event? (childTag : Tag) (node : Node) : Option Event :=
  if node.element.tag.isField then
    if node.element.tag = .fldSimple || childTag != .r || node.ancestors.length != 1 then some .refusal
    else some (.mark node.element node.instructionText)
  else if node.isInlineItem then some (.item node.bare) else none

def eventsFrom (childTag : Tag) (ancestors : List Tag) (forest : Forest) : List Event :=
  (ownFrom ancestors forest).filterMap (Node.event? childTag)

section

variable (isHyperlinkInstruction : Str → Bool)

/-- What the scan sees of a child of the paragraph. -/
def childEvents (child : Element × Forest) : List Event :=
  let tag := child.1.tag
  if tag = .pPr then []
  else if tag = .hyperlink ∨ tag = .fldSimple then
    let inside := eventsFrom tag [tag] child.2
    if inside.any Event.isRefusal || (tag = .fldSimple && !isHyperlinkInstruction ((child.1.get? fldSimpleInstruction).getD [])) then [.refusal]
    else [.link child.1 (inside.flatMap Event.items)]
  else eventsFrom tag [] (.node child.1 child.2 .nil)

/-- The events of a paragraph with these children. -/
def events (children : Forest) : List Event := children.nodes.flatMap (childEvents isHyperlinkInstruction)

def Link.ofElement (element : Element) (items : List Node) : Link :=
  ⟨element, element, items, if element.tag = .hyperlink then some element else none⟩

/-- The scan of one event. -/
def Scan.event (scan : Scan) : Event → Option Scan
  | .item node => scan.item node
  | .mark element code =>
    if element.tag = .instrText then
      match scan.field with
      | some ⟨start, instruction, none⟩ => some { scan with field := some ⟨start, instruction ++ code, none⟩ }
      | _ => none
    else scan.fieldCharacter isHyperlinkInstruction element
  | .link element items =>
    if scan.field.isSome then none
    else some { scan with parts := scan.parts ++ [(scan.current, Link.ofElement element items)], current := [] }
  | .refusal => none

/-- The layout that a line of events has. -/
def layoutOf (line : List Event) : Option Layout :=
  match line.foldlM (Scan.event isHyperlinkInstruction) ⟨[], [], none⟩ with
  | some ⟨parts, current, none⟩ => some ⟨parts, current⟩
  | _ => none

end

/-! ## The layout reads the events -/

def Link.bare (link : Link) : Link := { link with items := link.items.map Node.bare }

def barePart (part : List Node × Link) : List Node × Link := (part.1.map Node.bare, part.2.bare)

def Layout.bare (layout : Layout) : Layout := ⟨layout.parts.map barePart, layout.last.map Node.bare⟩

def Field.bare (field : Field) : Field := { field with display := field.display.map (List.map Node.bare) }

def Scan.bare (scan : Scan) : Scan := ⟨scan.parts.map barePart, scan.current.map Node.bare, scan.field.map Field.bare⟩

/-- Steps that read nothing, one or more events each are the fold over all these events. -/
theorem map_foldlM_flatMap {σ τ α β : Type} {step : σ → α → Option σ} {read : τ → β → Option τ} {seen : σ → τ} {split : α → List β}
    (each : ∀ state entry, (step state entry).map seen = (split entry).foldlM read (seen state)) (entries : List α) (state : σ) :
    (entries.foldlM step state).map seen = (entries.flatMap split).foldlM read (seen state) := by
  induction entries generalizing state with
  | nil => rfl
  | cons entry entries inductionHypothesis =>
    rw [List.foldlM_cons, List.flatMap_cons, List.foldlM_append, ← each]
    cases step state entry with
    | none => rfl
    | some next => exact inductionHypothesis next

section

variable {isHyperlinkInstruction : Str → Bool}

theorem bare_item (scan : Scan) (node : Node) : (scan.item node).map Scan.bare = scan.bare.item node.bare := by
  obtain ⟨parts, current, field⟩ := scan
  cases field with
  | none => simp [Scan.item, Scan.bare]
  | some field =>
    obtain ⟨start, instruction, display⟩ := field
    cases display with
    | none => rfl
    | some display => simp [Scan.item, Scan.bare, Field.bare]

theorem bare_fieldCharacter (scan : Scan) (element : Element) : (scan.fieldCharacter isHyperlinkInstruction element).map Scan.bare =
    scan.bare.fieldCharacter isHyperlinkInstruction element := by
  obtain ⟨parts, current, field⟩ := scan
  cases field with
  | none =>
    simp only [Scan.fieldCharacter, Scan.bare, Option.map_none]
    split <;> simp [Scan.bare, Field.bare]
  | some field =>
    obtain ⟨start, instruction, display⟩ := field
    cases display with
    | none =>
      simp only [Scan.fieldCharacter, Scan.bare, Option.map_some, Field.bare, Option.map_none]
      split <;> simp [Scan.bare, Field.bare]
    | some display =>
      simp only [Scan.fieldCharacter, Scan.bare, Option.map_some, Field.bare]
      split <;> simp [Scan.bare, barePart, Link.bare]

theorem bare_element (childTag : Tag) (scan : Scan) (node : Node) :
    (scan.element isHyperlinkInstruction childTag node).map Scan.bare =
      (node.event? childTag).toList.foldlM (Scan.event isHyperlinkInstruction) scan.bare := by
  rw [Scan.element, Node.event?]
  split
  next isField =>
    split
    next => simp [Scan.event]
    next =>
      simp only [Option.toList_some, List.foldlM_cons, List.foldlM_nil, Scan.event, bind_pure]
      split
      next =>
        obtain ⟨parts, current, field⟩ := scan
        cases field with
        | none => rfl
        | some field =>
          obtain ⟨start, instruction, display⟩ := field
          cases display <;> rfl
      next => exact bare_fieldCharacter scan node.element
  next =>
    split
    next =>
      simp only [Option.toList_some, List.foldlM_cons, List.foldlM_nil, Scan.event, bind_pure]
      exact bare_item scan node
    next => rfl

/-- Below a link, field markup is no event but a refusal. -/
theorem any_isRefusal {childTag : Tag} (notRun : childTag ≠ .r) (ancestors : List Tag) (forest : Forest) :
    (eventsFrom childTag ancestors forest).any Event.isRefusal = (ownFrom ancestors forest).any fun node => node.element.tag.isField := by
  rw [eventsFrom, List.any_filterMap]
  refine List.any_congr rfl fun node => ?_
  rw [Node.event?]
  by_cases isField : node.element.tag.isField = true
  · simp [isField, notRun, Event.isRefusal]
  · by_cases isItem : node.isInlineItem = true
    · simp [isField, isItem, Event.isRefusal]
    · simp [isField, isItem]

/-- The items among the events are the inline items. -/
theorem items_eventsFrom (childTag : Tag) (ancestors : List Tag) (forest : Forest) :
    (eventsFrom childTag ancestors forest).flatMap Event.items = ((ownFrom ancestors forest).filter Node.isInlineItem).map Node.bare := by
  have each (node : Node) : (node.event? childTag).toList.flatMap Event.items = ([node].filter Node.isInlineItem).map Node.bare := by
    rw [Node.event?]
    by_cases isItem : node.isInlineItem = true
    · rw [if_neg (by simp [Node.not_isField_of_isInlineItem isItem]), if_pos isItem]
      simp [isItem, Event.items]
    · rw [if_neg isItem]
      split_ifs <;> simp [isItem, Event.items]
  rw [eventsFrom, List.filterMap_eq_flatMap_toList, List.flatMap_assoc]
  induction ownFrom ancestors forest with
  | nil => rfl
  | cons node nodes inductionHypothesis =>
    rw [List.flatMap_cons, inductionHypothesis, each, ← List.map_append, ← List.filter_append, List.singleton_append]

/-- The items of a link are those below it. -/
theorem items_of_linkElement {element : Element} {children : Forest} (isLink : element.tag = .hyperlink ∨ element.tag = .fldSimple) :
    (ownOf (element, children)).filter Node.isInlineItem = (ownFrom [element.tag] children).filter Node.isInlineItem := by
  have notParagraph : element.tag ≠ .p := by
    rcases isLink with isLink | isLink <;> rw [isLink] <;> decide
  have notItem (node : Node) (same : node.element = element) : node.isInlineItem = false := by
    rcases isLink with isLink | isLink <;> simp [Node.isInlineItem, Element.isInlineItem, same, isLink, inlineCharacter?]
  rw [ownOf, ownFrom, if_neg notParagraph, List.filter_cons, notItem _ rfl, ownFrom, List.append_nil]
  rfl

theorem bare_child (scan : Scan) (child : Element × Forest) : (scan.child isHyperlinkInstruction child).map Scan.bare =
    (childEvents isHyperlinkInstruction child).foldlM (Scan.event isHyperlinkInstruction) scan.bare := by
  obtain ⟨element, children⟩ := child
  simp only [Scan.child, childEvents]
  split
  next => rfl
  next =>
    split
    next isLink =>
      have notRun : element.tag ≠ .r := by
        rcases isLink with isLink | isLink <;> rw [isLink] <;> decide
      rw [any_isRefusal notRun, items_eventsFrom, items_of_linkElement isLink]
      obtain ⟨parts, current, field⟩ := scan
      cases field with
      | some field =>
        simp only [Option.isSome_some, Bool.true_or, if_true, Option.map_none]
        split <;> rfl
      | none =>
        simp only [Option.isSome_none, Bool.false_or]
        split
        next => rfl
        next => simp [Scan.event, Scan.bare, barePart, Link.bare, Link.ofElement]
    next =>
      have folded := map_foldlM_flatMap (@bare_element isHyperlinkInstruction element.tag) (ownOf (element, children)) scan
      rw [folded, eventsFrom, List.filterMap_eq_flatMap_toList]
      rfl

/-- Where nothing is refused, the items that are read are those that are shown. -/
theorem items_childEvents {child : Element × Forest} (accepted : .refusal ∉ childEvents isHyperlinkInstruction child) :
    (childEvents isHyperlinkInstruction child).flatMap Event.items = (shownItems child).map Node.bare := by
  obtain ⟨element, children⟩ := child
  simp only [childEvents, shownItems] at accepted ⊢
  split
  next => rfl
  next notProperties =>
    rw [if_neg notProperties] at accepted
    by_cases isLink : element.tag = .hyperlink ∨ element.tag = .fldSimple
    · rw [if_pos isLink] at accepted ⊢
      split at accepted
      next => exact absurd (List.mem_singleton_self _) accepted
      next notRefused =>
        rw [if_neg notRefused, items_of_linkElement isLink, ← items_eventsFrom element.tag [element.tag] children]
        exact List.flatMap_singleton _ _
    · rw [if_neg isLink]
      exact items_eventsFrom element.tag [] _

/-- `_paragraph_layout` reads the events of a paragraph, and nothing else. -/
theorem paragraphLayout_eq (children : Forest) :
    (paragraphLayout isHyperlinkInstruction children).map Layout.bare = layoutOf isHyperlinkInstruction (events isHyperlinkInstruction children) := by
  have folded := map_foldlM_flatMap (@bare_child isHyperlinkInstruction) children.nodes ⟨[], [], none⟩
  have isStart : Scan.bare ⟨[], [], none⟩ = ⟨[], [], none⟩ := rfl
  rw [isStart] at folded
  rw [paragraphLayout, layoutOf, events, ← folded]
  cases children.nodes.foldlM (Scan.child isHyperlinkInstruction) ⟨[], [], none⟩ with
  | none => rfl
  | some scan =>
    obtain ⟨parts, current, field⟩ := scan
    cases field <;> rfl

end

end Oveo.Docx
