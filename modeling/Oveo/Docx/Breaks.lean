import Oveo.Docx.Stretches
import Oveo.Lib.Before

/-! # Page and column breaks of a patched paragraph

New text stands where the first item of its stretch stood, with or without text there, or next to a link.
A break keeps its side of the text just when that place is not on its other side. -/

namespace Oveo.Docx

open Oveo.Lib

/-! ## Sides of a break -/

/-- Is this part of the paragraph's text? -/
def Node.showsText (node : Node) : Bool := node.isInlineItem && !node.itemText.isEmpty

/-- The paragraph's text, if there is any, stands behind this element. -/
def Precedes (element : Element) (children : Forest) : Prop :=
  ∀ text node, Before text node (ownNodes children) → node.element = element → text.showsText = false

/-- The paragraph's text stands before this element. -/
def Follows (element : Element) (children : Forest) : Prop :=
  ∀ node text, Before node text (ownNodes children) → node.element = element → text.showsText = false

/-- Every page and column break is kept on its side of the text. -/
structure BreaksKept (children patched : Forest) : Prop where
  kept : ∀ node ∈ ownNodes children, node.element.isLayoutBreak = true → ∃ other ∈ ownNodes patched, other.element = node.element
  precedes : ∀ node ∈ ownNodes children, node.element.isLayoutBreak = true → Precedes node.element children → Precedes node.element patched
  follows : ∀ node ∈ ownNodes children, node.element.isLayoutBreak = true → Follows node.element children → Follows node.element patched
  noInterior : hasInteriorLayoutBreak patched = false

/-! ## Interior breaks -/

section

variable {nodes : List Node} {node : Node}

theorem showsText_of_isLayoutBreak (isBreak : node.element.isLayoutBreak = true) : node.showsText = false := by
  have isTag : node.element.tag = .br := by
    simp only [Element.isLayoutBreak, Bool.and_eq_true, beq_iff_eq] at isBreak
    exact isBreak.1
  simp [Node.showsText, Node.isInlineItem, Element.isInlineItem, isTag, isBreak]

/-- A break with text on both sides. -/
def Interior (nodes : List Node) : Prop :=
  ∃ left node right, nodes = left ++ node :: right ∧ node.element.isLayoutBreak = true ∧ (∃ text ∈ left, text.showsText = true) ∧
    ∃ text ∈ right, text.showsText = true

/-- A break and text behind it. -/
def BreakBeforeText (nodes : List Node) : Prop :=
  ∃ node text, Before node text nodes ∧ node.element.isLayoutBreak = true ∧ text.showsText = true

theorem interior_cons : Interior (node :: nodes) ↔ (node.showsText = true ∧ BreakBeforeText nodes) ∨ Interior nodes := by
  constructor
  · rintro ⟨left, middle, right, same, isBreak, ⟨text, isLeft, shows⟩, later, isRight, showsLater⟩
    cases left with
    | nil => cases isLeft
    | cons first left =>
      cases same
      rcases List.mem_cons.mp isLeft with rfl | isLeft
      · have before : Before middle later (left ++ middle :: right) := before_append.mpr (.inr (.inr (.inl ⟨rfl, isRight⟩)))
        exact .inl ⟨shows, middle, later, before, isBreak, showsLater⟩
      · exact .inr ⟨left, middle, right, rfl, isBreak, ⟨text, isLeft, shows⟩, later, isRight, showsLater⟩
  · rintro (⟨shows, middle, later, before, isBreak, showsLater⟩ | ⟨left, middle, right, rfl, isBreak, ⟨text, isLeft, shows⟩, isRight⟩)
    · obtain ⟨left, right, rfl, isRight⟩ := before_iff_split.mp before
      exact ⟨node :: left, middle, right, rfl, isBreak, ⟨node, List.mem_cons_self, shows⟩, later, isRight, showsLater⟩
    · exact ⟨node :: left, middle, right, rfl, isBreak, ⟨text, List.mem_cons_of_mem _ isLeft, shows⟩, isRight⟩

theorem breakBeforeText_cons : BreakBeforeText (node :: nodes) ↔
    (node.element.isLayoutBreak = true ∧ ∃ text ∈ nodes, text.showsText = true) ∨ BreakBeforeText nodes := by
  constructor
  · rintro ⟨middle, text, ⟨rfl, later⟩ | before, isBreak, shows⟩
    · exact .inl ⟨isBreak, text, later, shows⟩
    · exact .inr ⟨middle, text, before, isBreak, shows⟩
  · rintro (⟨isBreak, text, later, shows⟩ | ⟨middle, text, before, isBreak, shows⟩)
    · exact ⟨node, text, .inl ⟨rfl, later⟩, isBreak, shows⟩
    · exact ⟨middle, text, .inr before, isBreak, shows⟩

theorem interiorBreakFrom_iff (textSeen breakAfterText : Bool) (nodes : List Node) : interiorBreakFrom textSeen breakAfterText nodes = true ↔
    (breakAfterText = true ∧ ∃ text ∈ nodes, text.showsText = true) ∨ (textSeen = true ∧ BreakBeforeText nodes) ∨ Interior nodes := by
  induction nodes generalizing textSeen breakAfterText with
  | nil => simp [interiorBreakFrom, BreakBeforeText, Interior, Before]
  | cons node nodes inductionHypothesis =>
    rw [interiorBreakFrom, interior_cons, breakBeforeText_cons, List.exists_mem_cons_iff]
    by_cases isBreak : node.element.isLayoutBreak = true
    · rw [if_pos isBreak, inductionHypothesis, showsText_of_isLayoutBreak isBreak]
      simp only [isBreak, Bool.or_eq_true, Bool.false_eq_true, false_and, false_or, true_and, or_and_right, and_or_left, or_assoc]
    · have isText : (node.isInlineItem && !node.itemText.isEmpty) = node.showsText := rfl
      rw [if_neg isBreak, isText]
      by_cases shows : node.showsText = true
      · rw [if_pos shows]
        cases breakAfterText with
        | true => simp [shows]
        | false =>
          -- text is seen now, so a break behind it is one behind text
          rw [if_neg Bool.false_ne_true, inductionHypothesis]
          simp only [shows, isBreak, Bool.false_eq_true, false_and, false_or, true_and]
          tauto
      · rw [if_neg shows, inductionHypothesis]
        simp only [shows, isBreak, Bool.false_eq_true, false_and, false_or]

/-- `_has_interior_layout_break` finds a break with text on both sides. -/
theorem hasInteriorLayoutBreak_iff (children : Forest) : hasInteriorLayoutBreak children = true ↔ Interior (ownNodes children) := by
  rw [hasInteriorLayoutBreak, interiorBreakFrom_iff]
  simp

/-- In an accepted paragraph all text is on one side of a break. -/
theorem sides_of_break {children : Forest} (distinct : ((ownNodes children).map Node.element).Nodup)
    (noInterior : hasInteriorLayoutBreak children = false) {element : Element} (isBreak : element.isLayoutBreak = true) :
    Precedes element children ∨ Follows element children := by
  by_contra onBoth
  obtain ⟨text, middle, before, rfl, shows⟩ :
      ∃ text node, Before text node (ownNodes children) ∧ node.element = element ∧ text.showsText = true := by
    simpa [Precedes] using (not_or.mp onBoth).1
  obtain ⟨middle', later, behind, same, showsLater⟩ :
      ∃ node text, Before node text (ownNodes children) ∧ node.element = middle.element ∧ text.showsText = true := by
    simpa [Follows] using (not_or.mp onBoth).2
  obtain ⟨left, right, isSplit, isLeft, isRight⟩ := split_of_before distinct before behind same.symm
  have isInterior : Interior (ownNodes children) :=
    ⟨left, middle, right, isSplit, isBreak, ⟨text, isLeft, shows⟩, later, isRight, showsLater⟩
  rw [← hasInteriorLayoutBreak_iff, noInterior] at isInterior
  cases isInterior

end

/-! ## The same on the line -/

/-- Does text start at this sign? -/
def Sign.showsText : Sign → Bool
  | .start parent element => element.isInlineItem parent && !element.itemText.isEmpty
  | .stop _ => false

/-- The sign of a node that has one. -/
def Node.start? (node : Node) : Option (Tag × Element) :=
  if node.element.tag.isMarked then some (node.parent, node.element) else none

section

variable {children : Forest} {node : Node} {sign : Sign} {element : Element}

theorem starts_eq_nodes (children : Forest) : (signs children).filterMap Sign.start? = (ownNodes children).filterMap Node.start? := by
  rw [signs, show Tag.p = ([] : List Tag).headD .p from rfl, starts_eq]
  show ((ownNodes children).filter _).map _ = _
  induction ownNodes children with
  | nil => rfl
  | cons node nodes inductionHypothesis =>
    by_cases isMarked : node.element.tag.isMarked = true
    · simp [Node.start?, isMarked, inductionHypothesis]
    · simp [Node.start?, isMarked, inductionHypothesis]

theorem start?_eq_some {first : Tag × Element} : sign.start? = some first ↔ sign = .start first.1 first.2 := by
  obtain ⟨parent, element⟩ := first
  cases sign <;> simp [Sign.start?]

/-- The order of the nodes is that of the signs where they start. -/
theorem before_signs_iff {first second : Tag × Element} : Before (.start first.1 first.2) (.start second.1 second.2) (signs children) ↔
    ∃ a b, Before a b (ownNodes children) ∧ a.start? = some first ∧ b.start? = some second := by
  rw [← before_filterMap, ← starts_eq_nodes, before_filterMap]
  simp [start?_eq_some]

theorem isMarked_of_showsText (shows : node.showsText = true) : node.element.tag.isMarked = true := by
  rw [Node.showsText, Bool.and_eq_true] at shows
  exact isMarked_of_isInline (Node.isInline_of_isInlineItem shows.1)

theorem isMarked_of_isLayoutBreak (isBreak : element.isLayoutBreak = true) : element.tag.isMarked = true := by
  simp only [Element.isLayoutBreak, Bool.and_eq_true, beq_iff_eq] at isBreak
  rw [isBreak.1]
  rfl

theorem start?_of_isMarked (isMarked : node.element.tag.isMarked = true) : node.start? = some (node.parent, node.element) := if_pos isMarked

theorem of_start?_eq_some {first : Tag × Element} (isStart : node.start? = some first) : node.parent = first.1 ∧ node.element = first.2 := by
  obtain ⟨-, same⟩ := Option.ite_none_right_eq_some.mp isStart
  cases same
  exact ⟨rfl, rfl⟩

/-- Text before a break, on the line. -/
theorem precedes_iff (isBreak : element.isLayoutBreak = true) : Precedes element children ↔
    ∀ sign parent, Before sign (.start parent element) (signs children) → sign.showsText = false := by
  constructor
  · intro precedes sign parent onLine
    cases sign with
    | stop _ => rfl
    | start parent' text =>
      obtain ⟨a, b, before, isText, isNode⟩ := (@before_signs_iff children (parent', text) (parent, element)).mp onLine
      obtain ⟨rfl, rfl⟩ := of_start?_eq_some isText
      exact precedes a b before (of_start?_eq_some isNode).2
  · intro precedes text node before isNode
    by_contra shows
    rw [Bool.not_eq_false] at shows
    have onLine := before_signs_iff.mpr ⟨text, node, before, start?_of_isMarked (isMarked_of_showsText shows),
      start?_of_isMarked (isMarked_of_isLayoutBreak (isNode ▸ isBreak))⟩
    rw [isNode] at onLine
    have hidden := precedes _ _ onLine
    rw [show (Sign.start text.parent text.element).showsText = text.showsText from rfl, shows] at hidden
    cases hidden

/-- Text behind a break, on the line. -/
theorem follows_iff (isBreak : element.isLayoutBreak = true) : Follows element children ↔
    ∀ sign parent, Before (.start parent element) sign (signs children) → sign.showsText = false := by
  constructor
  · intro follows sign parent onLine
    cases sign with
    | stop _ => rfl
    | start parent' text =>
      obtain ⟨a, b, behind, isNode, isText⟩ := (@before_signs_iff children (parent, element) (parent', text)).mp onLine
      obtain ⟨rfl, rfl⟩ := of_start?_eq_some isText
      exact follows a b behind (of_start?_eq_some isNode).2
  · intro follows node text behind isNode
    by_contra shows
    rw [Bool.not_eq_false] at shows
    have onLine := before_signs_iff.mpr ⟨node, text, behind, start?_of_isMarked (isMarked_of_isLayoutBreak (isNode ▸ isBreak)),
      start?_of_isMarked (isMarked_of_showsText shows)⟩
    rw [isNode] at onLine
    have hidden := follows _ _ onLine
    rw [show (Sign.start text.parent text.element).showsText = text.showsText from rfl, shows] at hidden
    cases hidden

end

/-! ## Where an edit puts text -/

/-- Does a new text show below this parent?  Outside a run only its text nodes do. -/
def showsIn (parent : Tag) (value : Str) : Bool :=
  if parent = .r then !value.isEmpty else value.any fun c => (characterTag? c).isNone

/-- Does an edit put text that shows where this sign stands? -/
def Edit.putsText : Edit → Sign → Bool
  | .rewrite first _ value, .start parent element => element == first.element && showsIn parent value
  | .rewrite _ _ _, .stop _ => false
  | .insertRun anchor before value, .start _ element => before && element == anchor && !value.isEmpty
  | .insertRun anchor before value, .stop element => !before && element == anchor && !value.isEmpty

/-- No edit puts text on the side of a break where there is none. -/
def KeepsSides (children : Forest) (edits : List Edit) : Prop :=
  ∀ edit ∈ edits, ∀ sign, edit.putsText sign = true → ∀ parent element, element.isLayoutBreak = true →
    (Before sign (.start parent element) (signs children) → ¬ Precedes element children) ∧
      (Before (.start parent element) sign (signs children) → ¬ Follows element children)

section

variable {parent : Tag} {line : List Sign} {edit : Edit} {edits : List Edit} {sign new : Sign} {element : Element}

theorem signsFrom_flushPending (pending : Str) (next : Forest) : signsFrom parent (flushPending pending next) =
    (if pending.isEmpty then [] else [.start parent (textElement pending), .stop (textElement pending)]) ++ signsFrom parent next := by
  rw [flushPending]
  split
  next => rfl
  next =>
    rw [signsFrom_marked rfl]
    rfl

theorem showsText_textElement {pending : Str} (nonempty : pending ≠ []) : (Sign.start parent (textElement pending)).showsText = true := by
  simp [Sign.showsText, textElement, newElement, Element.isInlineItem, Element.itemText, nonempty]

theorem showsText_newElement {c : CodePoint} {tag : Tag} (isTag : characterTag? c = some tag) :
    (Sign.start parent (newElement tag)).showsText = decide (parent = .r) := by
  obtain ⟨isCharacter, notText⟩ := characterTag?_isInline isTag
  obtain ⟨character, isCharacter⟩ := Option.isSome_iff_exists.mp isCharacter
  have otherTag : (tag == .t) = false := beq_false_of_ne notText
  simp [Sign.showsText, newElement, Element.isInlineItem, Element.itemText, Element.isLayoutBreak, Element.get?, notText, otherTag, isCharacter]
  rfl

/-- Of new content, shows what stands in a text node, and in a run also tabs, breaks and hyphens. -/
theorem shows_inlineElementsFrom (pending value : Str) : (∃ new ∈ signsFrom parent (inlineElementsFrom pending value), new.showsText = true) ↔
    pending ≠ [] ∨ showsIn parent value = true := by
  -- what is pending shows as a text node of its own
  have flushed (pending : Str) (next : Forest) : (∃ new ∈ signsFrom parent (flushPending pending next), new.showsText = true) ↔
      pending ≠ [] ∨ ∃ new ∈ signsFrom parent next, new.showsText = true := by
    rw [signsFrom_flushPending]
    by_cases isEmpty : pending = []
    · simp [isEmpty]
    · have shows := @showsText_textElement parent pending isEmpty
      simp [isEmpty, shows]
  induction value generalizing pending with
  | nil =>
    rw [inlineElementsFrom, flushed]
    simp [signsFrom, showsIn]
  | cons c rest inductionHypothesis =>
    rw [inlineElementsFrom]
    split
    next isPlain =>
      have restIff := inductionHypothesis (pending ++ [c])
      simp only [restIff]
      simp [showsIn, isPlain]
    next tag isTag =>
      have isMarked : (newElement tag).tag.isMarked = true := by
        obtain ⟨isCharacter, -⟩ := characterTag?_isInline isTag
        refine isMarked_of_isInline ?_
        rw [Tag.isInline]
        simp [newElement, isCharacter]
      have restIff := inductionHypothesis []
      rw [flushed, signsFrom_marked isMarked]
      simp only [signsFrom, List.nil_append, List.exists_mem_cons_iff, showsText_newElement isTag, restIff]
      by_cases isRun : parent = .r
      · simp [showsIn, isRun]
      · simp [showsIn, isRun, isTag, Sign.showsText]

/-- What an edit makes of a sign of the template: the sign itself, or new content. -/
theorem onSign_shows (listed : new ∈ edit.onSign sign) (shows : new.showsText = true) : new = sign ∨ edit.putsText sign = true := by
  cases edit with
  | rewrite first rest value =>
    cases sign with
    | start parent element =>
      simp only [Edit.onSign, rewriteSign] at listed
      split at listed
      next isFirst =>
        have isShown := (shows_inlineElementsFrom [] value).mp ⟨new, listed, shows⟩
        right
        simpa [Edit.putsText, isFirst] using isShown
      next =>
        split at listed
        next => cases listed
        next => exact .inl (List.mem_singleton.mp listed)
    | stop element =>
      simp only [Edit.onSign, rewriteSign] at listed
      split at listed
      next => cases listed
      next => exact .inl (List.mem_singleton.mp listed)
  | insertRun anchor before value =>
    cases sign with
    | start parent element =>
      simp only [Edit.onSign, insertSign] at listed
      split at listed
      next isPlace =>
        rcases List.mem_append.mp listed with isNew | same
        · have isShown := (shows_inlineElementsFrom [] value).mp ⟨new, isNew, shows⟩
          right
          simpa [Edit.putsText, isPlace, showsIn] using isShown
        · exact .inl (List.mem_singleton.mp same)
      next => exact .inl (List.mem_singleton.mp listed)
    | stop element =>
      simp only [Edit.onSign, insertSign] at listed
      split at listed
      next isPlace =>
        rcases List.mem_cons.mp listed with same | isNew
        · exact .inl same
        · have isShown := (shows_inlineElementsFrom [] value).mp ⟨new, isNew, shows⟩
          right
          simpa [Edit.putsText, isPlace, showsIn] using isShown
      next => exact .inl (List.mem_singleton.mp listed)

/-- Where an edit puts text, some of it is new and shows. -/
theorem shows_onSign (puts : edit.putsText sign = true) : ∃ new ∈ edit.onSign sign, new.showsText = true ∧ new.isOwn = false := by
  have shown {parent : Tag} {value : Str} (shows : showsIn parent value = true) :
      ∃ new ∈ signsFrom parent (inlineElements value), new.showsText = true ∧ new.isOwn = false := by
    obtain ⟨new, listed, showsText⟩ := (shows_inlineElementsFrom [] value).mpr (.inr shows)
    refine ⟨new, listed, showsText, ?_⟩
    rw [Sign.isOwn, made_inlineElementsFrom [] value _ (element_mem listed)]
    rfl
  cases edit with
  | rewrite first rest value =>
    cases sign with
    | stop _ => cases puts
    | start parent element =>
      simp only [Edit.putsText, Bool.and_eq_true, beq_iff_eq] at puts
      obtain ⟨new, listed, shows⟩ := shown puts.2
      refine ⟨new, ?_, shows⟩
      rw [Edit.onSign, rewriteSign, if_pos puts.1]
      exact listed
  | insertRun anchor before value =>
    cases sign with
    | start parent element =>
      simp only [Edit.putsText, Bool.and_eq_true, beq_iff_eq] at puts
      obtain ⟨new, listed, shows⟩ := @shown .r value (by rw [showsIn, if_pos rfl]; exact puts.2)
      refine ⟨new, ?_, shows⟩
      rw [Edit.onSign, insertSign, if_pos puts.1]
      exact List.mem_append_left _ listed
    | stop element =>
      simp only [Edit.putsText, Bool.and_eq_true, beq_iff_eq, Bool.not_eq_true'] at puts
      obtain ⟨new, listed, shows⟩ := @shown .r value (by rw [showsIn, if_pos rfl, puts.2]; rfl)
      refine ⟨new, ?_, shows⟩
      rw [Edit.onSign, insertSign, if_pos puts.1]
      exact List.mem_cons_of_mem _ listed

/-! ## Signs through all edits -/

/-- The elements of a sign that an edit names are of the template. -/
theorem onSign_made (fits : edit.Fits line) (made : sign.isOwn = false) : edit.onSign sign = [sign] := by
  have other {element : Element} (own : element.identity.isOwn = true) : sign.element ≠ element := by
    rintro rfl
    rw [Sign.isOwn, own] at made
    cases made
  cases fits with
  | @rewrite first rest value areItems =>
    have notFirst := other (areItems _ List.mem_cons_self).own
    have notRest : sign.element ∉ rest.map Node.element := fun listed => other (areItems _ (List.mem_cons_of_mem _ listed)).own rfl
    cases sign with
    | start parent element =>
      simp only [Sign.element] at notFirst notRest
      rw [Edit.onSign, rewriteSign, if_neg notFirst, if_neg notRest]
    | stop element =>
      simp only [Sign.element] at notFirst notRest
      rw [Edit.onSign, rewriteSign, if_neg (not_or.mpr ⟨notFirst, notRest⟩)]
  | @insertRun anchor before value isAnchor =>
    have notAnchor := other isAnchor.own
    cases sign with
    | start parent element => rw [Edit.onSign, insertSign, if_neg fun isPlace => notAnchor isPlace.2]
    | stop element => rw [Edit.onSign, insertSign, if_neg fun isPlace => notAnchor isPlace.2]

theorem editedSign_made (fit : ∀ edit ∈ edits, edit.Fits line) (made : sign.isOwn = false) : editedSign edits sign = [sign] := by
  induction edits with
  | nil => rfl
  | cons edit edits inductionHypothesis =>
    obtain ⟨fits, fit⟩ := List.forall_mem_cons.mp fit
    rw [editedSign, onSign_made fits made, List.flatMap_singleton, inductionHypothesis fit]

theorem onSign_mem (listed : new ∈ edit.onSign sign) : new = sign ∨ new.isOwn = false := by
  by_cases own : new.isOwn = true
  · have inFilter := (onSign_own edit sign).subset (List.mem_filter.mpr ⟨listed, own⟩)
    exact .inl (List.mem_singleton.mp (List.mem_filter.mp inFilter).1)
  · exact .inr (Bool.eq_false_iff.mpr own)

/-- What shows on the edited line was there, or was put there by an edit. -/
theorem editedSign_shows (fit : ∀ edit ∈ edits, edit.Fits line) (listed : new ∈ editedSign edits sign) (shows : new.showsText = true) :
    new = sign ∨ ∃ edit ∈ edits, edit.putsText sign = true := by
  induction edits generalizing sign with
  | nil => exact .inl (List.mem_singleton.mp listed)
  | cons edit edits inductionHypothesis =>
    obtain ⟨fits, fit⟩ := List.forall_mem_cons.mp fit
    rw [editedSign] at listed
    obtain ⟨between, isBetween, inRest⟩ := List.mem_flatMap.mp listed
    rcases onSign_mem isBetween with rfl | made
    · rcases inductionHypothesis fit inRest with same | ⟨edit, isEdit, puts⟩
      · exact .inl same
      · exact .inr ⟨edit, List.mem_cons_of_mem _ isEdit, puts⟩
    · -- new content stays as it is through the other edits
      rw [editedSign_made fit made] at inRest
      obtain rfl := List.mem_singleton.mp inRest
      exact (onSign_shows isBetween shows).imp_right fun puts => ⟨edit, List.mem_cons_self, puts⟩

/-- No edit touches a break. -/
theorem editedSign_break (fit : ∀ edit ∈ edits, edit.Fits line) (isBreak : element.isLayoutBreak = true) :
    editedSign edits (.start parent element) = [.start parent element] := by
  have isTag : element.tag = .br := by
    simp only [Element.isLayoutBreak, Bool.and_eq_true, beq_iff_eq] at isBreak
    exact isBreak.1
  induction edits with
  | nil => rfl
  | cons edit edits inductionHypothesis =>
    obtain ⟨fits, fit⟩ := List.forall_mem_cons.mp fit
    have untouched : edit.onSign (.start parent element) = [.start parent element] := by
      cases fits with
      | @rewrite first rest value areItems =>
        have other {item : Element} (isItem : IsItem item) : element ≠ item := by
          rintro rfl
          rw [isItem.notBreak] at isBreak
          cases isBreak
        have notRest : element ∉ rest.map Node.element := fun listed => other (areItems _ (List.mem_cons_of_mem _ listed)) rfl
        rw [Edit.onSign, rewriteSign, if_neg (other (areItems _ List.mem_cons_self)), if_neg notRest]
      | @insertRun anchor before value isAnchor =>
        have notAnchor : element ≠ anchor := by
          rintro rfl
          have notInline := isAnchor.notInline
          rw [isTag] at notInline
          cases notInline
        rw [Edit.onSign, insertSign, if_neg fun isPlace => notAnchor isPlace.2]
    rw [editedSign, untouched, List.flatMap_singleton, inductionHypothesis fit]

/-- A sign stays where its element is not removed. -/
theorem mem_onSign (stays : sign.element ∉ edit.items) : sign ∈ edit.onSign sign := by
  cases edit with
  | rewrite first rest value =>
    simp only [Edit.items, List.mem_cons, not_or] at stays
    cases sign with
    | start parent element =>
      simp only [Sign.element] at stays
      rw [Edit.onSign, rewriteSign, if_neg stays.1, if_neg stays.2]
      exact List.mem_singleton_self _
    | stop element =>
      simp only [Sign.element] at stays
      rw [Edit.onSign, rewriteSign, if_neg (not_or.mpr stays)]
      exact List.mem_singleton_self _
  | insertRun anchor before value =>
    cases sign with
    | start parent element =>
      rw [Edit.onSign, insertSign]
      split
      · exact List.mem_append_right _ (List.mem_singleton_self _)
      · exact List.mem_singleton_self _
    | stop element =>
      rw [Edit.onSign, insertSign]
      split
      · exact List.mem_cons_self
      · exact List.mem_singleton_self _

/-- An edit that puts text at a sign is the one that removes it, or none does. -/
theorem putsText_place (fits : edit.Fits line) (puts : edit.putsText sign = true) :
    sign.element ∈ edit.items ∨ sign.element.tag.isInline = false := by
  cases fits with
  | @rewrite first rest value areItems =>
    cases sign with
    | stop _ => cases puts
    | start parent element =>
      simp only [Edit.putsText, Bool.and_eq_true, beq_iff_eq] at puts
      exact .inl (List.mem_cons.mpr (.inl puts.1))
  | @insertRun anchor before value isAnchor =>
    right
    cases sign with
    | start parent element =>
      simp only [Edit.putsText, Bool.and_eq_true, beq_iff_eq] at puts
      rw [show (Sign.start parent element).element = anchor from puts.1.2]
      exact isAnchor.notInline
    | stop element =>
      simp only [Edit.putsText, Bool.and_eq_true, beq_iff_eq] at puts
      rw [show (Sign.stop element).element = anchor from puts.1.2]
      exact isAnchor.notInline

theorem items_inline (fits : edit.Fits line) (listed : element ∈ edit.items) : element.tag.isInline = true := by
  cases fits with
  | rewrite areItems => exact (areItems element listed).isInline
  | insertRun _ => cases listed

/-- Where an edit puts text, text shows after all edits, as no two of them remove the same item. -/
theorem shows_editedSign (fit : ∀ edit ∈ edits, edit.Fits line) (apart : (edits.flatMap Edit.items).Nodup) (isEdit : edit ∈ edits)
    (puts : edit.putsText sign = true) : ∃ new ∈ editedSign edits sign, new.showsText = true := by
  induction edits with
  | nil => cases isEdit
  | cons first edits inductionHypothesis =>
    obtain ⟨fits, restFit⟩ := List.forall_mem_cons.mp fit
    rw [List.flatMap_cons, List.nodup_append] at apart
    obtain ⟨-, apart, disjoint⟩ := apart
    rcases List.mem_cons.mp isEdit with rfl | later
    · obtain ⟨new, listed, shows, made⟩ := shows_onSign puts
      have isSame : new ∈ editedSign edits new := by
        rw [editedSign_made restFit made]
        exact List.mem_singleton_self new
      exact ⟨new, List.mem_flatMap.mpr ⟨new, listed, isSame⟩, shows⟩
    · have stays : sign.element ∉ first.items := by
        intro removed
        rcases putsText_place (restFit edit later) puts with isItem | notInline
        · exact disjoint _ removed _ (List.mem_flatMap.mpr ⟨edit, later, isItem⟩) rfl
        · rw [items_inline fits removed] at notInline
          cases notInline
      obtain ⟨new, listed, shows⟩ := inductionHypothesis restFit apart later
      exact ⟨new, List.mem_flatMap.mpr ⟨sign, mem_onSign stays, listed⟩, shows⟩

/-- New content holds no page or column break. -/
theorem notBreak_inlineElementsFrom (pending value : Str) :
    ∀ element ∈ (inlineElementsFrom pending value).elements, element.isLayoutBreak = false := by
  have flushed (pending : Str) {next : Forest} (plain : ∀ element ∈ next.elements, element.isLayoutBreak = false) :
      ∀ element ∈ (flushPending pending next).elements, element.isLayoutBreak = false := by
    rw [flushPending]
    split
    next => exact plain
    next => exact List.forall_mem_cons.mpr ⟨rfl, plain⟩
  induction value generalizing pending with
  | nil => exact flushed pending (List.forall_mem_nil _)
  | cons c rest inductionHypothesis =>
    rw [inlineElementsFrom]
    split
    next => exact inductionHypothesis _
    next tag _ =>
      have notBreak : (newElement tag).isLayoutBreak = false := by simp [Element.isLayoutBreak, newElement, Element.get?]
      exact flushed pending (List.forall_mem_cons.mpr ⟨notBreak, inductionHypothesis []⟩)

theorem onSign_break (listed : new ∈ edit.onSign sign) (isBreak : new.element.isLayoutBreak = true) : new = sign := by
  have notNew {parent : Tag} {value : Str} (isNew : new ∈ signsFrom parent (inlineElements value)) : False := by
    rw [notBreak_inlineElementsFrom [] value _ (element_mem isNew)] at isBreak
    cases isBreak
  cases edit with
  | rewrite first rest value =>
    cases sign with
    | start parent element =>
      simp only [Edit.onSign, rewriteSign] at listed
      split at listed
      next => exact (notNew listed).elim
      next =>
        split at listed
        next => cases listed
        next => exact List.mem_singleton.mp listed
    | stop element =>
      simp only [Edit.onSign, rewriteSign] at listed
      split at listed
      next => cases listed
      next => exact List.mem_singleton.mp listed
  | insertRun anchor before value =>
    cases sign with
    | start parent element =>
      simp only [Edit.onSign, insertSign] at listed
      split at listed
      next => exact List.mem_singleton.mp ((List.mem_append.mp listed).resolve_left notNew)
      next => exact List.mem_singleton.mp listed
    | stop element =>
      simp only [Edit.onSign, insertSign] at listed
      split at listed
      next => exact (List.mem_cons.mp listed).resolve_right notNew
      next => exact List.mem_singleton.mp listed

theorem editedSign_isBreak (listed : new ∈ editedSign edits sign) (isBreak : new.element.isLayoutBreak = true) : new = sign := by
  induction edits generalizing sign with
  | nil => exact List.mem_singleton.mp listed
  | cons edit edits inductionHypothesis =>
    rw [editedSign] at listed
    obtain ⟨between, isBetween, inRest⟩ := List.mem_flatMap.mp listed
    obtain rfl := inductionHypothesis inRest
    exact onSign_break isBetween isBreak

end

/-! ## The patched paragraph -/

section

variable {children : Forest} {edits : List Edit} {patched : Forest} {parent : Tag} {element : Element} {sign : Sign}

theorem node_of_start (started : .start parent element ∈ signs children) :
    ∃ node ∈ ownNodes children, node.parent = parent ∧ node.element = element := by
  have isStart := mem_start.mp started
  rw [starts_eq_nodes] at isStart
  obtain ⟨node, listed, isNode⟩ := List.mem_filterMap.mp isStart
  exact ⟨node, listed, of_start?_eq_some isNode⟩

/-- What stands before a break of the edited line comes of what stood before it. -/
theorem before_edited {fit : ∀ edit ∈ edits, edit.Fits (signs children)} (isLine : signs patched = (signs children).flatMap (editedSign edits))
    (isBreak : element.isLayoutBreak = true) : Before sign (.start parent element) (signs patched) ↔
      ∃ old, Before old (.start parent element) (signs children) ∧ sign ∈ editedSign edits old := by
  rw [isLine, before_flatMap]
  constructor
  · rintro (⟨old, -, before⟩ | ⟨old, other, before, listed, isStart⟩)
    · obtain rfl := editedSign_isBreak before.mem.2 isBreak
      rw [editedSign_break fit isBreak] at before
      rcases before with ⟨-, impossible⟩ | impossible <;> cases impossible
    · obtain rfl := editedSign_isBreak isStart isBreak
      exact ⟨old, before, listed⟩
  · rintro ⟨old, before, listed⟩
    refine .inr ⟨old, _, before, listed, ?_⟩
    rw [editedSign_break fit isBreak]
    exact List.mem_singleton_self _

theorem behind_edited {fit : ∀ edit ∈ edits, edit.Fits (signs children)} (isLine : signs patched = (signs children).flatMap (editedSign edits))
    (isBreak : element.isLayoutBreak = true) : Before (.start parent element) sign (signs patched) ↔
      ∃ old, Before (.start parent element) old (signs children) ∧ sign ∈ editedSign edits old := by
  rw [isLine, before_flatMap]
  constructor
  · rintro (⟨old, -, behind⟩ | ⟨other, old, behind, isStart, listed⟩)
    · obtain rfl := editedSign_isBreak behind.mem.1 isBreak
      rw [editedSign_break fit isBreak] at behind
      rcases behind with ⟨-, impossible⟩ | impossible <;> cases impossible
    · obtain rfl := editedSign_isBreak isStart isBreak
      exact ⟨old, behind, listed⟩
  · rintro ⟨old, behind, listed⟩
    refine .inr ⟨_, old, behind, ?_, listed⟩
    rw [editedSign_break fit isBreak]
    exact List.mem_singleton_self _

/-- The breaks keep their sides where every edit does. -/
theorem BreaksKept.ofSides (distinct : ((ownNodes children).map Node.element).Nodup) (noInterior : hasInteriorLayoutBreak children = false)
    (fit : ∀ edit ∈ edits, edit.Fits (signs children)) (isLine : signs patched = (signs children).flatMap (editedSign edits))
    (keepsSides : KeepsSides children edits) : BreaksKept children patched := by
  have precedes {element : Element} (isBreak : element.isLayoutBreak = true) (precedes : Precedes element children) :
      Precedes element patched := by
    refine (precedes_iff isBreak).mpr fun sign parent onLine => ?_
    by_contra shows
    rw [Bool.not_eq_false] at shows
    obtain ⟨old, before, listed⟩ := (@before_edited _ _ _ _ _ _ fit isLine isBreak).mp onLine
    rcases editedSign_shows fit listed shows with rfl | ⟨edit, isEdit, puts⟩
    · rw [(precedes_iff isBreak).mp precedes _ _ before] at shows
      cases shows
    · exact (keepsSides edit isEdit old puts parent element isBreak).1 before precedes
  have follows {element : Element} (isBreak : element.isLayoutBreak = true) (follows : Follows element children) :
      Follows element patched := by
    refine (follows_iff isBreak).mpr fun sign parent onLine => ?_
    by_contra shows
    rw [Bool.not_eq_false] at shows
    obtain ⟨old, behind, listed⟩ := (@behind_edited _ _ _ _ _ _ fit isLine isBreak).mp onLine
    rcases editedSign_shows fit listed shows with rfl | ⟨edit, isEdit, puts⟩
    · rw [(follows_iff isBreak).mp follows _ _ behind] at shows
      cases shows
    · exact (keepsSides edit isEdit old puts parent element isBreak).2 behind follows
  refine ⟨fun node listed isBreak => ?_, fun _ _ isBreak => precedes isBreak, fun _ _ isBreak => follows isBreak, ?_⟩
  · have started := start_of_node listed (isMarked_of_isLayoutBreak isBreak)
    have stays : .start node.parent node.element ∈ signs patched := by
      rw [isLine]
      refine List.mem_flatMap.mpr ⟨_, started, ?_⟩
      rw [editedSign_break fit isBreak]
      exact List.mem_singleton_self _
    obtain ⟨other, isOther, -, same⟩ := node_of_start stays
    exact ⟨other, isOther, same⟩
  · -- a break with text on both sides would be one of the template, with all text on one side there
    by_contra interior
    rw [Bool.not_eq_false, hasInteriorLayoutBreak_iff] at interior
    obtain ⟨left, node, right, isSplit, isBreak, ⟨text, isLeft, shows⟩, later, isRight, showsLater⟩ := interior
    rcases sides_of_break distinct noInterior isBreak with isBefore | isBehind
    · have before : Before text node (ownNodes patched) := by
        rw [isSplit]
        exact before_append.mpr (.inr (.inl ⟨isLeft, List.mem_cons_self⟩))
      rw [precedes isBreak isBefore text node before rfl] at shows
      cases shows
    · have behind : Before node later (ownNodes patched) := by
        rw [isSplit]
        exact before_append.mpr (.inr (.inr (.inl ⟨rfl, isRight⟩)))
      rw [follows isBreak isBehind node later behind rfl] at showsLater
      cases showsLater

/-- Where the breaks keep their sides, no edit put text on the other side of one. -/
theorem BreaksKept.sides (fit : ∀ edit ∈ edits, edit.Fits (signs children)) (apart : (edits.flatMap Edit.items).Nodup)
    (isLine : signs patched = (signs children).flatMap (editedSign edits)) (kept : BreaksKept children patched) : KeepsSides children edits := by
  intro edit isEdit sign puts parent element isBreak
  obtain ⟨new, listed, shows⟩ := shows_editedSign fit apart isEdit puts
  constructor
  · intro before precedes
    obtain ⟨node, isNode, -, rfl⟩ := node_of_start before.mem.2
    have inFront := (@before_edited _ _ _ _ _ _ fit isLine isBreak).mpr ⟨sign, before, listed⟩
    rw [(precedes_iff isBreak).mp (kept.precedes node isNode isBreak precedes) _ _ inFront] at shows
    cases shows
  · intro behind follows
    obtain ⟨node, isNode, -, rfl⟩ := node_of_start behind.mem.1
    have after := (@behind_edited _ _ _ _ _ _ fit isLine isBreak).mpr ⟨sign, behind, listed⟩
    rw [(follows_iff isBreak).mp (kept.follows node isNode isBreak follows) _ _ after] at shows
    cases shows

end

/-! ## Every paragraph of an extracted document -/

/-- The new text finds a place in the paragraph, and no page or column break changes its side by it. -/
structure TextKeepsSides (isHyperlinkInstruction : Str → Bool) (children : Forest) (text : Str) : Prop where
  place : ∀ layout, paragraphLayout isHyperlinkInstruction children = some layout → layout.items = [] → text = []
  sides : ∀ layout edits, paragraphLayout isHyperlinkInstruction children = some layout → paragraphEdits layout text = .ok edits →
    KeepsSides children edits

section

variable {isHyperlinkInstruction : Str → Bool} {relationships : List Str} {document : DocumentPart}
  {parsed : List (Paragraph × DocxBlock)} {candidates : List ReplacementCandidate} {validated : List DocxReplacement}
  {paragraph : Paragraph} {block : DocxBlock} {replacement : DocxReplacement}

end

/-! ## A break next to an empty text node -/

def pageBreak : Element := ⟨.own 6, .br, [(breakType, str "page")], [], []⟩

def ownText (number : Nat) (text : Str) : Element := ⟨.own number, .t, [], text, []⟩

/-- A paragraph of one run, with a page break between two text nodes. -/
def breakParagraph (first second : Str) : Paragraph where
  inTableCell := false
  element := ⟨.own 3, .p, [], [], []⟩
  children := .node ⟨.own 4, .r, [], [], []⟩
    (.node (ownText 5 first) .nil (.node pageBreak .nil (.node (ownText 7 second) .nil .nil))) .nil

def breakDocument (first second : Str) : DocumentPart where
  root := ⟨.own 1, .other (str "document"), [], [], []⟩
  children := .node ⟨.own 2, .body, [], [], []⟩
    (.node (breakParagraph first second).element (breakParagraph first second).children .nil) .nil
  beside := 0

theorem signs_breakParagraph (first second : Str) : signs (breakParagraph first second).children =
    [.start .r (ownText 5 first), .stop (ownText 5 first), .start .r pageBreak, .stop pageBreak, .start .r (ownText 7 second),
      .stop (ownText 7 second)] := rfl

end Oveo.Docx
