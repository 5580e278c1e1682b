import Oveo.Docx.Changes
import Oveo.Docx.Rewritten

/-! # What edits do not bring

Edits put in text nodes, characters and runs, and copy the properties of runs.  A node of any other kind has the
place of a node the paragraph had before. -/

namespace Oveo.Docx

open Oveo.Lib

/-! ## Nodes and their places -/

section

variable {forest children : Forest} {ancestors : List Tag} {holds : Element → Bool} {node : Node}

/-- A property that new elements lack, and that depends on more than the identity. -/
structure Foreign (holds : Element → Bool) : Prop where
  same : ∀ element identity, holds { element with identity := identity } = holds element
  noRun : ∀ run : Element, run.tag = .r → holds run = false
  notNew : ∀ ancestors value, ∀ node ∈ contentNodes ancestors value, holds node.element = false

/-- Each node with the property stands where one did before. -/
def Inherits (holds : Element → Bool) (before after : List Node) : Prop :=
  ∀ node ∈ after, holds node.element = true → ∃ other ∈ before, holds other.element = true ∧ other.ancestors = node.ancestors

theorem Inherits.append {before after before' after' : List Node} (first : Inherits holds before after) (second : Inherits holds before' after') :
    Inherits holds (before ++ before') (after ++ after') := by
  intro node listed isHeld
  rcases List.mem_append.mp listed with left | right
  · obtain ⟨other, isOther, held⟩ := first node left isHeld
    exact ⟨other, List.mem_append_left _ isOther, held⟩
  · obtain ⟨other, isOther, held⟩ := second node right isHeld
    exact ⟨other, List.mem_append_right _ isOther, held⟩

theorem Inherits.cons {before after : List Node} {other : Node} (sameHolds : holds node.element = holds other.element)
    (samePlace : other.ancestors = node.ancestors) (rest : Inherits holds before after) : Inherits holds (other :: before) (node :: after) := by
  intro found listed isHeld
  rcases List.mem_cons.mp listed with rfl | later
  · exact ⟨other, List.mem_cons_self, sameHolds ▸ isHeld, samePlace⟩
  · obtain ⟨origin, isOrigin, held⟩ := rest found later isHeld
    exact ⟨origin, List.mem_cons_of_mem _ isOrigin, held⟩

theorem Inherits.skip {before after : List Node} (notHeld : holds node.element = false) (rest : Inherits holds before after) :
    Inherits holds before (node :: after) := by
  intro found listed isHeld
  rcases List.mem_cons.mp listed with rfl | later
  · rw [notHeld] at isHeld
    cases isHeld
  · exact rest found later isHeld

theorem Inherits.mono {before more after : List Node} (subset : before ⊆ more) (inherits : Inherits holds before after) : Inherits holds more after := by
  intro node listed isHeld
  obtain ⟨other, isOther, held⟩ := inherits node listed isHeld
  exact ⟨other, subset isOther, held⟩

theorem Inherits.refl (nodes : List Node) : Inherits holds nodes nodes := fun node listed isHeld => ⟨node, listed, isHeld, rfl⟩

theorem Inherits.nil (before : List Node) : Inherits holds before [] := fun _ listed => by cases listed

theorem Inherits.trans {before between after : List Node} (first : Inherits holds before between) (second : Inherits holds between after) :
    Inherits holds before after := by
  intro node listed isHeld
  obtain ⟨other, isOther, held, samePlace⟩ := second node listed isHeld
  obtain ⟨origin, isOrigin, originHeld, place⟩ := first other isOther held
  exact ⟨origin, isOrigin, originHeld, place.trans samePlace⟩

theorem Inherits.content (foreign : Foreign holds) (before : List Node) (ancestors : List Tag) (value : Str) :
    Inherits holds before (ownFrom ancestors (inlineElements value)) := by
  intro node listed isHeld
  rw [foreign.notNew ancestors value node listed] at isHeld
  cases isHeld

theorem Inherits.below {before after : List Node} (tag : Tag) (inherits : Inherits holds before after) :
    Inherits holds (if tag = .p then [] else before) (if tag = .p then [] else after) := by
  split
  next => exact .nil _
  next => exact inherits

theorem Inherits.copy (foreign : Foreign holds) (ancestors : List Tag) (forest : Forest) :
    Inherits holds (ownFrom ancestors forest) (ownFrom ancestors forest.copy) := by
  induction forest generalizing ancestors with
  | nil => exact .nil _
  | node element children next childrenHypothesis nextHypothesis =>
    rw [Forest.copy, ownFrom, ownFrom]
    exact .cons (foreign.same element .made) rfl (.append (.below element.tag (childrenHypothesis _)) (nextHypothesis ancestors))

theorem Inherits.copiedProperties (foreign : Foreign holds) (ancestors : List Tag) (forest : Forest) :
    Inherits holds (ownFrom ancestors forest) (ownFrom ancestors forest.copiedProperties) := by
  induction forest with
  | nil => exact .nil _
  | node element children next _ inductionHypothesis =>
    rw [Forest.copiedProperties, ownFrom]
    by_cases isProperties : element.tag = .rPr
    · rw [if_pos isProperties, ownFrom]
      exact .cons (foreign.same element .made) rfl (.append (.below element.tag (.copy foreign _ children)) (.nil _))
    · rw [if_neg isProperties]
      exact inductionHypothesis.mono (List.subset_cons_of_subset _ (List.subset_append_right _ _))

theorem Inherits.rewrite (foreign : Foreign holds) (first : Element) (rest : List Element) (value : Str) (ancestors : List Tag) (forest : Forest) :
    Inherits holds (ownFrom ancestors forest) (ownFrom ancestors (Forest.rewrite first rest (inlineElements value) forest)) := by
  induction forest generalizing ancestors with
  | nil => exact .nil _
  | node element children next childrenHypothesis nextHypothesis =>
    rw [Forest.rewrite, ownFrom]
    have later := (nextHypothesis ancestors).mono (List.subset_cons_of_subset ⟨ancestors, element, children⟩
      (List.subset_append_right (if element.tag = .p then [] else ownFrom (element.tag :: ancestors) children) _))
    by_cases isFirst : element = first
    · rw [if_pos isFirst, ownFrom_append]
      exact Inherits.append (Inherits.content foreign [] ancestors value) later
    · rw [if_neg isFirst]
      by_cases isRest : element ∈ rest
      · rw [if_pos isRest]
        exact later
      · rw [if_neg isRest, ownFrom]
        exact .cons rfl rfl (.append (.below element.tag (childrenHypothesis _)) (nextHypothesis ancestors))

/-- A new run brings nothing. -/
theorem Inherits.newRun (foreign : Foreign holds) (value : Str) {before : List Node} {next : Forest}
    (rest : Inherits holds before (ownFrom ancestors next)) :
    Inherits holds before (ownFrom ancestors (.node (newElement .r) (inlineElements value) next)) := by
  rw [ownFrom, if_neg (by decide)]
  exact .skip (foreign.noRun _ rfl) (.append (Inherits.content foreign [] _ value) rest)

theorem Inherits.insertBeside (foreign : Foreign holds) (anchor : Element) (before : Bool) (value : Str) (ancestors : List Tag) (forest : Forest) :
    Inherits holds (ownFrom ancestors forest) (ownFrom ancestors (Forest.insertBeside anchor before (inlineElements value) forest)) := by
  induction forest generalizing ancestors with
  | nil => exact .nil _
  | node element children next childrenHypothesis nextHypothesis =>
    have whole (rest : Forest) (isRest : Inherits holds (ownFrom ancestors next) (ownFrom ancestors rest)) :
        Inherits holds (ownFrom ancestors (.node element children next))
          (ownFrom ancestors (.node element (Forest.insertBeside anchor before (inlineElements value) children) rest)) := by
      rw [ownFrom, ownFrom]
      exact .cons rfl rfl (.append (.below element.tag (childrenHypothesis _)) isRest)
    rw [Forest.insertBeside]
    split_ifs
    · exact .newRun foreign value (whole _ (nextHypothesis ancestors))
    · exact whole _ (.newRun foreign value (nextHypothesis ancestors))
    · exact whole _ (nextHypothesis ancestors)

theorem Inherits.insertAtField (foreign : Foreign holds) (anchor : Element) (before : Bool) (value : Str) (ancestors : List Tag)
    (forest : Forest) :
    Inherits holds (ownFrom ancestors forest) (ownFrom ancestors (Forest.insertAtField anchor before (inlineElements value) forest)) := by
  induction forest generalizing ancestors with
  | nil => exact .nil _
  | node element children next childrenHypothesis nextHypothesis =>
    rw [Forest.insertAtField]
    split
    next =>
      rw [ownFrom, ownFrom]
      exact .cons rfl rfl (.append (.below element.tag (childrenHypothesis _)) (nextHypothesis ancestors))
    next preceding following here =>
      obtain ⟨isRun, found⟩ := Option.ite_none_right_eq_some.mp here
      obtain rfl := breakAt_append found
      have notParagraph : element.tag ≠ .p := by rw [isRun]; decide
      -- both halves of the run hold what it held, and the second one its properties once more
      have halves {first second : Forest} (isSplit : preceding.append following = first.append second) :
          Inherits holds (ownFrom ancestors (.node element (preceding.append following) next)) (ownFrom ancestors (.node element first
            (.node (newElement .r) (inlineElements value) (Forest.remainder element (preceding.append following) second next)))) := by
        rw [ownFrom, ownFrom, if_neg notParagraph, if_neg notParagraph, isRun]
        have isFirst : Inherits holds (ownFrom (.r :: ancestors) (preceding.append following)) (ownFrom (.r :: ancestors) first) := by
          rw [isSplit, ownFrom_append]
          exact (Inherits.refl _).mono (List.subset_append_left _ _)
        have isSecond : Inherits holds (ownFrom (.r :: ancestors) (preceding.append following))
            (ownFrom (.r :: ancestors) ((preceding.append following).copiedProperties.append second)) := by
          rw [ownFrom_append (preceding.append following).copiedProperties]
          intro node listed isHeld
          rcases List.mem_append.mp listed with isCopy | inSecond
          · exact Inherits.copiedProperties foreign _ _ node isCopy isHeld
          · refine ⟨node, ?_, isHeld, rfl⟩
            rw [isSplit, ownFrom_append]
            exact List.mem_append_right _ inSecond
        refine .cons rfl rfl ?_
        intro node listed isHeld
        rcases List.mem_append.mp listed with inFirst | later
        · obtain ⟨other, isOther, held⟩ := isFirst node inFirst isHeld
          exact ⟨other, List.mem_append_left _ isOther, held⟩
        · refine Inherits.newRun foreign value ?_ node later isHeld
          rw [Forest.remainder, ownFrom, if_neg (by exact fun impossible => by cases impossible)]
          exact .skip (foreign.noRun _ rfl) (.append isSecond (Inherits.refl _))
      cases before with
      | true =>
        simp only [if_true]
        split
        next => exact .newRun foreign value (Inherits.refl _)
        next => exact halves rfl
      | false =>
        simp only [Bool.false_eq_true, if_false]
        split
        next => exact Inherits.refl _
        next =>
          rw [ownFrom, ownFrom, if_neg notParagraph]
          exact .cons rfl rfl (.append (Inherits.refl _) (.newRun foreign value (Inherits.refl _)))
        next =>
          refine halves ?_
          rw [Forest.append_assoc]
          rfl

theorem Inherits.run (foreign : Foreign holds) (edits : List Edit) (forest : Forest) :
    Inherits holds (ownNodes forest) (ownNodes (edits.foldl Edit.apply forest)) := by
  induction edits generalizing forest with
  | nil => exact .refl _
  | cons edit edits inductionHypothesis =>
    refine Inherits.trans ?_ (inductionHypothesis (edit.apply forest))
    cases edit with
    | rewrite first rest value => exact .rewrite foreign _ _ value [] forest
    | insertRun anchor before value =>
      rw [Edit.apply]
      split
      next => exact .insertAtField foreign anchor before value [] forest
      next => exact .insertBeside foreign anchor before value [] forest

/-! ## Page breaks and hyperlinks -/

theorem foreign_layoutBreak : Foreign Element.isLayoutBreak where
  same _ _ := rfl
  noRun run isRun := by
    rw [Element.isLayoutBreak, isRun]
    rfl
  notNew _ _ _ listed := (mem_contentNodes listed).2.2.2.2

theorem foreign_hyperlink : Foreign fun element => element.tag == .hyperlink where
  same _ _ := rfl
  noRun run isRun := by
    rw [isRun]
    rfl
  notNew ancestors value node listed := by
    have isInline := (mem_contentNodes listed).2.2.2.1
    refine beq_false_of_ne fun isLink => ?_
    rw [isLink] at isInline
    cases isInline

/-- Edits bring no page or column break. -/
theorem noBreak_run (edits : List Edit) (noBreak : ∀ node ∈ ownNodes forest, node.element.isLayoutBreak = false) :
    ∀ node ∈ ownNodes (edits.foldl Edit.apply forest), node.element.isLayoutBreak = false := by
  intro node listed
  by_contra isBreak
  rw [Bool.not_eq_false] at isBreak
  obtain ⟨other, isOther, isHeld, -⟩ := Inherits.run foreign_layoutBreak edits forest node listed isBreak
  rw [noBreak other isOther] at isHeld
  cases isHeld

theorem interiorBreakFrom_of_none {nodes : List Node} (noBreak : ∀ node ∈ nodes, node.element.isLayoutBreak = false) (textSeen : Bool) :
    interiorBreakFrom textSeen false nodes = false := by
  induction nodes generalizing textSeen with
  | nil => rfl
  | cons node nodes inductionHypothesis =>
    obtain ⟨notBreak, noBreak⟩ := List.forall_mem_cons.mp noBreak
    rw [interiorBreakFrom, if_neg (by simp [notBreak])]
    simp only [Bool.false_eq_true, if_false, inductionHypothesis noBreak, ite_self]

/-- The hyperlinks of the paragraph are children of it. -/
def LinksOnTop (children : Forest) : Prop := ∀ node ∈ ownNodes children, node.element.tag = .hyperlink → node.ancestors = []

theorem LinksOnTop.run (edits : List Edit) (onTop : LinksOnTop forest) : LinksOnTop (edits.foldl Edit.apply forest) := by
  intro node listed isLink
  obtain ⟨other, isOther, isHeld, samePlace⟩ := Inherits.run foreign_hyperlink edits forest node listed (beq_iff_eq.mpr isLink)
  rw [← samePlace]
  exact onTop other isOther (beq_iff_eq.mp isHeld)

end

end Oveo.Docx
