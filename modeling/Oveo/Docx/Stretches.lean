import Mathlib.Data.List.Flatten
import Mathlib.Data.List.Perm.Basic
import Oveo.Docx.Accepted

/-! # Stretches of a paragraph

The items of a layout in the stretches that are rewritten as a whole, with the text each of them gets.  An item
belongs to one stretch only, and an item inside another belongs to the same. -/

namespace Oveo.Docx

open Oveo.Lib

/-! ## Stretches and their texts -/

/-- The plain stretches, and the results of the links. -/
def Layout.stretches (layout : Layout) : List (List Node) := layout.plain ++ layout.links.map Link.items

/-- Each stretch with its new text. -/
def Layout.rewrites (layout : Layout) (plains : List Str) (displays : List (Str × Str)) : List (List Node × Str) :=
  layout.plain.zip plains ++ (layout.links.map Link.items).zip (displays.map Prod.snd)

/-- The items of the stretches whose text changes. -/
def changedItems (rewrites : List (List Node × Str)) : List Element :=
  rewrites.flatMap fun entry => if textOf entry.1 = entry.2 then [] else entry.1.map Node.element

/-- The items of the stretches whose text stays. -/
def unchangedItems (rewrites : List (List Node × Str)) : List Element :=
  rewrites.flatMap fun entry => if textOf entry.1 = entry.2 then entry.1.map Node.element else []

/-- The elements that an edit removes. -/
def Edit.items : Edit → List Element
  | .rewrite first rest _ => first.element :: rest.map Node.element
  | .insertRun _ _ _ => []

section

variable {isHyperlinkInstruction : Str → Bool} {children : Forest} {layout : Layout} {text : Str} {edits : List Edit}

theorem items_rewriteItems (items : List Node) (value : Str) :
    (rewriteItems items value).flatMap Edit.items = changedItems [(items, value)] := by
  rw [changedItems, List.flatMap_singleton]
  cases items with
  | nil => simp [rewriteItems]
  | cons first rest =>
    rw [rewriteItems]
    split
    next => rfl
    next => exact List.flatMap_singleton _ _

theorem items_insertPlainRun (anchor : Element) (before : Bool) (value : Str) : (insertPlainRun anchor before value).flatMap Edit.items = [] := by
  rw [insertPlainRun]
  split <;> rfl

theorem changedItems_nil (value : Str) : changedItems [([], value)] = [] := by simp [changedItems]

theorem changedItems_append (first second : List (List Node × Str)) : changedItems (first ++ second) = changedItems first ++ changedItems second :=
  List.flatMap_append

theorem items_plainEdits {parts : List (List Node × Link)} {last : List Node} {behind : Option Link} {values : List Str}
    (areEdits : plainEdits behind last parts values = .ok edits) :
    edits.flatMap Edit.items = changedItems ((parts.map Prod.fst ++ [last]).zip values) := by
  induction parts generalizing behind values edits with
  | nil =>
    match values with
    | [] => cases areEdits
    | _ :: _ :: _ => cases areEdits
    | [value] =>
      simp only [plainEdits] at areEdits
      rw [List.map_nil, List.nil_append, List.zip_cons_cons, List.zip_nil_left]
      split at areEdits
      next noItems =>
        rw [List.isEmpty_iff.mp noItems, changedItems_nil]
        split at areEdits
        next link =>
          cases areEdits
          exact items_insertPlainRun _ _ _
        next =>
          split at areEdits
          next =>
            cases areEdits
            rfl
          next => cases areEdits
      next =>
        cases areEdits
        exact items_rewriteItems last value
  | cons part parts inductionHypothesis =>
    obtain ⟨items, link⟩ := part
    cases values with
    | nil => cases areEdits
    | cons value values =>
      rw [plainEdits] at areEdits
      obtain ⟨rest, isRest, areEdits⟩ := ok_bind_iff.mp areEdits
      cases areEdits
      have front : (if items.isEmpty then insertPlainRun link.start true value else rewriteItems items value).flatMap Edit.items =
          changedItems [(items, value)] := by
        split
        next noItems => rw [items_insertPlainRun, List.isEmpty_iff.mp noItems, changedItems_nil]
        next => exact items_rewriteItems items value
      rw [List.flatMap_append, inductionHypothesis isRest, front, ← changedItems_append]
      rfl

theorem items_displayEdits {links : List Link} {displays : List (Str × Str)} (areEdits : displayEdits links displays = .ok edits) :
    edits.flatMap Edit.items = changedItems ((links.map Link.items).zip (displays.map Prod.snd)) := by
  induction links generalizing displays edits with
  | nil =>
    cases areEdits
    rfl
  | cons link links inductionHypothesis =>
    cases displays with
    | nil =>
      cases areEdits
      rfl
    | cons display displays =>
      obtain ⟨id, display⟩ := display
      rw [displayEdits, ite_error_eq_ok] at areEdits
      obtain ⟨rest, isRest, areEdits⟩ := ok_bind_iff.mp areEdits.2
      cases areEdits
      rw [List.flatMap_append, inductionHypothesis isRest, items_rewriteItems, ← changedItems_append]
      rfl

/-- What the edits of a paragraph remove are the items of its changed stretches. -/
theorem items_paragraphEdits (areEdits : paragraphEdits layout text = .ok edits) : ∃ plains displays, linkParts text = .ok (plains, displays) ∧
    edits.flatMap Edit.items = changedItems (layout.rewrites plains displays) := by
  simp only [paragraphEdits, throw_bind, ite_error_eq_ok, ok_bind_iff, pure_eq_ok, Except.ok.injEq, Prod.exists] at areEdits
  obtain ⟨plains, displays, isParts, -, plain, isPlain, display, isDisplay, rfl⟩ := areEdits
  refine ⟨plains, displays, isParts, ?_⟩
  rw [List.flatMap_append, items_plainEdits isPlain, items_displayEdits isDisplay, Layout.rewrites, changedItems_append, Layout.plain]

/-! ## Every item once -/

theorem elements_ownFrom (ancestors : List Tag) (forest : Forest) : ((ownFrom ancestors forest).map Node.element).Sublist forest.elements := by
  induction forest generalizing ancestors with
  | nil => exact List.Sublist.refl _
  | node element children next childrenHypothesis nextHypothesis =>
    rw [ownFrom, List.map_cons, List.map_append, Forest.elements]
    refine List.Sublist.cons_cons element (List.Sublist.append ?_ (nextHypothesis ancestors))
    split
    · exact List.nil_sublist _
    · exact childrenHypothesis _

theorem nodup_ownNodes (isTemplate : IsTemplate children) : ((ownNodes children).map Node.element).Nodup :=
  (elements_ownFrom [] children).nodup (List.Nodup.of_map _ isTemplate.distinct)

theorem items_sublist (isLayout : paragraphLayout isHyperlinkInstruction children = some layout) : layout.items.Sublist (ownNodes children) := by
  rw [layout_items isLayout, ownNodes_eq_flatMap]
  induction children.nodes with
  | nil => exact List.Sublist.refl _
  | cons child nodes inductionHypothesis =>
    rw [List.flatMap_cons, List.flatMap_cons]
    refine List.Sublist.append ?_ inductionHypothesis
    rw [shownItems]
    split
    · exact List.nil_sublist _
    · exact List.filter_sublist

/-- The stretches hold the layout's items, in another order. -/
theorem stretches_perm (layout : Layout) : layout.stretches.flatten.Perm layout.items := by
  have isLinks : layout.links.flatMap Link.items = layout.parts.flatMap fun part => part.2.items := List.flatMap_map _ _ _
  have isPlain : layout.plain.flatten = layout.parts.flatMap Prod.fst ++ layout.last := by
    rw [Layout.plain, List.flatten_append, List.flatten_singleton, List.flatMap_def]
  rw [Layout.stretches, List.flatten_append, ← List.flatMap_def, isLinks, isPlain, Layout.items]
  refine List.Perm.trans ?_ ((List.flatMap_append_perm layout.parts Prod.fst fun part => part.2.items).append_right layout.last)
  rw [List.append_assoc, List.append_assoc]
  exact List.perm_append_comm.append_left _

theorem nodup_stretches (isTemplate : IsTemplate children) (isLayout : paragraphLayout isHyperlinkInstruction children = some layout) :
    (layout.stretches.flatten.map Node.element).Nodup := by
  have distinct : (layout.items.map Node.element).Nodup := ((items_sublist isLayout).map Node.element).nodup (nodup_ownNodes isTemplate)
  exact ((stretches_perm layout).map Node.element).nodup_iff.mpr distinct

theorem map_fst_zip_sublist {α β : Type} (entries : List α) (values : List β) : ((entries.zip values).map Prod.fst).Sublist entries := by
  induction entries generalizing values with
  | nil => exact List.Sublist.refl _
  | cons entry entries inductionHypothesis =>
    cases values with
    | nil => exact List.nil_sublist _
    | cons value values => exact (inductionHypothesis values).cons_cons entry

theorem rewrites_sublist (layout : Layout) (plains : List Str) (displays : List (Str × Str)) :
    ((layout.rewrites plains displays).map Prod.fst).Sublist layout.stretches := by
  rw [Layout.rewrites, List.map_append, Layout.stretches]
  exact (map_fst_zip_sublist _ _).append (map_fst_zip_sublist _ _)

theorem changedItems_sublist (rewrites : List (List Node × Str)) :
    (changedItems rewrites).Sublist ((rewrites.map Prod.fst).flatten.map Node.element) := by
  induction rewrites with
  | nil => exact List.Sublist.refl _
  | cons entry rewrites inductionHypothesis =>
    rw [changedItems, List.flatMap_cons, List.map_cons, List.flatten_cons, List.map_append]
    refine List.Sublist.append ?_ inductionHypothesis
    split
    next => exact List.nil_sublist _
    next => exact List.Sublist.refl _

/-- No two edits of a paragraph remove the same item. -/
theorem items_apart (isTemplate : IsTemplate children) (isLayout : paragraphLayout isHyperlinkInstruction children = some layout)
    (areEdits : paragraphEdits layout text = .ok edits) : (edits.flatMap Edit.items).Nodup := by
  obtain ⟨plains, displays, -, areItems⟩ := items_paragraphEdits areEdits
  have ofStretches := ((rewrites_sublist layout plains displays).flatten.map Node.element).nodup (nodup_stretches isTemplate isLayout)
  rw [areItems]
  exact (changedItems_sublist _).nodup ofStretches

end

/-! ## Items inside items -/

section

variable {forest : Forest} {ancestors : List Tag} {outer inner : Node}

theorem length_ancestors (listed : outer ∈ ownFrom ancestors forest) : ancestors.length ≤ outer.ancestors.length := by
  induction forest generalizing ancestors with
  | nil => cases listed
  | node element children next childrenHypothesis nextHypothesis =>
    rw [ownFrom, List.mem_cons, List.mem_append] at listed
    rcases listed with rfl | below | later
    · exact Nat.le_refl _
    · split at below
      next => cases below
      next => exact Nat.le_of_succ_le (childrenHypothesis below)
    · exact nextHypothesis later

/-- The nodes inside a node follow it, in the list of nodes as in that of elements. -/
theorem ownFrom_split (listed : outer ∈ ownFrom ancestors forest) (notParagraph : outer.element.tag ≠ .p) : ∃ left right first last,
    ownFrom ancestors forest = left ++ outer :: (ownFrom (outer.element.tag :: outer.ancestors) outer.children ++ right) ∧
      forest.elements = first ++ outer.element :: (outer.children.elements ++ last) ∧
      left.map Node.element ⊆ first ∧ right.map Node.element ⊆ last := by
  induction forest generalizing ancestors with
  | nil => cases listed
  | node element children next childrenHypothesis nextHypothesis =>
    have isRest := (elements_ownFrom ancestors next).subset
    rw [ownFrom, List.mem_cons, List.mem_append] at listed
    rw [ownFrom, Forest.elements]
    rcases listed with rfl | below | later
    · refine ⟨[], ownFrom ancestors next, [], next.elements, ?_, rfl, List.Subset.refl _, isRest⟩
      rw [if_neg notParagraph]
      rfl
    · split at below
      next => cases below
      next isOther =>
        obtain ⟨left, right, first, last, isSplit, areElements, isLeft, isRight⟩ := childrenHypothesis below
        refine ⟨⟨ancestors, element, children⟩ :: left, right ++ ownFrom ancestors next, element :: first, last ++ next.elements,
          ?_, ?_, ?_, ?_⟩
        · rw [if_neg isOther, isSplit]
          simp only [List.append_assoc, List.cons_append]
        · rw [areElements]
          simp only [List.append_assoc, List.cons_append]
        · exact List.cons_subset_cons _ isLeft
        · rw [List.map_append]
          exact List.append_subset.mpr ⟨List.Subset.trans isRight (List.subset_append_left _ _),
            List.Subset.trans isRest (List.subset_append_right _ _)⟩
    · obtain ⟨left, right, first, last, isSplit, areElements, isLeft, isRight⟩ := nextHypothesis later
      refine ⟨⟨ancestors, element, children⟩ :: ((if element.tag = .p then [] else ownFrom (element.tag :: ancestors) children) ++ left), right,
        element :: (children.elements ++ first), last, ?_, ?_, ?_, isRight⟩
      · rw [isSplit]
        simp only [List.append_assoc, List.cons_append]
      · rw [areElements]
        simp only [List.append_assoc, List.cons_append]
      · rw [List.map_cons, List.map_append]
        refine List.cons_subset_cons _ (List.append_subset.mpr ⟨?_, List.Subset.trans isLeft (List.subset_append_right _ _)⟩)
        split
        next => exact List.nil_subset _
        next => exact List.Subset.trans (elements_ownFrom _ children).subset (List.subset_append_left _ _)

/-- Where every element is its own, a node whose element is inside another's is inside that one. -/
theorem inner_mem (distinct : forest.elements.Nodup) (isOuter : outer ∈ ownFrom ancestors forest) (isInner : inner ∈ ownFrom ancestors forest)
    (notParagraph : outer.element.tag ≠ .p) (within : inner.element ∈ outer.children.elements) :
    inner ∈ ownFrom (outer.element.tag :: outer.ancestors) outer.children := by
  obtain ⟨left, right, first, last, isSplit, areElements, isLeft, isRight⟩ := ownFrom_split isOuter notParagraph
  rw [areElements, List.nodup_append] at distinct
  obtain ⟨-, behind, apart⟩ := distinct
  obtain ⟨notInside, behind⟩ := List.nodup_cons.mp behind
  rw [isSplit, List.mem_append, List.mem_cons, List.mem_append] at isInner
  rcases isInner with inLeft | rfl | inside | inRight
  · exact (apart _ (isLeft (List.mem_map_of_mem inLeft)) _ (List.mem_cons_of_mem _ (List.mem_append_left _ within)) rfl).elim
  · exact (notInside (List.mem_append_left _ within)).elim
  · exact inside
  · exact ((List.nodup_append.mp behind).2.2 _ within _ (isRight (List.mem_map_of_mem inRight)) rfl).elim

end

/-! ## The scan keeps them together -/

/-- The stretches that a scan has read so far. -/
def Scan.stretches (scan : Scan) : List (List Node) :=
  scan.parts.flatMap (fun part => [part.1, part.2.items]) ++ scan.current :: (scan.field.bind Field.display).toList

/-- The stretch that an item goes to. -/
def Scan.reading (scan : Scan) : List Node :=
  match scan.field with
  | none => scan.current
  | some field => field.display.getD []

/-- No stretch is split or loses an item. -/
def Scan.Extends (scan next : Scan) : Prop := ∀ stretch ∈ scan.stretches, ∃ longer ∈ next.stretches, stretch ⊆ longer

section

variable {isHyperlinkInstruction : Str → Bool} {scan next : Scan} {node outer inner : Node} {childTag : Tag} {child : Element × Forest}

theorem Scan.Extends.refl (scan : Scan) : scan.Extends scan := fun stretch listed => ⟨stretch, listed, List.Subset.refl _⟩

theorem Scan.Extends.trans {last : Scan} (first : scan.Extends next) (second : next.Extends last) : scan.Extends last := by
  intro stretch listed
  obtain ⟨longer, isLonger, subset⟩ := first stretch listed
  obtain ⟨longest, isLongest, within⟩ := second longer isLonger
  exact ⟨longest, isLongest, List.Subset.trans subset within⟩

theorem Scan.Extends.ofSubset (subset : scan.stretches ⊆ next.stretches) : scan.Extends next :=
  fun stretch listed => ⟨stretch, subset listed, List.Subset.refl _⟩

theorem Scan.reading_item (taken : scan.item node = some next) : next.reading = scan.reading ++ [node] ∧ next.reading ∈ next.stretches := by
  rw [Scan.item] at taken
  split at taken
  next noField =>
    cases taken
    simp [Scan.reading, Scan.stretches, noField]
  next field isField =>
    split at taken
    next => cases taken
    next display isDisplay =>
      cases taken
      simp [Scan.reading, Scan.stretches, isField, isDisplay]

theorem Scan.extends_item (taken : scan.item node = some next) : scan.Extends next := by
  rw [Scan.item] at taken
  split at taken
  next noField =>
    cases taken
    intro stretch listed
    simp only [Scan.stretches, noField, List.mem_append, List.mem_cons] at listed ⊢
    rcases listed with earlier | rfl | impossible
    · exact ⟨stretch, .inl earlier, List.Subset.refl _⟩
    · exact ⟨scan.current ++ [node], .inr (.inl rfl), List.subset_append_left _ _⟩
    · cases impossible
  next field isField =>
    split at taken
    next => cases taken
    next display isDisplay =>
      cases taken
      intro stretch listed
      simp only [Scan.stretches, isField, Option.bind_some, isDisplay, Option.toList_some, List.mem_append, List.mem_cons] at listed ⊢
      rcases listed with earlier | rfl | rfl | impossible
      · exact ⟨stretch, .inl earlier, List.Subset.refl _⟩
      · exact ⟨scan.current, .inr (.inl rfl), List.Subset.refl _⟩
      · exact ⟨stretch ++ [node], .inr (.inr (.inl rfl)), List.subset_append_left _ _⟩
      · cases impossible

theorem Scan.extends_fieldCharacter {element : Element} (taken : scan.fieldCharacter isHyperlinkInstruction element = some next) :
    scan.Extends next := by
  simp only [Scan.fieldCharacter] at taken
  apply Scan.Extends.ofSubset
  split at taken
  next noField =>
    obtain ⟨-, isNext⟩ := Option.ite_none_right_eq_some.mp taken
    cases isNext
    simp [Scan.stretches, noField]
  next field isField =>
    split at taken
    next noDisplay =>
      obtain ⟨-, isNext⟩ := Option.ite_none_right_eq_some.mp taken
      cases isNext
      simp [Scan.stretches, isField, noDisplay]
    next display isDisplay =>
      -- the field ends: its result and the stretch before it are a part now
      obtain ⟨-, isNext⟩ := Option.ite_none_right_eq_some.mp taken
      cases isNext
      simp [Scan.stretches, isField, isDisplay]

theorem Scan.extends_element (taken : scan.element isHyperlinkInstruction childTag node = some next) : scan.Extends next := by
  rw [Scan.element] at taken
  split at taken
  next =>
    split at taken
    next => cases taken
    next =>
      split at taken
      next =>
        split at taken
        next start instruction isField =>
          cases taken
          apply Scan.Extends.ofSubset
          simp [Scan.stretches, isField]
        next => cases taken
      next => exact Scan.extends_fieldCharacter taken
  next =>
    split at taken
    next => exact Scan.extends_item taken
    next =>
      cases taken
      exact .refl _

theorem Scan.extends_elements {nodes : List Node} (taken : nodes.foldlM (Scan.element isHyperlinkInstruction childTag) scan = some next) :
    scan.Extends next := by
  induction nodes generalizing scan with
  | nil =>
    cases taken
    exact .refl _
  | cons node nodes inductionHypothesis =>
    obtain ⟨between, isFirst, isRest⟩ := Option.bind_eq_some_iff.mp taken
    exact (Scan.extends_element isFirst).trans (inductionHypothesis isRest)

theorem Scan.extends_child (taken : scan.child isHyperlinkInstruction child = some next) : scan.Extends next := by
  simp only [Scan.child] at taken
  split at taken
  next =>
    cases taken
    exact .refl _
  next =>
    split at taken
    next =>
      obtain ⟨noField, isNext⟩ := Option.ite_none_left_eq_some.mp taken
      cases isNext
      have closed : scan.field = none := by
        simp only [Bool.or_eq_true, not_or, Option.isSome_iff_ne_none, ne_eq, not_not] at noField
        exact noField.1.1
      apply Scan.Extends.ofSubset
      simp [Scan.stretches, closed]
    next => exact Scan.extends_elements taken

theorem Scan.extends_children {children : List (Element × Forest)} (taken : children.foldlM (Scan.child isHyperlinkInstruction) scan = some next) :
    scan.Extends next := by
  induction children generalizing scan with
  | nil =>
    cases taken
    exact .refl _
  | cons child children inductionHypothesis =>
    obtain ⟨between, isFirst, isRest⟩ := Option.bind_eq_some_iff.mp taken
    exact (Scan.extends_child isFirst).trans (inductionHypothesis isRest)

theorem child_of_ownOf (listed : node ∈ ownOf child) (isTop : node.ancestors = []) : node.element = child.1 := by
  rw [ownOf, ownFrom, List.mem_cons, List.mem_append] at listed
  rcases listed with rfl | below | impossible
  · rfl
  · split at below
    next => cases below
    next =>
      have nested := length_ancestors below
      rw [isTop] at nested
      cases nested
  · cases impossible

/-- Below a text item no field starts or ends, so the same stretch is read on. -/
theorem Scan.reading_deep {nodes : List Node} (deep : ∀ node ∈ nodes, childTag ≠ .r ∨ node.ancestors.length ≠ 1)
    (taken : nodes.foldlM (Scan.element isHyperlinkInstruction childTag) scan = some next) (isRead : scan.reading ∈ scan.stretches) :
    scan.reading ⊆ next.reading ∧ next.reading ∈ next.stretches ∧ ∀ node ∈ nodes, node.isInlineItem = true → node ∈ next.reading := by
  induction nodes generalizing scan with
  | nil =>
    cases taken
    exact ⟨List.Subset.refl _, isRead, List.forall_mem_nil _⟩
  | cons node nodes inductionHypothesis =>
    obtain ⟨isDeep, deep⟩ := List.forall_mem_cons.mp deep
    obtain ⟨between, isFirst, isRest⟩ := Option.bind_eq_some_iff.mp taken
    have step : scan.reading ⊆ between.reading ∧ between.reading ∈ between.stretches ∧
        (node.isInlineItem = true → node ∈ between.reading) := by
      rw [Scan.element] at isFirst
      split at isFirst
      next =>
        have refused : (node.element.tag = .fldSimple || childTag != .r || node.ancestors.length != 1) = true := by
          rcases isDeep with other | other <;> simp [other]
        rw [if_pos refused] at isFirst
        cases isFirst
      next =>
        split at isFirst
        next =>
          obtain ⟨isReading, isStretch⟩ := Scan.reading_item isFirst
          rw [isReading] at isStretch ⊢
          exact ⟨List.subset_append_left _ _, isStretch, fun _ => List.mem_append_right _ List.mem_cons_self⟩
        next notItem =>
          cases isFirst
          exact ⟨List.Subset.refl _, isRead, fun isItem => absurd isItem notItem⟩
    obtain ⟨grows, isStretch, isTaken⟩ := step
    obtain ⟨growsOn, isLast, areTaken⟩ := inductionHypothesis deep isRest isStretch
    exact ⟨List.Subset.trans grows growsOn, isLast, List.forall_mem_cons.mpr ⟨fun isItem => growsOn (isTaken isItem), areTaken⟩⟩

/-- What is inside an item of a child goes to the item's stretch. -/
theorem Scan.together_child (isOuter : outer ∈ shownItems child) (isInner : inner.isInlineItem = true)
    (inside : inner ∈ ownFrom (outer.element.tag :: outer.ancestors) outer.children)
    (taken : scan.child isHyperlinkInstruction child = some next) :
    ∃ stretch ∈ next.stretches, outer ∈ stretch ∧ inner ∈ stretch := by
  rw [shownItems] at isOuter
  simp only [Scan.child] at taken
  split at isOuter
  next => cases isOuter
  next notProperties =>
    obtain ⟨isNode, isItem⟩ := List.mem_filter.mp isOuter
    have isInline := Node.isInline_of_isInlineItem isItem
    have notParagraph : outer.element.tag ≠ .p := fun isTag => by
      rw [isTag] at isInline
      cases isInline
    obtain ⟨left, right, -, -, isSplit, -⟩ := ownFrom_split isNode notParagraph
    rw [if_neg notProperties] at taken
    split at taken
    next =>
      -- all items of a link are its result
      obtain ⟨-, isNext⟩ := Option.ite_none_left_eq_some.mp taken
      cases isNext
      refine ⟨(ownOf child).filter Node.isInlineItem, by simp [Scan.stretches], isOuter, List.mem_filter.mpr ⟨?_, isInner⟩⟩
      rw [ownOf, isSplit]
      exact List.mem_append_right _ (List.mem_cons_of_mem _ (List.mem_append_left _ inside))
    next =>
      rw [ownOf, isSplit, List.foldlM_append] at taken
      obtain ⟨before, -, taken⟩ := Option.bind_eq_some_iff.mp taken
      rw [List.foldlM_cons] at taken
      obtain ⟨first, isFirst, taken⟩ := Option.bind_eq_some_iff.mp taken
      rw [List.foldlM_append] at taken
      obtain ⟨second, isSecond, taken⟩ := Option.bind_eq_some_iff.mp taken
      have isTaken : before.item outer = some first := by
        rwa [Scan.element, if_neg (by simp [Node.not_isField_of_isInlineItem isItem]), if_pos isItem] at isFirst
      obtain ⟨isReading, isStretch⟩ := Scan.reading_item isTaken
      have deep : ∀ node ∈ ownFrom (outer.element.tag :: outer.ancestors) outer.children,
          child.1.tag ≠ .r ∨ node.ancestors.length ≠ 1 := by
        intro node listed
        have below := length_ancestors listed
        rw [List.length_cons] at below
        cases areAncestors : outer.ancestors with
        | nil =>
          -- the item is the child itself, and no run
          left
          rw [← child_of_ownOf isNode areAncestors]
          rintro isRun
          rw [isRun] at isInline
          cases isInline
        | cons tag tags =>
          right
          rw [areAncestors, List.length_cons] at below
          omega
      obtain ⟨grows, isLast, areTaken⟩ := Scan.reading_deep deep isSecond isStretch
      obtain ⟨longer, isLonger, subset⟩ := Scan.extends_elements taken _ isLast
      have inReading : outer ∈ first.reading := isReading ▸ List.mem_append_right _ List.mem_cons_self
      exact ⟨longer, isLonger, subset (grows inReading), subset (areTaken inner inside isInner)⟩

end

/-! ## Changed and unchanged stretches -/

section

variable {isHyperlinkInstruction : Str → Bool} {children : Forest} {layout : Layout} {plains : List Str} {displays : List (Str × Str)}
  {node outer inner : Node} {element : Element} {first second : List Node × Str} {stretch other : List Node}

/-- An item inside another is read into the same stretch. -/
theorem together_layout (isTemplate : IsTemplate children) (isLayout : paragraphLayout isHyperlinkInstruction children = some layout)
    (isOuter : outer ∈ layout.items) (isInner : inner ∈ layout.items) (within : inner.element ∈ outer.children.elements) :
    ∃ stretch ∈ layout.stretches, outer ∈ stretch ∧ inner ∈ stretch := by
  have areNodes := (items_sublist isLayout).subset
  have areItems := items_layout isTemplate isLayout
  have notParagraph : outer.element.tag ≠ .p := by
    intro isTag
    have isInline := (areItems outer isOuter).isInline
    rw [isTag] at isInline
    cases isInline
  have inside := inner_mem (List.Nodup.of_map _ isTemplate.distinct) (areNodes isOuter) (areNodes isInner) notParagraph within
  have isItem : inner.isInlineItem = true := by
    rw [layout_items isLayout] at isInner
    obtain ⟨child, -, listed⟩ := List.mem_flatMap.mp isInner
    rw [shownItems] at listed
    split at listed
    next => cases listed
    next => exact (List.mem_filter.mp listed).2
  rw [layout_items isLayout] at isOuter
  obtain ⟨child, isChild, isOuter⟩ := List.mem_flatMap.mp isOuter
  obtain ⟨before, behind, isSplit⟩ := List.append_of_mem isChild
  rw [paragraphLayout] at isLayout
  split at isLayout
  next parts current scanned =>
    cases isLayout
    rw [isSplit, List.foldlM_append] at scanned
    obtain ⟨start, -, scanned⟩ := Option.bind_eq_some_iff.mp scanned
    rw [List.foldlM_cons] at scanned
    obtain ⟨next, taken, scanned⟩ := Option.bind_eq_some_iff.mp scanned
    obtain ⟨stretch, isStretch, holdsOuter, holdsInner⟩ := Scan.together_child isOuter isItem inside taken
    obtain ⟨longer, isLonger, subset⟩ := Scan.extends_children scanned stretch isStretch
    refine ⟨longer, ?_, subset holdsOuter, subset holdsInner⟩
    simp only [Scan.stretches, Option.bind_none, Option.toList_none, List.mem_append, List.mem_flatMap, List.mem_cons, List.not_mem_nil,
      or_false] at isLonger
    simp only [Layout.stretches, Layout.plain, Layout.links, List.map_map, List.mem_append, List.mem_map, List.mem_singleton]
    rcases isLonger with ⟨part, isPart, rfl | rfl⟩ | rfl
    · exact .inl (.inl ⟨part, isPart, rfl⟩)
    · exact .inr ⟨part, isPart, rfl⟩
    · exact .inl (.inr rfl)
  next => cases isLayout

theorem stretches_disjoint (isTemplate : IsTemplate children) (isLayout : paragraphLayout isHyperlinkInstruction children = some layout) :
    layout.stretches.Pairwise fun first second => (first.map Node.element).Disjoint (second.map Node.element) := by
  have distinct := nodup_stretches isTemplate isLayout
  rw [List.map_flatten, List.nodup_flatten, List.pairwise_map] at distinct
  exact distinct.2

theorem stretch_once (isTemplate : IsTemplate children) (isLayout : paragraphLayout isHyperlinkInstruction children = some layout)
    (isStretch : stretch ∈ layout.stretches) (isOther : other ∈ layout.stretches) (inStretch : node ∈ stretch) (inOther : node ∈ other) :
    stretch = other := by
  have symmetric : Std.Symm fun first second : List Node => (first.map Node.element).Disjoint (second.map Node.element) :=
    ⟨fun _ _ apart _ inFirst inSecond => apart inSecond inFirst⟩
  by_contra different
  exact (stretches_disjoint isTemplate isLayout).forall isStretch isOther different (List.mem_map_of_mem inStretch) (List.mem_map_of_mem inOther)

theorem rewrite_once (isTemplate : IsTemplate children) (isLayout : paragraphLayout isHyperlinkInstruction children = some layout)
    (isFirst : first ∈ layout.rewrites plains displays) (isSecond : second ∈ layout.rewrites plains displays)
    (inFirst : element ∈ first.1.map Node.element) (inSecond : element ∈ second.1.map Node.element) : first = second := by
  have symmetric : Std.Symm fun first second : List Node × Str => (first.1.map Node.element).Disjoint (second.1.map Node.element) :=
    ⟨fun _ _ apart _ inFirst inSecond => apart inSecond inFirst⟩
  by_contra different
  have disjoint := (stretches_disjoint isTemplate isLayout).sublist (rewrites_sublist layout plains displays)
  rw [List.pairwise_map] at disjoint
  exact disjoint.forall isFirst isSecond different inFirst inSecond

theorem mem_changedItems {rewrites : List (List Node × Str)} : element ∈ changedItems rewrites ↔
    ∃ entry ∈ rewrites, textOf entry.1 ≠ entry.2 ∧ element ∈ entry.1.map Node.element := by
  simp only [changedItems, List.mem_flatMap]
  refine exists_congr fun entry => and_congr_right fun _ => ?_
  by_cases same : textOf entry.1 = entry.2 <;> simp [same]

theorem mem_unchangedItems {rewrites : List (List Node × Str)} : element ∈ unchangedItems rewrites ↔
    ∃ entry ∈ rewrites, textOf entry.1 = entry.2 ∧ element ∈ entry.1.map Node.element := by
  simp only [unchangedItems, List.mem_flatMap]
  refine exists_congr fun entry => and_congr_right fun _ => ?_
  by_cases same : textOf entry.1 = entry.2 <;> simp [same]

theorem stretch_of_rewrite {rewrites : List (List Node × Str)} (isRewrites : rewrites = layout.rewrites plains displays)
    (isEntry : first ∈ rewrites) : first.1 ∈ layout.stretches := by
  subst isRewrites
  exact (rewrites_sublist layout plains displays).subset (List.mem_map_of_mem isEntry)

/-- An item whose text stays is neither an item of a changed stretch nor inside one. -/
theorem unchanged_apart (isTemplate : IsTemplate children) (isLayout : paragraphLayout isHyperlinkInstruction children = some layout)
    (isUnchanged : element ∈ unchangedItems (layout.rewrites plains displays)) : element ∉ changedItems (layout.rewrites plains displays) ∧
      ∀ below ∈ children.allNodes, below.1 ∈ changedItems (layout.rewrites plains displays) → element ∉ below.2.elements := by
  obtain ⟨kept, isKept, same, inKept⟩ := mem_unchangedItems.mp isUnchanged
  constructor
  · intro isChanged
    obtain ⟨changed, isEntry, different, inChanged⟩ := mem_changedItems.mp isChanged
    obtain rfl := rewrite_once isTemplate isLayout isKept isEntry inKept inChanged
    exact different same
  · intro below isBelow isChanged within
    obtain ⟨changed, isEntry, different, inChanged⟩ := mem_changedItems.mp isChanged
    obtain ⟨inner, inStretch, rfl⟩ := List.mem_map.mp inKept
    obtain ⟨outer, outerIn, isOuter⟩ := List.mem_map.mp inChanged
    have keptStretch : kept.1 ∈ layout.stretches := stretch_of_rewrite rfl isKept
    have changedStretch : changed.1 ∈ layout.stretches := stretch_of_rewrite rfl isEntry
    have ofItems {stretch : List Node} {node : Node} (isStretch : stretch ∈ layout.stretches) (listed : node ∈ stretch) : node ∈ layout.items :=
      (stretches_perm layout).subset (List.mem_flatten.mpr ⟨stretch, isStretch, listed⟩)
    -- the changed item is the node, so what it holds is below it
    have isNode : (outer.element, outer.children) = below :=
      node_once (List.Nodup.of_map _ isTemplate.distinct) (allNodes_of_own ((items_sublist isLayout).subset (ofItems changedStretch outerIn)))
        isBelow isOuter
    subst isNode
    obtain ⟨stretch, isStretch, holdsOuter, holdsInner⟩ :=
      together_layout isTemplate isLayout (ofItems changedStretch outerIn) (ofItems keptStretch inStretch) within
    have ofChanged : changed.1 = stretch := stretch_once isTemplate isLayout changedStretch isStretch outerIn holdsOuter
    have inChanged : inner.element ∈ changed.1.map Node.element := List.mem_map_of_mem (ofChanged ▸ holdsInner)
    obtain rfl := rewrite_once isTemplate isLayout isKept isEntry inKept inChanged
    exact different same

end

end Oveo.Docx
