import Oveo.Docx.LineEdits

/-! # A patched paragraph, laid out again

The patched paragraph has a layout with the same links, whose stretches and displays are the new texts. -/

namespace Oveo.Docx

open Oveo.Lib

/-! ## The edit of each stretch -/

section

variable {parts : List (List Node × Link)} {last items : List Node} {behind : Option Link} {values : List Str} {edits : List Edit}
  {links : List Link} {displays : List (Str × Str)} {value : Str} {element : Element} {before : Bool}

/-- Every stretch with items is rewritten. -/
theorem rewriteItems_of_plainEdits (areEdits : plainEdits behind last parts values = .ok edits) :
    ∀ entry ∈ (parts.map Prod.fst ++ [last]).zip values, entry.1 ≠ [] → rewriteItems entry.1 entry.2 ⊆ edits := by
  induction parts generalizing behind values edits with
  | nil =>
    cases values with
    | nil => cases areEdits
    | cons value more =>
      cases more with
      | cons _ _ => cases areEdits
      | nil =>
        intro entry listed hasItems
        cases List.mem_singleton.mp listed
        have notEmpty : last.isEmpty = false := by simpa using hasItems
        simp only [plainEdits, notEmpty, Bool.false_eq_true, if_false] at areEdits
        cases areEdits
        exact List.Subset.refl _
  | cons part parts inductionHypothesis =>
    obtain ⟨items, link⟩ := part
    cases values with
    | nil => cases areEdits
    | cons value values =>
      rw [plainEdits] at areEdits
      obtain ⟨rest, isRest, areEdits⟩ := ok_bind_iff.mp areEdits
      cases areEdits
      intro entry listed hasItems
      rw [List.map_cons, List.cons_append, List.zip_cons_cons, List.mem_cons] at listed
      rcases listed with rfl | later
      · have notEmpty : items.isEmpty = false := by simpa using hasItems
        rw [if_neg (by simp [notEmpty])]
        exact List.subset_append_left _ _
      · exact List.Subset.trans (inductionHypothesis isRest entry later hasItems) (List.subset_append_right _ _)

/-- And so is every display. -/
theorem rewriteItems_of_displayEdits (areEdits : displayEdits links displays = .ok edits) :
    ∀ entry ∈ (links.map Link.items).zip (displays.map Prod.snd), rewriteItems entry.1 entry.2 ⊆ edits := by
  induction links generalizing displays edits with
  | nil => exact List.forall_mem_nil _
  | cons link links inductionHypothesis =>
    cases displays with
    | nil => exact List.forall_mem_nil _
    | cons display displays =>
      obtain ⟨id, display⟩ := display
      rw [displayEdits, ite_error_eq_ok] at areEdits
      obtain ⟨rest, isRest, areEdits⟩ := ok_bind_iff.mp areEdits.2
      cases areEdits
      rw [List.map_cons, List.map_cons, List.zip_cons_cons, List.forall_mem_cons]
      exact ⟨List.subset_append_left _ _, fun entry listed =>
        List.Subset.trans (inductionHypothesis isRest entry listed) (List.subset_append_right _ _)⟩

theorem beside_rewriteItems : ∀ edit ∈ rewriteItems items value, edit.beside before element = [] := by
  intro edit listed
  cases items with
  | nil => cases listed
  | cons first rest =>
    rw [rewriteItems] at listed
    split at listed
    next => cases listed
    next =>
      cases List.mem_singleton.mp listed
      rfl

theorem beside_displayEdits (areEdits : displayEdits links displays = .ok edits) : ∀ edit ∈ edits, edit.beside before element = [] := by
  induction links generalizing displays edits with
  | nil =>
    cases areEdits
    exact List.forall_mem_nil _
  | cons link links inductionHypothesis =>
    cases displays with
    | nil =>
      cases areEdits
      exact List.forall_mem_nil _
    | cons display displays =>
      obtain ⟨id, display⟩ := display
      rw [displayEdits, ite_error_eq_ok] at areEdits
      obtain ⟨rest, isRest, areEdits⟩ := ok_bind_iff.mp areEdits.2
      cases areEdits
      exact List.forall_mem_append.mpr ⟨beside_rewriteItems, inductionHypothesis isRest⟩

/-- An inserted run holds the text, also where there is none to insert. -/
theorem beside_insertPlainRun (anchor : Element) (front : Bool) (value : Str) : (insertPlainRun anchor front value).flatMap (Edit.beside before element) =
    if element = anchor ∧ front = before then contentNodes [.r] value else [] := by
  rw [insertPlainRun]
  split
  next isEmpty =>
    rw [List.isEmpty_iff.mp isEmpty]
    exact (ite_self _).symm
  next => exact List.flatMap_singleton _ _

/-- What the edits of the stretches put before an element or behind it: nothing, where no link starts or stops there. -/
theorem beside_plainEdits (areEdits : plainEdits behind last parts values = .ok edits)
    (apartStarts : before = true → element ∉ parts.map fun part => part.2.start)
    (apartStops : before = false → element ∉ (behind.toList ++ parts.map Prod.snd).map Link.stop) :
    ∀ edit ∈ edits, edit.beside before element = [] := by
  have ofRun {anchor : Element} {front : Bool} {value : Str} (other : ¬(element = anchor ∧ front = before)) :
      ∀ edit ∈ insertPlainRun anchor front value, edit.beside before element = [] := by
    have isNone := @beside_insertPlainRun element before anchor front value
    rw [if_neg other] at isNone
    exact fun edit listed => List.flatMap_eq_nil_iff.mp isNone edit listed
  induction parts generalizing behind values edits with
  | nil =>
    cases values with
    | nil => cases areEdits
    | cons value more =>
      cases more with
      | cons _ _ => cases areEdits
      | nil =>
        simp only [plainEdits] at areEdits
        split at areEdits
        next =>
          split at areEdits
          next link =>
            cases areEdits
            refine ofRun fun same => ?_
            exact apartStops same.2.symm (by simp [same.1])
          next =>
            split at areEdits
            next =>
              cases areEdits
              exact List.forall_mem_nil _
            next => cases areEdits
        next =>
          cases areEdits
          exact beside_rewriteItems
  | cons part parts inductionHypothesis =>
    obtain ⟨items, link⟩ := part
    cases values with
    | nil => cases areEdits
    | cons value values =>
      rw [plainEdits] at areEdits
      obtain ⟨rest, isRest, areEdits⟩ := ok_bind_iff.mp areEdits
      cases areEdits
      refine List.forall_mem_append.mpr ⟨?_, inductionHypothesis isRest (fun isBefore listed => ?_) fun isBehind => ?_⟩
      · split
        next => exact ofRun fun same => apartStarts same.2.symm (same.1 ▸ List.mem_cons_self)
        next => exact beside_rewriteItems
      · exact apartStarts isBefore (List.mem_cons_of_mem _ listed)
      · have notStop := apartStops isBehind
        simp only [List.map_append, List.map_cons, List.mem_append, not_or] at notStop
        simpa using notStop.2

end

/-! ## The new texts -/

@[simp] theorem textOf_bare (items : List Node) : textOf (items.map Node.bare) = textOf items := by
  rw [textOf, List.flatMap_map]
  rfl

theorem reverse_insertPlainRun (anchor : Element) (front : Bool) (value : Str) :
    (insertPlainRun anchor front value).reverse = insertPlainRun anchor front value := by
  rw [insertPlainRun]
  split <;> rfl

theorem reverse_flatMap_beside {edits : List Edit} {before : Bool} {element : Element} (none : ∀ edit ∈ edits, edit.beside before element = []) :
    edits.reverse.flatMap (Edit.beside before element) = [] :=
  List.flatMap_eq_nil_iff.mpr fun edit listed => none edit (List.mem_reverse.mp listed)

section

variable {parts : List (List Node × Link)} {last : List Node} {behind : Option Link} {values : List Str} {edits : List Edit} {rewriting : Rewriting}

/-- With an edit for each stretch, and with what the edits put beside the links, the stretches show the new texts. -/
theorem texts_of_parts (areEdits : plainEdits behind last parts values = .ok edits)
    (texts : ∀ entry ∈ (parts.map Prod.fst ++ [last]).zip values, entry.1 ≠ [] →
      textOf ((entry.1.map Node.bare).flatMap rewriting.item) = entry.2)
    (starts : ∀ part ∈ parts, rewriting.before part.2.start = edits.flatMap (Edit.beside true part.2.start))
    (stops : ∀ link ∈ behind.toList ++ parts.map Prod.snd, rewriting.behind link.stop = edits.reverse.flatMap (Edit.beside false link.stop))
    (distinctStarts : (parts.map fun part => part.2.start).Nodup)
    (distinctStops : ((behind.toList ++ parts.map Prod.snd).map Link.stop).Nodup) {front : List Node}
    (isFront : front = (behind.map fun link => rewriting.behind link.stop).getD []) :
    (rewriting.parts front (parts.map barePart)).map (fun part => textOf part.1) ++
      [textOf (rewriting.front front (parts.map barePart) ++ (last.map Node.bare).flatMap rewriting.item)] = values := by
  induction parts generalizing behind values edits front with
  | nil =>
    subst isFront
    cases values with
    | nil => cases areEdits
    | cons value more =>
      cases more with
      | cons _ _ => cases areEdits
      | nil =>
        simp only [List.map_nil, Rewriting.parts, Rewriting.front, List.nil_append, textOf_append]
        simp only [plainEdits] at areEdits
        split at areEdits
        next noItems =>
          rw [List.isEmpty_iff.mp noItems]
          split at areEdits
          next link =>
            cases areEdits
            have inserted := stops link (by simp)
            rw [reverse_insertPlainRun, beside_insertPlainRun, if_pos ⟨rfl, rfl⟩] at inserted
            rw [Option.map_some, Option.getD_some, inserted, textOf_contentNodes]
            simp [textOf]
          next =>
            split at areEdits
            next isEmpty => simp [List.isEmpty_iff.mp isEmpty, textOf]
            next => cases areEdits
        next hasItems =>
          cases areEdits
          have noneInFront : (behind.map fun link => rewriting.behind link.stop).getD [] = [] := by
            cases behind with
            | none => rfl
            | some link =>
              rw [Option.map_some, Option.getD_some, stops link (by simp)]
              exact reverse_flatMap_beside beside_rewriteItems
          rw [noneInFront, texts (last, value) (by simp) (by simpa using hasItems)]
          rfl
  | cons part parts inductionHypothesis =>
    obtain ⟨items, link⟩ := part
    cases values with
    | nil => cases areEdits
    | cons value values =>
      rw [plainEdits] at areEdits
      obtain ⟨rest, isRest, areEdits⟩ := ok_bind_iff.mp areEdits
      cases areEdits
      rw [List.map_cons, List.nodup_cons] at distinctStarts
      obtain ⟨startApart, distinctStarts⟩ := distinctStarts
      rw [List.map_append, List.map_cons, List.map_cons, List.nodup_append] at distinctStops
      obtain ⟨-, stopsApart, different⟩ := distinctStops
      have noneBehind (element : Element) : ∀ edit ∈ if items.isEmpty then insertPlainRun link.start true value else rewriteItems items value,
          edit.beside false element = [] := by
        split
        next =>
          have none := @beside_insertPlainRun element false link.start true value
          rw [if_neg (by simp)] at none
          exact List.flatMap_eq_nil_iff.mp none
        next => exact beside_rewriteItems
      -- behind a link nothing is put where another link follows
      have noneInFront : front = [] := by
        rw [isFront]
        cases behind with
        | none => rfl
        | some before =>
          rw [Option.map_some, Option.getD_some, stops before (by simp)]
          refine reverse_flatMap_beside (List.forall_mem_append.mpr ⟨noneBehind _, ?_⟩)
          refine beside_plainEdits isRest (fun impossible => by cases impossible) fun _ listed => ?_
          exact different before.stop (by simp) before.stop (by simpa using listed) rfl
      have noneLater : rest.flatMap (Edit.beside true link.start) = [] :=
        List.flatMap_eq_nil_iff.mpr (beside_plainEdits isRest (fun _ => startApart) fun impossible => by cases impossible)
      have isText : textOf ((items.map Node.bare).flatMap rewriting.item ++ rewriting.before link.start) = value := by
        rw [starts (items, link) List.mem_cons_self, List.flatMap_append, noneLater, List.append_nil, textOf_append]
        by_cases noItems : items = []
        · simp only [noItems, List.isEmpty_nil, if_true]
          rw [beside_insertPlainRun, if_pos ⟨rfl, rfl⟩, textOf_contentNodes]
          rfl
        · have none : (rewriteItems items value).flatMap (Edit.beside true link.start) = [] :=
            List.flatMap_eq_nil_iff.mpr beside_rewriteItems
          rw [if_neg (by simpa using noItems), none, texts (items, value) (by simp) noItems]
          exact List.append_nil value
      have areTexts := @inductionHypothesis (some link) values rest isRest (fun entry listed => texts entry (by
          rw [List.map_cons, List.cons_append, List.zip_cons_cons]
          exact List.mem_cons_of_mem _ listed))
        (fun part listed => by
          have other : link.start ≠ part.2.start := fun same => startApart (same ▸ List.mem_map_of_mem listed)
          have noneHere : (if items.isEmpty then insertPlainRun link.start true value else rewriteItems items value).flatMap
              (Edit.beside true part.2.start) = [] := by
            split
            next => rw [beside_insertPlainRun, if_neg fun same => other same.1.symm]
            next => exact List.flatMap_eq_nil_iff.mpr beside_rewriteItems
          rw [starts part (List.mem_cons_of_mem _ listed), List.flatMap_append, noneHere, List.nil_append])
        (fun other listed => by
          have isStop := stops other (by
            rw [List.map_cons]
            exact List.mem_append_right _ listed)
          rw [isStop, List.reverse_append, List.flatMap_append, reverse_flatMap_beside (noneBehind _), List.append_nil])
        distinctStarts stopsApart _ rfl
      rw [noneInFront, List.map_cons]
      simp only [Rewriting.parts, Rewriting.front, barePart, Link.bare, List.map_cons, List.cons_append, List.nil_append]
      rw [isText]
      exact congrArg (value :: ·) areTexts

end

/-! ## The edits are placed -/

section

variable {isHyperlinkInstruction : Str → Bool} {children : Forest} {layout : Layout} {text : Str} {edits plain : List Edit} {plains : List Str}
  {displays : List (Str × Str)}

theorem notInserted_rewriteItems {items : List Node} {text : Str} {anchor : Element} {before : Bool} {value : Str} :
    .insertRun anchor before value ∉ rewriteItems items text := by
  intro listed
  cases items with
  | nil => cases listed
  | cons first rest =>
    rw [rewriteItems] at listed
    split at listed
    next => cases listed
    next => cases List.mem_singleton.mp listed

/-- A run is inserted before the start of a link, or behind the stop of one. -/
theorem anchor_of_plainEdits {parts : List (List Node × Link)} {last : List Node} {behind : Option Link} {values : List Str}
    (areEdits : plainEdits behind last parts values = .ok edits) {anchor : Element} {before : Bool} {value : Str}
    (isEdit : .insertRun anchor before value ∈ edits) : (before = true ∧ anchor ∈ parts.map fun part => part.2.start) ∨
      (before = false ∧ anchor ∈ (behind.toList ++ parts.map Prod.snd).map Link.stop) := by
  have ofRun {other : Element} {front : Bool} {text : Str} (isEdit : .insertRun anchor before value ∈ insertPlainRun other front text) :
      anchor = other ∧ before = front := by
    rw [insertPlainRun] at isEdit
    split at isEdit
    next => cases isEdit
    next =>
      cases List.mem_singleton.mp isEdit
      exact ⟨rfl, rfl⟩
  induction parts generalizing behind values edits with
  | nil =>
    cases values with
    | nil => cases areEdits
    | cons value more =>
      cases more with
      | cons _ _ => cases areEdits
      | nil =>
        simp only [plainEdits] at areEdits
        split at areEdits
        next =>
          split at areEdits
          next link =>
            cases areEdits
            obtain ⟨rfl, rfl⟩ := ofRun isEdit
            exact .inr ⟨rfl, by simp⟩
          next =>
            split at areEdits
            next =>
              cases areEdits
              cases isEdit
            next => cases areEdits
        next =>
          cases areEdits
          exact absurd isEdit notInserted_rewriteItems
  | cons part parts inductionHypothesis =>
    obtain ⟨items, link⟩ := part
    cases values with
    | nil => cases areEdits
    | cons value values =>
      rw [plainEdits] at areEdits
      obtain ⟨rest, isRest, areEdits⟩ := ok_bind_iff.mp areEdits
      cases areEdits
      rcases List.mem_append.mp isEdit with here | later
      · split at here
        next =>
          obtain ⟨rfl, rfl⟩ := ofRun here
          exact .inl ⟨rfl, List.mem_cons_self⟩
        next => exact absurd here notInserted_rewriteItems
      · rcases inductionHypothesis isRest later with ⟨isBefore, isStart⟩ | ⟨isBehind, isStop⟩
        · exact .inl ⟨isBefore, List.mem_cons_of_mem _ isStart⟩
        · refine .inr ⟨isBehind, ?_⟩
          rw [List.map_append, List.mem_append]
          exact .inr (by simpa using isStop)

theorem notInserted_of_displayEdits {links : List Link} (areEdits : displayEdits links displays = .ok edits) {anchor : Element}
    {before : Bool} {value : Str} : .insertRun anchor before value ∉ edits := by
  induction links generalizing displays edits with
  | nil =>
    cases areEdits
    exact List.not_mem_nil
  | cons link links inductionHypothesis =>
    cases displays with
    | nil =>
      cases areEdits
      exact List.not_mem_nil
    | cons display displays =>
      obtain ⟨id, display⟩ := display
      rw [displayEdits, ite_error_eq_ok] at areEdits
      obtain ⟨rest, isRest, areEdits⟩ := ok_bind_iff.mp areEdits.2
      cases areEdits
      intro listed
      rcases List.mem_append.mp listed with here | later
      · exact notInserted_rewriteItems here
      · exact inductionHypothesis isRest later

/-- The edits of a new text for a paragraph, with what they are made of. -/
structure AreEdits (layout : Layout) (text : Str) (plains : List Str) (displays : List (Str × Str)) (plain display : List Edit) : Prop where
  isParts : linkParts text = .ok (plains, displays)
  sameLinks : layout.links.length = displays.length
  isPlain : plainEdits none layout.last layout.parts plains = .ok plain
  isDisplay : displayEdits layout.links displays = .ok display

theorem areEdits_of_ok (areEdits : paragraphEdits layout text = .ok edits) :
    ∃ plains displays plain display, AreEdits layout text plains displays plain display ∧ edits = plain ++ display := by
  simp only [paragraphEdits, throw_bind, ite_error_eq_ok, ok_bind_iff, pure_eq_ok, Except.ok.injEq, Prod.exists, ne_eq, not_not] at areEdits
  obtain ⟨plains, displays, isParts, sameLinks, plain, isPlain, display, isDisplay, rfl⟩ := areEdits
  exact ⟨plains, displays, plain, display, ⟨isParts, sameLinks, isPlain, isDisplay⟩, rfl⟩

variable {display : List Edit}

theorem AreEdits.items (areEdits : AreEdits layout text plains displays plain display) :
    (plain ++ display).flatMap Edit.items = changedItems (layout.rewrites plains displays) := by
  rw [List.flatMap_append, items_plainEdits areEdits.isPlain, items_displayEdits areEdits.isDisplay, Layout.rewrites, changedItems_append,
    Layout.plain]

/-- The edits of a paragraph remove items of its layout. -/
theorem AreEdits.item_of_layout (areEdits : AreEdits layout text plains displays plain display) {element : Element}
    (listed : element ∈ (plain ++ display).flatMap Edit.items) : ∃ node ∈ layout.items, node.element = element := by
  rw [areEdits.items] at listed
  have inStretches := (changedItems_sublist _).subset listed
  obtain ⟨node, isNode, isElement⟩ := List.mem_map.mp inStretches
  exact ⟨node, (stretches_perm layout).subset ((rewrites_sublist layout plains displays).flatten.subset isNode), isElement⟩

/-- The paragraph as it is read: with a layout, all of whose items sit in runs. -/
structure IsSource (isHyperlinkInstruction : Str → Bool) (children : Forest) (layout : Layout) : Prop where
  isTemplate : IsTemplate children
  isLayout : paragraphLayout isHyperlinkInstruction children = some layout
  sits : ∀ node ∈ ownNodes children, node.isInlineItem = true → node.SitsInRun

theorem IsSource.line (source : IsSource isHyperlinkInstruction children layout) :
    layoutOf isHyperlinkInstruction (events isHyperlinkInstruction children) = some layout.bare := by
  rw [← paragraphLayout_eq, source.isLayout]
  rfl

theorem IsSource.editable (source : IsSource isHyperlinkInstruction children layout) : Editable isHyperlinkInstruction children where
  distinct := (List.Nodup.of_map _ source.isTemplate.distinct).filter _
  sits := source.sits
  accepted := accepted_of_layout source.line

theorem IsSource.framed (source : IsSource isHyperlinkInstruction children layout) :
    Framed (events isHyperlinkInstruction children) (events isHyperlinkInstruction children) ⟨layout.bare.parts, layout.bare.last, none⟩ :=
  framed_of_layout source.line fun _ listed => isRead_events listed

theorem bare_starts (layout : Layout) : layout.bare.parts.map (fun part => part.2.start) = layout.parts.map fun part => part.2.start :=
  List.map_map

theorem bare_stops (layout : Layout) : layout.bare.parts.map (fun part => part.2.stop) = layout.parts.map fun part => part.2.stop :=
  List.map_map

/-- What an edit inserts stands on the line of the paragraph. -/
theorem AreEdits.marks (areEdits : AreEdits layout text plains displays plain display) (source : IsSource isHyperlinkInstruction children layout)
    {anchor : Element} {before : Bool} {value : Str} (isEdit : .insertRun anchor before value ∈ plain ++ display) :
    Marks (events isHyperlinkInstruction children) (if before then str "begin" else str "end") anchor := by
  have isPlain : .insertRun anchor before value ∈ plain :=
    (List.mem_append.mp isEdit).resolve_right (notInserted_of_displayEdits areEdits.isDisplay)
  rcases anchor_of_plainEdits areEdits.isPlain isPlain with ⟨rfl, isStart⟩ | ⟨rfl, isStop⟩
  · refine source.framed.opens anchor (List.mem_append_left _ ?_)
    rwa [bare_starts]
  · refine source.framed.closes anchor ?_
    rw [bare_stops]
    simpa using isStop

theorem own_of_marks (isTemplate : IsTemplate children) {kind : Str} {anchor : Element}
    (marks : Marks (events isHyperlinkInstruction children) kind anchor) : anchor.identity.isOwn = true := by
  refine isTemplate.own anchor ((@places_events isHyperlinkInstruction children).subset ?_)
  rcases marks with ⟨items, listed⟩ | ⟨-, -, code, listed⟩
  · exact List.mem_filterMap.mpr ⟨_, listed, rfl⟩
  · exact List.mem_filterMap.mpr ⟨_, listed, rfl⟩

theorem AreEdits.own (areEdits : AreEdits layout text plains displays plain display) (source : IsSource isHyperlinkInstruction children layout) :
    ∀ element ∈ (plain ++ display).flatMap Edit.items, element.identity.isOwn = true := by
  intro element listed
  obtain ⟨node, isItem, rfl⟩ := areEdits.item_of_layout listed
  exact (items_layout source.isTemplate source.isLayout node isItem).own

theorem AreEdits.placed (areEdits : AreEdits layout text plains displays plain display) (source : IsSource isHyperlinkInstruction children layout) :
    ∀ edit ∈ plain ++ display, edit.Placed (events isHyperlinkInstruction children) := by
  intro edit isEdit
  cases edit with
  | rewrite first rest value =>
    have isRemoved {element : Element} (listed : element ∈ first.element :: rest.map Node.element) :
        element ∈ (plain ++ display).flatMap Edit.items := List.mem_flatMap.mpr ⟨_, isEdit, listed⟩
    refine .rewrite (fun element listed => areEdits.own source element (isRemoved listed)) fun element listed => ?_
    obtain ⟨node, isItem, rfl⟩ := areEdits.item_of_layout (isRemoved listed)
    refine ⟨node.bare, ?_, rfl⟩
    rw [items_events source.editable.accepted, ← layout_items source.isLayout]
    exact List.mem_map_of_mem isItem
  | insertRun anchor before value =>
    have marks := areEdits.marks source isEdit
    have own := own_of_marks source.isTemplate marks
    rcases marks with ⟨items, listed⟩ | ⟨isField, -, code, listed⟩
    · exact .besideLink own listed
    · exact .besideField own isField listed

theorem AreEdits.apart (areEdits : AreEdits layout text plains displays plain display) (source : IsSource isHyperlinkInstruction children layout) :
    ((plain ++ display).flatMap Edit.items).Nodup := by
  rw [areEdits.items]
  exact (changedItems_sublist _).nodup
    (((rewrites_sublist layout plains displays).flatten.map Node.element).nodup (nodup_stretches source.isTemplate source.isLayout))

theorem AreEdits.fits (areEdits : AreEdits layout text plains displays plain display) (source : IsSource isHyperlinkInstruction children layout) :
    (rewritingOf (plain ++ display)).Fits := by
  have ofMarks {kind : Str} {anchor : Element} (marks : Marks (events isHyperlinkInstruction children) kind anchor) :
      anchor.tag ≠ .instrText ∧ ∀ other, anchor.tag = .fldChar → anchor.get? fldCharType = some other → other = kind := by
    rcases marks with ⟨items, listed⟩ | ⟨isField, isKind, -⟩
    · have isLink : anchor.tag = .hyperlink ∨ anchor.tag = .fldSimple := isRead_events listed
      rcases isLink with isLink | isLink <;> rw [isLink] <;> exact ⟨by decide, fun _ impossible => by cases impossible⟩
    · rw [isField, isKind]
      exact ⟨by decide, fun other _ same => (Option.some.inj same).symm⟩
  have ofBeside {before : Bool} {element : Element} {edit : Edit} (isEdit : edit ∈ plain ++ display) (some : edit.beside before element ≠ []) :
      Marks (events isHyperlinkInstruction children) (if before then str "begin" else str "end") element := by
    cases edit with
    | rewrite first rest value => exact absurd rfl some
    | insertRun anchor front value =>
      rw [Edit.beside] at some
      split at some
      next same =>
        obtain ⟨rfl, rfl⟩ := same
        exact areEdits.marks source isEdit
      next => exact absurd rfl some
  constructor
  · intro element some
    rw [rewritingOf_before (areEdits.own source), ne_eq, List.flatMap_eq_nil_iff] at some
    push Not at some
    obtain ⟨edit, isEdit, some⟩ := some
    exact ofMarks (ofBeside isEdit some)
  · intro element some
    rw [rewritingOf_behind (areEdits.own source), ne_eq, List.flatMap_eq_nil_iff] at some
    push Not at some
    obtain ⟨edit, isEdit, some⟩ := some
    exact ofMarks (ofBeside (List.mem_reverse.mp isEdit) some)

/-! ## The patched paragraph -/

/-- No edit removes an item of a stretch whose text stays. -/
theorem AreEdits.item_of_unchanged (areEdits : AreEdits layout text plains displays plain display)
    (source : IsSource isHyperlinkInstruction children layout) {items : List Node} {value : Str}
    (listed : (items, value) ∈ layout.rewrites plains displays) (same : textOf items = value) :
    ∀ node ∈ items.map Node.bare, (rewritingOf (plain ++ display)).item node = [node] := by
  intro node isNode
  obtain ⟨item, isItem, rfl⟩ := List.mem_map.mp isNode
  have isUnchanged : item.element ∈ unchangedItems (layout.rewrites plains displays) :=
    mem_unchangedItems.mpr ⟨(items, value), listed, same, List.mem_map_of_mem isItem⟩
  have notChanged := (unchanged_apart source.isTemplate source.isLayout isUnchanged).1
  rw [← areEdits.items] at notChanged
  exact rewritingOf_untouched notChanged

/-- In a stretch whose text changes, the first item gives place to the text and the others go. -/
theorem AreEdits.item_of_changed (areEdits : AreEdits layout text plains displays plain display)
    (source : IsSource isHyperlinkInstruction children layout) {first : Node} {rest : List Node} {value : Str}
    (listed : (first :: rest, value) ∈ layout.rewrites plains displays) (different : textOf (first :: rest) ≠ value) :
    (rewritingOf (plain ++ display)).item first.bare = contentNodes first.ancestors value ∧
      ∀ node ∈ rest.map Node.bare, (rewritingOf (plain ++ display)).item node = [] := by
  have isEdit : .rewrite first rest value ∈ plain ++ display := by
    have isRewrite : .rewrite first rest value ∈ rewriteItems (first :: rest) value := by
      rw [rewriteItems, if_neg different]
      exact List.mem_singleton_self _
    rw [Layout.rewrites, List.mem_append] at listed
    rcases listed with inPlain | inDisplay
    · exact List.mem_append_left _ (rewriteItems_of_plainEdits areEdits.isPlain _ inPlain (List.cons_ne_nil _ _) isRewrite)
    · exact List.mem_append_right _ (rewriteItems_of_displayEdits areEdits.isDisplay _ inDisplay isRewrite)
  have apart := areEdits.apart source
  have ofEdit {node : Node} (isNode : node ∈ first :: rest) : (rewritingOf (plain ++ display)).item node.bare =
      if node.element = first.element then contentNodes node.ancestors value else [] :=
    rewritingOf_item apart (areEdits.own source) isEdit (List.mem_map_of_mem isNode)
  refine ⟨(ofEdit List.mem_cons_self).trans (if_pos rfl), fun node isNode => ?_⟩
  obtain ⟨item, isItem, rfl⟩ := List.mem_map.mp isNode
  have distinct : (first.element :: rest.map Node.element).Nodup := (List.nodup_flatMap.mp apart).1 _ isEdit
  have other : item.element ≠ first.element := fun same => (List.nodup_cons.mp distinct).1 (same ▸ List.mem_map_of_mem isItem)
  exact (ofEdit (List.mem_cons_of_mem _ isItem)).trans (if_neg other)

/-- A stretch with items shows its new text. -/
theorem AreEdits.text_of_stretch (areEdits : AreEdits layout text plains displays plain display)
    (source : IsSource isHyperlinkInstruction children layout) {entry : List Node × Str} (listed : entry ∈ layout.rewrites plains displays)
    (hasItems : entry.1 ≠ []) : textOf ((entry.1.map Node.bare).flatMap (rewritingOf (plain ++ display)).item) = entry.2 := by
  obtain ⟨items, value⟩ := entry
  by_cases same : textOf items = value
  · rw [List.flatMap_congr (areEdits.item_of_unchanged source listed same), List.flatMap_singleton', textOf_bare]
    exact same
  · cases items with
    | nil => exact absurd rfl hasItems
    | cons first rest =>
      obtain ⟨isFirst, areRest⟩ := areEdits.item_of_changed source listed same
      rw [List.map_cons, List.flatMap_cons, isFirst, List.flatMap_eq_nil_iff.mpr areRest, List.append_nil, textOf_contentNodes]

/-- The layout of a patched paragraph: the links are those of the paragraph, and all texts the new ones. -/
structure IsPatched (layout after : Layout) (plains : List Str) (displays : List (Str × Str)) : Prop where
  plain : after.plain.map textOf = plains
  displays : after.links.map (fun link => textOf link.items) = displays.map Prod.snd
  links : after.links.map Link.hyperlink = layout.links.map Link.hyperlink

theorem links_parts (rewriting : Rewriting) (front : List Node) (parts : List (List Node × Link)) : (rewriting.parts front parts).map Prod.snd =
    parts.map fun part => { part.2 with items := part.2.items.flatMap rewriting.item } := by
  induction parts generalizing front with
  | nil => rfl
  | cons part parts inductionHypothesis => exact congrArg (_ :: ·) (inductionHypothesis _)

theorem map_eq_of_zip {α : Type} {entries : List α} {values : List Str} {shown : α → Str} (sameLength : entries.length = values.length)
    (each : ∀ entry ∈ entries.zip values, shown entry.1 = entry.2) : entries.map shown = values := by
  induction entries generalizing values with
  | nil => exact (List.length_eq_zero_iff.mp sameLength.symm).symm
  | cons entry entries inductionHypothesis =>
    obtain ⟨value, values, rfl⟩ := List.exists_cons_of_length_eq_add_one sameLength.symm
    rw [List.zip_cons_cons, List.forall_mem_cons] at each
    rw [List.map_cons, each.1, inductionHypothesis (Nat.succ_inj.mp sameLength) each.2]

theorem items_of_displayEdits {links : List Link} (areEdits : displayEdits links displays = .ok edits) (sameLinks : links.length = displays.length) :
    ∀ link ∈ links, link.items ≠ [] := by
  induction links generalizing displays edits with
  | nil => exact List.forall_mem_nil _
  | cons link links inductionHypothesis =>
    obtain ⟨display, displays, rfl⟩ := List.exists_cons_of_length_eq_add_one sameLinks.symm
    obtain ⟨id, display⟩ := display
    rw [displayEdits, ite_error_eq_ok] at areEdits
    obtain ⟨hasItems, areEdits⟩ := areEdits
    obtain ⟨rest, isRest, -⟩ := ok_bind_iff.mp areEdits
    exact List.forall_mem_cons.mpr ⟨by simpa using hasItems, inductionHypothesis isRest (Nat.succ_inj.mp sameLinks)⟩

/-- Patched, a paragraph all of whose items sit in runs is laid out again with the same links and the new texts. -/
theorem layout_of_patched (source : IsSource isHyperlinkInstruction children layout) (isOk : paragraphEdits layout text = .ok edits) :
    ∃ plains displays after, linkParts text = .ok (plains, displays) ∧
      paragraphLayout isHyperlinkInstruction (edits.foldl Edit.apply children) = some after ∧ IsPatched layout after plains displays ∧
      Editable isHyperlinkInstruction (edits.foldl Edit.apply children) := by
  obtain ⟨plains, displays, plain, display, areEdits, rfl⟩ := areEdits_of_ok isOk
  obtain ⟨isLine, editable⟩ := source.editable.run (areEdits.placed source) (areEdits.apart source)
  have rewritten := layoutOf_rewritten source.line (areEdits.fits source) fun _ listed => isRead_events listed
  rw [← isLine, ← paragraphLayout_eq] at rewritten
  obtain ⟨after, isAfter, sameLayout⟩ := Option.map_eq_some_iff.mp rewritten
  refine ⟨plains, displays, after, areEdits.isParts, isAfter, ?_, editable⟩
  have own := areEdits.own source
  have starts := source.framed.starts
  have stops := source.framed.stops
  have distinct : ((events isHyperlinkInstruction children).filterMap Event.place?).Nodup :=
    (places_events children).nodup (List.Nodup.of_map _ source.isTemplate.distinct)
  simp only [Option.map_none, Option.toList_none, List.append_nil, bare_starts, bare_stops] at starts stops
  have texts := texts_of_parts areEdits.isPlain (fun entry listed => areEdits.text_of_stretch source (List.mem_append_left _ listed))
    (fun part _ => by
      rw [rewritingOf_before own, List.flatMap_append, List.append_right_eq_self]
      exact List.flatMap_eq_nil_iff.mpr (beside_displayEdits areEdits.isDisplay))
    (fun link _ => by
      rw [rewritingOf_behind own, List.reverse_append, List.flatMap_append, List.append_left_eq_self]
      exact reverse_flatMap_beside (beside_displayEdits areEdits.isDisplay))
    (starts.nodup distinct) (by
      rw [Option.toList_none, List.nil_append, List.map_map]
      exact stops.nodup distinct) rfl
  have areLinks : after.links.map Link.bare =
      layout.links.map fun link => { link with items := (link.items.map Node.bare).flatMap (rewritingOf (plain ++ display)).item } := by
    have isSame := congrArg Layout.links sameLayout
    rw [Layout.links, Layout.bare, List.map_map] at isSame
    rw [Layout.links, List.map_map]
    refine isSame.trans ?_
    rw [Layout.links, Rewriting.layout, links_parts, Layout.bare, List.map_map, Layout.links, List.map_map]
    rfl
  constructor
  · have shown : after.plain.map textOf = after.bare.plain.map textOf := by
      rw [Layout.plain, Layout.plain, Layout.bare, List.map_append, List.map_append, List.map_map, List.map_map, List.map_map, List.map_singleton,
        List.map_singleton, textOf_bare]
      refine congrArg (· ++ _) (List.map_congr_left fun part _ => ?_)
      exact (textOf_bare part.1).symm
    rw [shown, sameLayout, Layout.plain, Rewriting.layout, List.map_append, List.map_map]
    exact texts
  · have shown : after.links.map (fun link => textOf link.items) = (after.links.map Link.bare).map fun link => textOf link.items := by
      rw [List.map_map]
      exact List.map_congr_left fun link _ => (textOf_bare link.items).symm
    rw [shown, areLinks, List.map_map]
    have each := @map_eq_of_zip _ (layout.links.map Link.items) (displays.map Prod.snd)
      (fun items => textOf ((items.map Node.bare).flatMap (rewritingOf (plain ++ display)).item)) (by simp [areEdits.sameLinks]) ?_
    · rw [List.map_map] at each
      exact each
    · intro entry listed
      refine areEdits.text_of_stretch source (List.mem_append_right _ listed) ?_
      obtain ⟨link, isLink, same⟩ := List.mem_map.mp (List.of_mem_zip listed).1
      rw [← same]
      exact items_of_displayEdits areEdits.isDisplay areEdits.sameLinks link isLink
  · have sameLinks := congrArg (List.map Link.hyperlink) areLinks
    rwa [List.map_map, List.map_map] at sameLinks

end

end Oveo.Docx
