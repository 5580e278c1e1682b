import Oveo.Docx.Editable

/-! # All edits of a paragraph, read again

The edits of a paragraph are one rewriting of its line: an item goes or gives place to new content in the one
edit that names it, and beside a link stands what the edits put there. -/

namespace Oveo.Docx

open Oveo.Lib

/-! ## All edits of a paragraph -/

def rewritingOf : List Edit → Rewriting
  | [] => .none
  | edit :: edits => edit.rewriting.andThen (rewritingOf edits)

section

variable {isHyperlinkInstruction : Str → Bool} {forest : Forest} {line : List Event} {edit other : Edit} {edits : List Edit} {node : Node}

/-- What an edit does not remove, it leaves. -/
theorem item_of_not_listed (notListed : node.element ∉ edit.items) : edit.rewriting.item node = [node] := by
  cases edit with
  | rewrite first rest value =>
    obtain ⟨notFirst, notRest⟩ := not_or.mp (fun listed => notListed (List.mem_cons.mpr listed))
    simp only [Edit.rewriting, rewritingOfItems, if_neg notFirst, if_neg notRest]
  | insertRun anchor before value => rfl

/-- An edit stays placed while others are made. -/
theorem Edit.Placed.after (placed : edit.Placed line) (apart : ∀ element ∈ edit.items, element ∉ other.items) :
    edit.Placed (line.flatMap other.rewriting.onEvent) := by
  cases placed with
  | @rewrite first rest value areOwn areItems =>
    refine .rewrite areOwn fun element listed => ?_
    obtain ⟨node, isNode, rfl⟩ := areItems element listed
    obtain ⟨event, isEvent, isItem⟩ := List.mem_flatMap.mp isNode
    have kept := item_of_not_listed (apart node.element listed)
    refine ⟨node, ?_, rfl⟩
    rw [List.flatMap_assoc]
    refine List.mem_flatMap.mpr ⟨event, isEvent, ?_⟩
    cases event with
    | item item =>
      rw [List.mem_singleton.mp isItem] at kept
      rw [List.mem_singleton.mp isItem, Rewriting.onEvent, kept]
      exact List.mem_singleton_self item
    | mark _ _ => cases isItem
    | link element items =>
      have stays : node ∈ items.flatMap other.rewriting.item := List.mem_flatMap.mpr ⟨node, isItem, by rw [kept]; exact List.mem_singleton_self node⟩
      rw [Rewriting.onEvent, List.flatMap_append, List.flatMap_cons]
      exact List.mem_append_right _ (List.mem_append_left _ stays)
    | refusal => cases isItem
  | @besideLink anchor before value items own listed =>
    exact .besideLink own (List.mem_flatMap.mpr ⟨.link anchor items, listed, List.mem_append_right _ List.mem_cons_self⟩)
  | @besideField anchor before value code own isField listed =>
    exact .besideField own isField (List.mem_flatMap.mpr ⟨.mark anchor code, listed, List.mem_append_right _ List.mem_cons_self⟩)

/-- Edits of different items rewrite the line, one after the other. -/
theorem Editable.run (editable : Editable isHyperlinkInstruction forest) (placed : ∀ edit ∈ edits, edit.Placed (events isHyperlinkInstruction forest))
    (apart : (edits.flatMap Edit.items).Nodup) :
    events isHyperlinkInstruction (edits.foldl Edit.apply forest) = (events isHyperlinkInstruction forest).flatMap (rewritingOf edits).onEvent ∧
      Editable isHyperlinkInstruction (edits.foldl Edit.apply forest) := by
  induction edits generalizing forest with
  | nil =>
    refine ⟨?_, editable⟩
    rw [rewritingOf, List.flatMap_congr fun event _ => onEvent_none event, List.flatMap_singleton']
    rfl
  | cons edit edits inductionHypothesis =>
    obtain ⟨isPlaced, placed⟩ := List.forall_mem_cons.mp placed
    rw [List.flatMap_cons, List.nodup_append] at apart
    obtain ⟨-, apartRest, different⟩ := apart
    obtain ⟨isLine, next⟩ := editable.step isPlaced
    have stillPlaced : ∀ later ∈ edits, later.Placed (events isHyperlinkInstruction (edit.apply forest)) := by
      intro later isLater
      rw [isLine]
      exact (placed later isLater).after fun element listed isEdited =>
        different element isEdited element (List.mem_flatMap.mpr ⟨later, isLater, listed⟩) rfl
    obtain ⟨isRest, last⟩ := inductionHypothesis next stillPlaced apartRest
    refine ⟨?_, last⟩
    rw [List.foldl_cons, isRest, isLine, List.flatMap_assoc]
    exact List.flatMap_congr fun event _ => onEvent_andThen event

end

/-! ## What the edits make of an item -/

section

variable {edits : List Edit} {node : Node} {value : Str} {ancestors : List Tag} {element : Element}

theorem rewritingOf_untouched (untouched : node.element ∉ edits.flatMap Edit.items) : (rewritingOf edits).item node = [node] := by
  induction edits with
  | nil => rfl
  | cons edit edits inductionHypothesis =>
    rw [List.flatMap_cons, List.mem_append, not_or] at untouched
    show (edit.rewriting.item node).flatMap (rewritingOf edits).item = [node]
    rw [item_of_not_listed untouched.1, List.flatMap_singleton]
    exact inductionHypothesis untouched.2

/-- New content stays: it is not of the template. -/
theorem rewritingOf_content (areOwn : ∀ element ∈ edits.flatMap Edit.items, element.identity.isOwn = true) :
    (contentNodes ancestors value).flatMap (rewritingOf edits).item = contentNodes ancestors value := by
  have untouched : ∀ node ∈ contentNodes ancestors value, (rewritingOf edits).item node = [node] := by
    intro node listed
    refine rewritingOf_untouched fun isEdited => ?_
    have isOwn := areOwn node.element isEdited
    rw [(mem_contentNodes listed).2.2.1] at isOwn
    cases isOwn
  rw [List.flatMap_congr untouched, List.flatMap_singleton']

theorem rewritingOf_item {first : Node} {rest : List Node} (apart : (edits.flatMap Edit.items).Nodup)
    (areOwn : ∀ element ∈ edits.flatMap Edit.items, element.identity.isOwn = true) (isEdit : .rewrite first rest value ∈ edits)
    (listed : node.element ∈ first.element :: rest.map Node.element) :
    (rewritingOf edits).item node = if node.element = first.element then contentNodes node.ancestors value else [] := by
  induction edits with
  | nil => cases isEdit
  | cons edit edits inductionHypothesis =>
    rw [List.flatMap_cons, List.nodup_append] at apart
    rw [List.flatMap_cons, List.forall_mem_append] at areOwn
    obtain ⟨-, apartRest, different⟩ := apart
    show (edit.rewriting.item node).flatMap (rewritingOf edits).item = _
    rcases List.mem_cons.mp isEdit with rfl | later
    · by_cases isFirst : node.element = first.element
      · simp only [Edit.rewriting, rewritingOfItems, if_pos isFirst]
        exact rewritingOf_content areOwn.2
      · have isRest := (List.mem_cons.mp listed).resolve_left isFirst
        simp only [Edit.rewriting, rewritingOfItems, if_neg isFirst, if_pos isRest]
        rfl
    · have notListed : node.element ∉ edit.items := fun isEdited =>
        different _ isEdited _ (List.mem_flatMap.mpr ⟨_, later, listed⟩) rfl
      rw [item_of_not_listed notListed, List.flatMap_singleton]
      exact inductionHypothesis apartRest areOwn.2 later

/-- What an edit puts beside an element. -/
def Edit.beside (before : Bool) (element : Element) : Edit → List Node
  | .insertRun anchor front value => if element = anchor ∧ front = before then contentNodes [.r] value else []
  | .rewrite _ _ _ => []

theorem beside_before (edit : Edit) (element : Element) : edit.rewriting.before element = edit.beside true element := by
  cases edit <;> rfl

theorem beside_behind (edit : Edit) (element : Element) : edit.rewriting.behind element = edit.beside false element := by
  cases edit <;> rfl

theorem rewritingOf_beside (areOwn : ∀ element ∈ edits.flatMap Edit.items, element.identity.isOwn = true) (before : Bool) (edit : Edit) :
    (edit.beside before element).flatMap (rewritingOf edits).item = edit.beside before element := by
  cases edit with
  | rewrite first rest value => rfl
  | insertRun anchor front value =>
    rw [Edit.beside]
    split
    next => exact rewritingOf_content areOwn
    next => rfl

theorem rewritingOf_before (areOwn : ∀ element ∈ edits.flatMap Edit.items, element.identity.isOwn = true) :
    (rewritingOf edits).before element = edits.flatMap (Edit.beside true element) := by
  induction edits with
  | nil => rfl
  | cons edit edits inductionHypothesis =>
    rw [List.flatMap_cons, List.forall_mem_append] at areOwn
    rw [List.flatMap_cons, ← inductionHypothesis areOwn.2, rewritingOf, Rewriting.andThen]
    simp only
    rw [beside_before, rewritingOf_beside areOwn.2]

theorem rewritingOf_behind (areOwn : ∀ element ∈ edits.flatMap Edit.items, element.identity.isOwn = true) :
    (rewritingOf edits).behind element = edits.reverse.flatMap (Edit.beside false element) := by
  induction edits with
  | nil => rfl
  | cons edit edits inductionHypothesis =>
    rw [List.flatMap_cons, List.forall_mem_append] at areOwn
    rw [List.reverse_cons, List.flatMap_append, ← inductionHypothesis areOwn.2, List.flatMap_singleton, rewritingOf, Rewriting.andThen]
    simp only
    rw [beside_behind, rewritingOf_beside areOwn.2]

end

/-! ## Where the links stand -/

/-- What opens or closes a link on a line: the link itself, or a field character of this kind. -/
def Marks (line : List Event) (kind : Str) (element : Element) : Prop :=
  (∃ items, .link element items ∈ line) ∨
    (element.tag = .fldChar ∧ element.get? fldCharType = some kind ∧ ∃ code, .mark element code ∈ line)

/-- The links of a layout stand on the line, one behind the other. -/
structure Framed (line seen : List Event) (scan : Scan) : Prop where
  starts : (scan.parts.map (fun part => part.2.start) ++ (scan.field.map Field.start).toList).Sublist (seen.filterMap Event.place?)
  stops : (scan.parts.map fun part => part.2.stop).Sublist (seen.filterMap Event.place?)
  opens : ∀ element ∈ scan.parts.map (fun part => part.2.start) ++ (scan.field.map Field.start).toList, Marks line (str "begin") element
  closes : ∀ element ∈ scan.parts.map fun part => part.2.stop, Marks line (str "end") element

section

variable {isHyperlinkInstruction : Str → Bool} {line seen : List Event} {scan next : Scan} {event : Event} {layout : Layout}

theorem Framed.read (framed : Framed line seen scan) (listed : event ∈ line) (isRead : event.IsRead)
    (reads : scan.Reads isHyperlinkInstruction event next) : Framed line (seen ++ [event]) next := by
  obtain ⟨starts, stops, opens, closes⟩ := framed
  have kept {places : List Element} (sublist : places.Sublist (seen.filterMap Event.place?)) :
      places.Sublist ((seen ++ [event]).filterMap Event.place?) := by
    rw [List.filterMap_append]
    exact sublist.trans (List.sublist_append_left _ _)
  have added {places : List Element} {element : Element} (isPlace : event.place? = some element)
      (sublist : places.Sublist (seen.filterMap Event.place?)) : (places ++ [element]).Sublist ((seen ++ [event]).filterMap Event.place?) := by
    have isLast : [event].filterMap Event.place? = [element] := by rw [List.filterMap_cons, isPlace, List.filterMap_nil]
    rw [List.filterMap_append, isLast]
    exact sublist.append (List.Sublist.refl _)
  cases reads with
  | plain => exact ⟨kept starts, kept stops, opens, closes⟩
  | shown => exact ⟨kept starts, kept stops, opens, closes⟩
  | code => exact ⟨kept starts, kept stops, opens, closes⟩
  | separates => exact ⟨kept starts, kept stops, opens, closes⟩
  | @begins parts current element code isCharacter kind =>
    have isField : element.tag = .fldChar := isRead.resolve_right isCharacter
    have isMark : Marks line (str "begin") element := .inr ⟨isField, kind, code, listed⟩
    simp only [Option.map_none, Option.toList_none, List.append_nil] at starts opens
    exact ⟨added rfl starts, kept stops, List.forall_mem_append.mpr ⟨opens, List.forall_mem_singleton.mpr isMark⟩, closes⟩
  | @ends parts current start instruction display element code isCharacter kind =>
    have isField : element.tag = .fldChar := isRead.resolve_right isCharacter
    have isMark : Marks line (str "end") element := .inr ⟨isField, kind, code, listed⟩
    -- the place where the field began is that of the link now
    have sameStarts : (parts ++ [(current, (⟨start, element, display, none⟩ : Link))]).map (fun part => part.2.start) =
        parts.map (fun part => part.2.start) ++ [start] := List.map_append
    refine ⟨?_, ?_, ?_, ?_⟩
    · simp only [sameStarts, Option.map_none, Option.toList_none, List.append_nil]
      exact kept starts
    · rw [List.map_append]
      exact added rfl stops
    · simp only [sameStarts, Option.map_none, Option.toList_none, List.append_nil]
      exact opens
    · rw [List.map_append]
      exact List.forall_mem_append.mpr ⟨closes, List.forall_mem_singleton.mpr isMark⟩
  | @link parts current element items =>
    have isLink (kind : Str) : Marks line kind element := .inl ⟨items, listed⟩
    have sameStarts : (parts ++ [(current, Link.ofElement element items)]).map (fun part => part.2.start) =
        parts.map (fun part => part.2.start) ++ [element] := List.map_append
    simp only [Option.map_none, Option.toList_none, List.append_nil] at starts opens
    refine ⟨?_, ?_, ?_, ?_⟩
    · simp only [sameStarts, Option.map_none, Option.toList_none, List.append_nil]
      exact added rfl starts
    · rw [List.map_append]
      exact added rfl stops
    · simp only [sameStarts, Option.map_none, Option.toList_none, List.append_nil]
      exact List.forall_mem_append.mpr ⟨opens, List.forall_mem_singleton.mpr (isLink _)⟩
    · rw [List.map_append]
      exact List.forall_mem_append.mpr ⟨closes, List.forall_mem_singleton.mpr (isLink _)⟩

theorem framed_of_layout (isLayout : layoutOf isHyperlinkInstruction line = some layout) (areRead : ∀ event ∈ line, event.IsRead) :
    Framed line line ⟨layout.parts, layout.last, none⟩ := by
  refine layout_induction isLayout ⟨List.Sublist.refl _, List.Sublist.refl _, List.forall_mem_nil _, List.forall_mem_nil _⟩ ?_
  intro seen scan event next listed reads framed
  exact framed.read listed (areRead event listed) reads

/-- A line with a layout refuses nothing. -/
theorem accepted_of_layout (isLayout : layoutOf isHyperlinkInstruction line = some layout) : .refusal ∉ line := by
  refine @layout_induction isHyperlinkInstruction line (fun seen _ => .refusal ∉ seen) layout isLayout List.not_mem_nil ?_
  intro seen scan event next _ reads notSeen refused
  rcases List.mem_append.mp refused with before | here
  · exact notSeen before
  · rw [← List.mem_singleton.mp here] at reads
    cases reads

end

end Oveo.Docx
