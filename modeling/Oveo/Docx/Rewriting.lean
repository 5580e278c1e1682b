import Oveo.Docx.Events

/-! # Rewritten lines

A rewriting gives each item of a line its new items, and puts items beside field characters and links.  Where
it puts them in front of what opens a link and behind what closes one, the line still has a layout: the same
links, with the new items in their stretches. -/

namespace Oveo.Docx

open Oveo.Lib

/-! ## One step of the scan -/

inductive Scan.Reads (isHyperlinkInstruction : Str → Bool) : Scan → Event → Scan → Prop
  | plain {parts current node} :
      Reads isHyperlinkInstruction ⟨parts, current, none⟩ (.item node) ⟨parts, current ++ [node], none⟩
  | shown {parts current start instruction display node} :
      Reads isHyperlinkInstruction ⟨parts, current, some ⟨start, instruction, some display⟩⟩ (.item node)
        ⟨parts, current, some ⟨start, instruction, some (display ++ [node])⟩⟩
  | begins {parts current element code} (isCharacter : element.tag ≠ .instrText) (kind : element.get? fldCharType = some (str "begin")) :
      Reads isHyperlinkInstruction ⟨parts, current, none⟩ (.mark element code) ⟨parts, current, some ⟨element, [], none⟩⟩
  | code {parts current start instruction element code} (isCode : element.tag = .instrText) :
      Reads isHyperlinkInstruction ⟨parts, current, some ⟨start, instruction, none⟩⟩ (.mark element code)
        ⟨parts, current, some ⟨start, instruction ++ code, none⟩⟩
  | separates {parts current start instruction element code} (isCharacter : element.tag ≠ .instrText)
      (kind : element.get? fldCharType = some (str "separate")) (isHyperlink : isHyperlinkInstruction instruction = true) :
      Reads isHyperlinkInstruction ⟨parts, current, some ⟨start, instruction, none⟩⟩ (.mark element code)
        ⟨parts, current, some ⟨start, instruction, some []⟩⟩
  | ends {parts current start instruction display element code} (isCharacter : element.tag ≠ .instrText)
      (kind : element.get? fldCharType = some (str "end")) :
      Reads isHyperlinkInstruction ⟨parts, current, some ⟨start, instruction, some display⟩⟩ (.mark element code)
        ⟨parts ++ [(current, ⟨start, element, display, none⟩)], [], none⟩
  | link {parts current element items} :
      Reads isHyperlinkInstruction ⟨parts, current, none⟩ (.link element items) ⟨parts ++ [(current, .ofElement element items)], [], none⟩

section

variable {isHyperlinkInstruction : Str → Bool} {scan next : Scan} {event : Event} {line : List Event}

theorem Scan.reads_of_taken (taken : scan.event isHyperlinkInstruction event = some next) : scan.Reads isHyperlinkInstruction event next := by
  obtain ⟨parts, current, field⟩ := scan
  cases event with
  | refusal => cases taken
  | item node =>
    rw [Scan.event, Scan.item] at taken
    cases field with
    | none =>
      cases taken
      exact .plain
    | some field =>
      obtain ⟨start, instruction, display⟩ := field
      cases display with
      | none => cases taken
      | some display =>
        cases taken
        exact .shown
  | link element items =>
    rw [Scan.event] at taken
    cases field with
    | none =>
      cases taken
      exact .link
    | some field => cases taken
  | mark element code =>
    rw [Scan.event] at taken
    by_cases isCode : element.tag = .instrText
    · rw [if_pos isCode] at taken
      cases field with
      | none => cases taken
      | some field =>
        obtain ⟨start, instruction, display⟩ := field
        cases display with
        | some display => cases taken
        | none =>
          cases taken
          exact .code isCode
    · rw [if_neg isCode, Scan.fieldCharacter] at taken
      cases field with
      | none =>
        obtain ⟨kind, isNext⟩ := Option.ite_none_right_eq_some.mp taken
        cases isNext
        exact .begins isCode kind
      | some field =>
        obtain ⟨start, instruction, display⟩ := field
        cases display with
        | none =>
          obtain ⟨kind, isNext⟩ := Option.ite_none_right_eq_some.mp taken
          cases isNext
          rw [Bool.and_eq_true, decide_eq_true_eq] at kind
          exact .separates isCode kind.1 kind.2
        | some display =>
          obtain ⟨kind, isNext⟩ := Option.ite_none_right_eq_some.mp taken
          cases isNext
          exact .ends isCode kind

theorem Scan.Reads.taken (reads : scan.Reads isHyperlinkInstruction event next) : scan.event isHyperlinkInstruction event = some next := by
  cases reads with
  | plain => rfl
  | shown => rfl
  | begins isCharacter kind => simp [Scan.event, Scan.fieldCharacter, isCharacter, kind]
  | code isCode => simp [Scan.event, isCode]
  | separates isCharacter kind isHyperlink => simp [Scan.event, Scan.fieldCharacter, isCharacter, kind, isHyperlink]
  | ends isCharacter kind => simp [Scan.event, Scan.fieldCharacter, isCharacter, kind]
  | link => rfl

/-- What each step keeps, a line with a layout keeps. -/
theorem layout_induction {holds : List Event → Scan → Prop} {layout : Layout} (isLayout : layoutOf isHyperlinkInstruction line = some layout)
    (start : holds [] ⟨[], [], none⟩)
    (step : ∀ seen scan event next, event ∈ line → scan.Reads isHyperlinkInstruction event next → holds seen scan → holds (seen ++ [event]) next) :
    holds line ⟨layout.parts, layout.last, none⟩ := by
  have run : ∀ rest seen scan next, rest ⊆ line → rest.foldlM (Scan.event isHyperlinkInstruction) scan = some next → holds seen scan →
      holds (seen ++ rest) next := by
    intro rest
    induction rest with
    | nil =>
      intro seen scan next _ taken isHeld
      cases taken
      rwa [List.append_nil]
    | cons event rest inductionHypothesis =>
      intro seen scan next listed taken isHeld
      rw [List.foldlM_cons] at taken
      obtain ⟨between, isFirst, isRest⟩ := Option.bind_eq_some_iff.mp taken
      rw [List.cons_subset] at listed
      have held := step seen scan event between listed.1 (Scan.reads_of_taken isFirst) isHeld
      rw [← List.singleton_append, ← List.append_assoc]
      exact inductionHypothesis _ between next listed.2 isRest held
  rw [layoutOf] at isLayout
  split at isLayout
  next parts current scanned =>
    cases isLayout
    exact run line [] _ _ (List.Subset.refl _) scanned start
  next => cases isLayout

end

/-! ## Rewritings -/

structure Rewriting where
  item : Node → List Node
  before : Element → List Node
  behind : Element → List Node

namespace Rewriting

/-- The rewriting that leaves everything. -/
def none : Rewriting := ⟨fun node => [node], fun _ => [], fun _ => []⟩

/-- One rewriting after the other. -/
def andThen (first second : Rewriting) : Rewriting where
  item node := (first.item node).flatMap second.item
  before element := (first.before element).flatMap second.item ++ second.before element
  behind element := second.behind element ++ (first.behind element).flatMap second.item

variable (rewriting : Rewriting)

/-- What becomes of an event. -/
def onEvent : Event → List Event
  | .item node => (rewriting.item node).map .item
  | .mark element code =>
    (rewriting.before element).map .item ++ .mark element code :: (rewriting.behind element).map .item
  | .link element items =>
    (rewriting.before element).map .item ++ .link element (items.flatMap rewriting.item) :: (rewriting.behind element).map .item
  | .refusal => [.refusal]

/-- The stretches before links and the links, with these items in front. -/
def parts (front : List Node) : List (List Node × Link) → List (List Node × Link)
  | [] => []
  | (items, link) :: rest =>
    (front ++ items.flatMap rewriting.item ++ rewriting.before link.start, { link with items := link.items.flatMap rewriting.item }) ::
      parts (rewriting.behind link.stop) rest

/-- The items in front of the stretch behind these links. -/
def front (items : List Node) : List (List Node × Link) → List Node
  | [] => items
  | (_, link) :: rest => front (rewriting.behind link.stop) rest

def layout (layout : Layout) : Layout :=
  ⟨rewriting.parts [] layout.parts, rewriting.front [] layout.parts ++ layout.last.flatMap rewriting.item⟩

/-- Items are put only in front of what opens a link and behind what closes one. -/
structure Fits : Prop where
  opens : ∀ element, rewriting.before element ≠ [] → element.tag ≠ .instrText ∧
    ∀ kind, element.tag = .fldChar → element.get? fldCharType = some kind → kind = str "begin"
  closes : ∀ element, rewriting.behind element ≠ [] → element.tag ≠ .instrText ∧
    ∀ kind, element.tag = .fldChar → element.get? fldCharType = some kind → kind = str "end"

end Rewriting

section

variable {rewriting first second : Rewriting} {event : Event} {line : List Event}

theorem onEvent_none (event : Event) : Rewriting.none.onEvent event = [event] := by
  cases event <;> simp [Rewriting.none, Rewriting.onEvent]

theorem flatMap_onEvent_items (items : List Node) :
    (items.map Event.item).flatMap rewriting.onEvent = (items.flatMap rewriting.item).map Event.item := by
  rw [List.flatMap_map, List.map_flatMap]
  rfl

theorem onEvent_andThen (event : Event) : (first.onEvent event).flatMap second.onEvent = (first.andThen second).onEvent event := by
  cases event with
  | item node => exact flatMap_onEvent_items _
  | mark element code =>
    simp only [Rewriting.onEvent, Rewriting.andThen, List.flatMap_append, List.flatMap_cons, flatMap_onEvent_items, List.map_append,
      List.append_assoc, List.cons_append]
  | link element items =>
    simp only [Rewriting.onEvent, Rewriting.andThen, List.flatMap_append, List.flatMap_cons, flatMap_onEvent_items, List.map_append,
      List.append_assoc, List.cons_append, List.flatMap_assoc]
  | refusal => rfl

theorem parts_append (front : List Node) (parts : List (List Node × Link)) (part : List Node × Link) :
    rewriting.parts front (parts ++ [part]) = rewriting.parts front parts ++ rewriting.parts (rewriting.front front parts) [part] := by
  induction parts generalizing front with
  | nil => rfl
  | cons first parts inductionHypothesis =>
    rw [List.cons_append, Rewriting.parts, Rewriting.parts, inductionHypothesis]
    rfl

theorem front_append (front : List Node) (parts : List (List Node × Link)) (part : List Node × Link) :
    rewriting.front front (parts ++ [part]) = rewriting.behind part.2.stop := by
  induction parts generalizing front with
  | nil => rfl
  | cons first parts inductionHypothesis => exact inductionHypothesis _

end

/-! ## The layout of a rewritten line -/

/-- Where the scan of a rewritten line is, by where the scan of the line is. -/
def Scan.rewritten (rewriting : Rewriting) (scan : Scan) : Scan where
  parts := rewriting.parts [] scan.parts
  current := rewriting.front [] scan.parts ++ scan.current.flatMap rewriting.item ++ (scan.field.map fun field => rewriting.before field.start).getD []
  field := scan.field.map fun field => { field with display := field.display.map fun items => items.flatMap rewriting.item }

/-- Field markup is made of field characters and codes, and a link is an element for links. -/
def Event.IsRead : Event → Prop
  | .mark element _ => element.tag = .fldChar ∨ element.tag = .instrText
  | .link element _ => element.tag = .hyperlink ∨ element.tag = .fldSimple
  | _ => True

section

variable {isHyperlinkInstruction : Str → Bool} {rewriting : Rewriting} {scan next : Scan} {event : Event} {line : List Event} {layout : Layout}

theorem scan_plain (parts : List (List Node × Link)) (current items : List Node) :
    (items.map Event.item).foldlM (Scan.event isHyperlinkInstruction) ⟨parts, current, none⟩ = some ⟨parts, current ++ items, none⟩ := by
  induction items generalizing current with
  | nil => simp
  | cons node items inductionHypothesis =>
    rw [List.map_cons, List.foldlM_cons]
    simp only [Scan.event, Scan.item, Option.bind_eq_bind, Option.bind_some]
    rw [inductionHypothesis, List.append_assoc, List.singleton_append]

theorem scan_shown (parts : List (List Node × Link)) (current display items : List Node) (start : Element) (instruction : Str) :
    (items.map Event.item).foldlM (Scan.event isHyperlinkInstruction) ⟨parts, current, some ⟨start, instruction, some display⟩⟩ =
      some ⟨parts, current, some ⟨start, instruction, some (display ++ items)⟩⟩ := by
  induction items generalizing display with
  | nil => simp
  | cons node items inductionHypothesis =>
    rw [List.map_cons, List.foldlM_cons]
    simp only [Scan.event, Scan.item, Option.bind_eq_bind, Option.bind_some]
    rw [inductionHypothesis, List.append_assoc, List.singleton_append]

/-- The scan of a rewritten event keeps step with the scan of the event. -/
theorem Scan.Reads.rewritten (reads : scan.Reads isHyperlinkInstruction event next) (fits : rewriting.Fits) (isRead : event.IsRead) :
    (rewriting.onEvent event).foldlM (Scan.event isHyperlinkInstruction) (scan.rewritten rewriting) = some (next.rewritten rewriting) := by
  have notBefore {element : Element} (apart : element.tag = .instrText ∨
      ∃ kind, element.tag = .fldChar ∧ element.get? fldCharType = some kind ∧ kind ≠ str "begin") : rewriting.before element = [] := by
    by_contra some
    obtain ⟨notCode, opens⟩ := fits.opens element some
    rcases apart with isCode | ⟨kind, isCharacter, isKind, notBegin⟩
    · exact notCode isCode
    · exact notBegin (opens kind isCharacter isKind)
  have notBehind {element : Element} (apart : element.tag = .instrText ∨
      ∃ kind, element.tag = .fldChar ∧ element.get? fldCharType = some kind ∧ kind ≠ str "end") : rewriting.behind element = [] := by
    by_contra some
    obtain ⟨notCode, closes⟩ := fits.closes element some
    rcases apart with isCode | ⟨kind, isCharacter, isKind, notEnd⟩
    · exact notCode isCode
    · exact notEnd (closes kind isCharacter isKind)
  cases reads with
  | plain =>
    simp only [Rewriting.onEvent, Scan.rewritten, Option.map_none, Option.getD_none, List.append_nil, scan_plain, List.flatMap_append,
      List.flatMap_cons, List.flatMap_nil, List.append_assoc]
  | shown =>
    simp only [Rewriting.onEvent, Scan.rewritten, Option.map_some, scan_shown, List.flatMap_append, List.flatMap_cons, List.flatMap_nil,
      List.append_nil]
  | @begins parts current element code isCharacter kind =>
    have isField : element.tag = .fldChar := isRead.resolve_right isCharacter
    rw [Rewriting.onEvent, notBehind (.inr ⟨_, isField, kind, by decide⟩), List.foldlM_append]
    simp only [Scan.rewritten, Option.map_none, Option.getD_none, List.append_nil, scan_plain, Option.bind_eq_bind, Option.bind_some,
      List.map_nil, List.foldlM_cons, List.foldlM_nil, bind_pure, Option.map_some, Option.getD_some]
    exact (Scan.Reads.begins isCharacter kind).taken
  | code isCode =>
    rw [Rewriting.onEvent, notBefore (.inl isCode), notBehind (.inl isCode)]
    simp only [Scan.rewritten, Option.map_some, Option.map_none, Option.getD_some, List.map_nil, List.nil_append, List.foldlM_cons,
      List.foldlM_nil, bind_pure]
    exact (Scan.Reads.code isCode).taken
  | @separates parts current start instruction element code isCharacter kind isHyperlink =>
    have isField : element.tag = .fldChar := isRead.resolve_right isCharacter
    rw [Rewriting.onEvent, notBefore (.inr ⟨_, isField, kind, by decide⟩), notBehind (.inr ⟨_, isField, kind, by decide⟩)]
    simp only [Scan.rewritten, Option.map_some, Option.map_none, Option.getD_some, List.map_nil, List.nil_append, List.foldlM_cons,
      List.foldlM_nil, bind_pure, List.flatMap_nil]
    exact (Scan.Reads.separates isCharacter kind isHyperlink).taken
  | @ends parts current start instruction display element code isCharacter kind =>
    have isField : element.tag = .fldChar := isRead.resolve_right isCharacter
    rw [Rewriting.onEvent, notBefore (.inr ⟨_, isField, kind, by decide⟩), List.map_nil, List.nil_append, List.foldlM_cons]
    simp only [Scan.rewritten, Option.map_some, Option.getD_some, Option.map_none, Option.getD_none, List.append_nil, List.flatMap_nil,
      parts_append, front_append, (Scan.Reads.ends isCharacter kind).taken, Option.bind_eq_bind, Option.bind_some, scan_plain, List.nil_append]
    rfl
  | @link parts current element items =>
    rw [Rewriting.onEvent, List.foldlM_append]
    simp only [Scan.rewritten, Option.map_none, Option.getD_none, List.append_nil, scan_plain, Option.bind_eq_bind, Option.bind_some,
      List.foldlM_cons, (Scan.Reads.link).taken, parts_append, front_append, List.flatMap_nil, List.nil_append]
    rfl

/-- A rewritten line has the rewritten layout. -/
theorem layoutOf_rewritten (isLayout : layoutOf isHyperlinkInstruction line = some layout) (fits : rewriting.Fits)
    (areRead : ∀ event ∈ line, event.IsRead) :
    layoutOf isHyperlinkInstruction (line.flatMap rewriting.onEvent) = some (rewriting.layout layout) := by
  have scanned := @layout_induction isHyperlinkInstruction line (fun seen scan =>
    (seen.flatMap rewriting.onEvent).foldlM (Scan.event isHyperlinkInstruction) ⟨[], [], none⟩ = some (scan.rewritten rewriting)) layout isLayout rfl ?_
  · rw [layoutOf, scanned]
    simp [Scan.rewritten, Rewriting.layout]
  · intro seen scan event next listed reads isHeld
    rw [List.flatMap_append, List.foldlM_append, isHeld, List.flatMap_singleton]
    exact reads.rewritten fits (areRead event listed)

end

end Oveo.Docx
