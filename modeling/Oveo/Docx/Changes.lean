import Mathlib.Logic.Relation
import Oveo.Docx.Stretches

/-! # Changes of a tree

Every edit is a chain of small changes: an item of a changed text goes or gives its place to new content, a run
is added, a run is split.  What none of these changes names keeps its content, its ancestors and its order. -/

namespace Oveo.Docx

open Oveo.Lib

/-! ## Small changes -/

/-- New content of a run: text nodes and characters, with nothing inside. -/
inductive IsContent : Forest → Prop where
  | nil : IsContent .nil
  | node {element : Element} {next : Forest} (isNew : element.identity = .made) (isInline : element.tag.isInline = true)
      (rest : IsContent next) : IsContent (.node element .nil next)

/-- One change of a tree, where these elements are the items of changed texts. -/
inductive Change (changed : List Element) : Forest → Forest → Prop where
  | replace {item : Element} {children content next : Forest} (isChanged : item ∈ changed) (isContent : IsContent content) :
      Change changed (.node item children next) (content.append next)
  | addRun {content next : Forest} (isContent : IsContent content) : Change changed next (.node (newElement .r) content next)
  /-- The second half gets the attributes of the run and a copy of its properties. -/
  | splitRun {run : Element} {preceding following next : Forest} (isRun : run.tag = .r) :
      Change changed (.node run (preceding.append following) next)
        (.node run preceding (Forest.remainder run (preceding.append following) following next))
  | inside {element : Element} {children children' next : Forest} (change : Change changed children children') :
      Change changed (.node element children next) (.node element children' next)
  | behind {element : Element} {children next next' : Forest} (change : Change changed next next') :
      Change changed (.node element children next) (.node element children next')

/-- Changes one after the other. -/
def Changes (changed : List Element) : Forest → Forest → Prop := Relation.ReflTransGen (Change changed)

section

variable {changed more : List Element} {element : Element} {forest children children' next next' content : Forest} {path : List Identity}

theorem Change.mono (subset : changed ⊆ more) (change : Change changed forest next) : Change more forest next := by
  induction change with
  | replace isChanged isContent => exact .replace (subset isChanged) isContent
  | addRun isContent => exact .addRun isContent
  | splitRun isRun => exact .splitRun isRun
  | inside _ inductionHypothesis => exact .inside inductionHypothesis
  | behind _ inductionHypothesis => exact .behind inductionHypothesis

theorem Changes.mono (subset : changed ⊆ more) (changes : Changes changed forest next) : Changes more forest next :=
  Relation.ReflTransGen.mono (fun _ _ => Change.mono subset) _ _ changes

theorem Changes.inside (changes : Changes changed children children') :
    Changes changed (.node element children next) (.node element children' next) :=
  Relation.ReflTransGen.lift (fun below => Forest.node element below next) (fun _ _ => Change.inside) _ _ changes

theorem Changes.behind (changes : Changes changed next next') :
    Changes changed (.node element children next) (.node element children next') :=
  Relation.ReflTransGen.lift (Forest.node element children) (fun _ _ => Change.behind) _ _ changes

theorem Changes.node (below : Changes changed children children') (rest : Changes changed next next') :
    Changes changed (.node element children next) (.node element children' next') :=
  Relation.ReflTransGen.trans below.inside rest.behind

/-! ## What changes leave -/

/-- The template's name of a node: both halves of a run are that run. -/
def Identity.source : Identity → Identity
  | .split number => .own number
  | identity => identity

@[simp] theorem source_remainderIdentity (identity : Identity) : (Forest.remainderIdentity identity).source = identity.source := by
  cases identity <;> rfl

@[simp] theorem isOwn_remainderIdentity (identity : Identity) : (Forest.remainderIdentity identity).isOwn = false := by
  cases identity <;> rfl

/-- The template's nodes that are not of changed items, in document order, each with its ancestors. -/
def Forest.trace (changed : List Element) (path : List Identity) : Forest → List (List Identity × Element)
  | nil => []
  | node element children next =>
    (if element ∈ changed then []
      else (if element.identity.isOwn then [(path, element)] else []) ++ trace changed (element.identity.source :: path) children) ++
      trace changed path next

theorem trace_append (first second : Forest) : (first.append second).trace changed path = first.trace changed path ++ second.trace changed path := by
  induction first with
  | nil => rfl
  | node element children next _ inductionHypothesis =>
    rw [Forest.append, Forest.trace, inductionHypothesis, Forest.trace, List.append_assoc]

/-- The items of changed texts are nodes of the template, and no runs. -/
def AreItems (changed : List Element) : Prop := ∀ element ∈ changed, IsItem element

theorem AreItems.notMem (areItems : AreItems changed) (notOwn : element.identity.isOwn = false) : element ∉ changed := by
  intro isChanged
  rw [(areItems element isChanged).own] at notOwn
  cases notOwn

theorem AreItems.run_notMem (areItems : AreItems changed) (isRun : element.tag = .r) : element ∉ changed := by
  intro isChanged
  have isInline := (areItems element isChanged).isInline
  rw [isRun] at isInline
  cases isInline

theorem trace_copy (areItems : AreItems changed) (forest : Forest) : forest.copy.trace changed path = [] := by
  induction forest generalizing path with
  | nil => rfl
  | node element children next childrenHypothesis nextHypothesis =>
    have notChanged : { element with identity := .made } ∉ changed := areItems.notMem rfl
    rw [Forest.copy, Forest.trace, if_neg notChanged, childrenHypothesis, nextHypothesis]
    rfl

theorem trace_copiedProperties (areItems : AreItems changed) (forest : Forest) : forest.copiedProperties.trace changed path = [] := by
  induction forest with
  | nil => rfl
  | node element children next _ inductionHypothesis =>
    rw [Forest.copiedProperties]
    split
    next =>
      have notChanged : { element with identity := .made } ∉ changed := areItems.notMem rfl
      rw [Forest.trace, if_neg notChanged, trace_copy areItems]
      rfl
    next => exact inductionHypothesis

theorem trace_content (areItems : AreItems changed) (isContent : IsContent content) : content.trace changed path = [] := by
  induction isContent with
  | nil => rfl
  | @node element next isNew _ _ inductionHypothesis =>
    have notOwn : element.identity.isOwn = false := by
      rw [isNew]
      rfl
    rw [Forest.trace, if_neg (areItems.notMem notOwn), notOwn, inductionHypothesis]
    rfl

/-- No change moves, alters or drops a node of the template that is not of a changed item. -/
theorem Change.trace (areItems : AreItems changed) (change : Change changed forest next) (path : List Identity) :
    next.trace changed path = forest.trace changed path := by
  induction change generalizing path with
  | replace isChanged isContent => rw [trace_append, trace_content areItems isContent, Forest.trace, if_pos isChanged]
  | addRun isContent =>
    rw [Forest.trace, if_neg (areItems.notMem rfl), trace_content areItems isContent]
    rfl
  | @splitRun run preceding following next isRun =>
    -- the second half stands for the run, so what moves into it keeps its ancestors
    have notChanged : { newElement .r with identity := Forest.remainderIdentity run.identity, attributes := run.attributes } ∉ changed :=
      areItems.notMem (isOwn_remainderIdentity run.identity)
    simp only [Forest.remainder, Forest.trace, if_neg (areItems.run_notMem isRun), if_neg notChanged, trace_append,
      trace_copiedProperties areItems]
    simp
  | inside _ inductionHypothesis => rw [Forest.trace, Forest.trace, inductionHypothesis]
  | behind _ inductionHypothesis => rw [Forest.trace, Forest.trace, inductionHypothesis]

theorem Changes.trace (areItems : AreItems changed) (changes : Changes changed forest next) (path : List Identity) :
    next.trace changed path = forest.trace changed path := by
  induction changes with
  | refl => rfl
  | tail _ change inductionHypothesis => rw [change.trace areItems path, inductionHypothesis]

/-! ## Edits as changes -/

theorem isContent_flushPending (pending : Str) (rest : IsContent next) : IsContent (flushPending pending next) := by
  rw [flushPending]
  split
  next => exact rest
  next => exact .node rfl rfl rest

theorem isContent_inlineElements (value : Str) : IsContent (inlineElements value) := by
  suffices each : ∀ pending, IsContent (inlineElementsFrom pending value) from each []
  induction value with
  | nil => exact fun pending => isContent_flushPending pending .nil
  | cons c rest inductionHypothesis =>
    intro pending
    rw [inlineElementsFrom]
    split
    next => exact inductionHypothesis _
    next tag isTag =>
      have isInline : tag.isInline = true := by
        rw [Tag.isInline, (characterTag?_isInline isTag).1, Bool.or_true]
      exact isContent_flushPending pending (.node rfl isInline (inductionHypothesis []))

theorem changes_rewrite {first : Element} {rest : List Element} (subset : first :: rest ⊆ changed) (isContent : IsContent content)
    (forest : Forest) : Changes changed forest (Forest.rewrite first rest content forest) := by
  induction forest with
  | nil => exact .refl
  | node element children next childrenHypothesis nextHypothesis =>
    rw [Forest.rewrite]
    by_cases isFirst : element = first
    · rw [if_pos isFirst]
      have isChanged : element ∈ changed := subset (isFirst ▸ List.mem_cons_self)
      exact Relation.ReflTransGen.tail nextHypothesis.behind (.replace isChanged isContent)
    · rw [if_neg isFirst]
      by_cases isLater : element ∈ rest
      · rw [if_pos isLater]
        have isChanged : element ∈ changed := subset (List.mem_cons_of_mem _ isLater)
        exact Relation.ReflTransGen.tail nextHypothesis.behind (@Change.replace _ _ _ .nil _ isChanged .nil)
      · rw [if_neg isLater]
        exact childrenHypothesis.node nextHypothesis

theorem changes_insertBeside (anchor : Element) (before : Bool) (isContent : IsContent content) (forest : Forest) :
    Changes changed forest (Forest.insertBeside anchor before content forest) := by
  induction forest with
  | nil => exact .refl
  | node element children next childrenHypothesis nextHypothesis =>
    rw [Forest.insertBeside]
    have inner : Changes changed (.node element children next) (.node element (Forest.insertBeside anchor before content children)
        (Forest.insertBeside anchor before content next)) := childrenHypothesis.node nextHypothesis
    by_cases isAnchor : element = anchor
    · simp only [if_pos isAnchor]
      cases before with
      | true => exact Relation.ReflTransGen.tail inner (.addRun isContent)
      | false => exact Relation.ReflTransGen.tail inner (.behind (.addRun isContent))
    · simp only [if_neg isAnchor]
      exact inner

theorem breakAt_append {field : Element} {preceding following : Forest} (found : forest.breakAt field = some (preceding, following)) :
    forest = preceding.append following := by
  induction forest generalizing preceding with
  | nil => cases found
  | node element children next _ inductionHypothesis =>
    rw [Forest.breakAt] at found
    by_cases isField : element = field
    · rw [if_pos isField] at found
      cases found
      rfl
    · rw [if_neg isField] at found
      obtain ⟨⟨before, behind⟩, isFound, same⟩ := Option.map_eq_some_iff.mp found
      cases same
      rw [Forest.append, ← inductionHypothesis isFound]

theorem changes_insertAtField (field : Element) (before : Bool) (isContent : IsContent content) (forest : Forest) :
    Changes changed forest (Forest.insertAtField field before content forest) := by
  induction forest with
  | nil => exact .refl
  | node element children next childrenHypothesis nextHypothesis =>
    rw [Forest.insertAtField]
    split
    next => exact childrenHypothesis.node nextHypothesis
    next preceding following here =>
      rw [Option.ite_none_right_eq_some] at here
      obtain ⟨isRun, found⟩ := here
      obtain rfl := breakAt_append found
      cases before with
      | true =>
        rw [if_pos rfl]
        split
        next => exact .single (.addRun isContent)
        next =>
          -- the field character and what is behind it go to the second half, and the new run stands between the halves
          exact Relation.ReflTransGen.tail (.single (.splitRun isRun)) (.behind (.addRun isContent))
      | false =>
        rw [if_neg Bool.false_ne_true]
        split
        next => exact .refl
        next => exact .single (.behind (.addRun isContent))
        next character inCharacter moving _ =>
          have isSplit : preceding.append (.node character inCharacter moving) =
              (preceding.append (.node character inCharacter .nil)).append moving := by
            rw [Forest.append_assoc]
            rfl
          rw [isSplit]
          exact Relation.ReflTransGen.tail (.single (.splitRun isRun)) (.behind (.addRun isContent))

theorem changes_apply {edit : Edit} (subset : edit.items ⊆ changed) (forest : Forest) : Changes changed forest (edit.apply forest) := by
  cases edit with
  | rewrite first rest value => exact changes_rewrite subset (isContent_inlineElements value) forest
  | insertRun anchor before value =>
    rw [Edit.apply]
    split
    next => exact changes_insertAtField anchor before (isContent_inlineElements value) forest
    next => exact changes_insertBeside anchor before (isContent_inlineElements value) forest

/-- All edits of a paragraph are changes of the items they remove. -/
theorem changes_edits {edits : List Edit} (subset : edits.flatMap Edit.items ⊆ changed) (forest : Forest) :
    Changes changed forest (edits.foldl Edit.apply forest) := by
  induction edits generalizing forest with
  | nil => exact .refl
  | cons edit edits inductionHypothesis =>
    rw [List.flatMap_cons, List.append_subset] at subset
    exact Relation.ReflTransGen.trans (changes_apply subset.1 forest) (inductionHypothesis subset.2 (edit.apply forest))

end

end Oveo.Docx
