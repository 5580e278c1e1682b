import Oveo.Docx.Reread

/-! # Export and extraction

The rendered document is the template with the patched paragraphs in their places.  It has the body, the
paragraphs and the numbers of the template, so extracting it gives the blocks again, with the new texts. -/

namespace Oveo.Docx

open Oveo.Lib

/-! ## Tags of a changed tree -/

section

variable {changed : List Element} {forest next : Forest} {element : Element}

theorem tags_copy (forest : Forest) : ∀ element ∈ forest.copy.elements, ∃ other ∈ forest.elements, other.tag = element.tag := by
  induction forest with
  | nil => exact List.forall_mem_nil _
  | node first children next childrenHypothesis nextHypothesis =>
    intro element listed
    rw [Forest.copy, Forest.elements, List.mem_cons, List.mem_append] at listed
    rw [Forest.elements]
    rcases listed with rfl | below | later
    · exact ⟨first, List.mem_cons_self, rfl⟩
    · obtain ⟨other, isOther, same⟩ := childrenHypothesis element below
      exact ⟨other, List.mem_cons_of_mem _ (List.mem_append_left _ isOther), same⟩
    · obtain ⟨other, isOther, same⟩ := nextHypothesis element later
      exact ⟨other, List.mem_cons_of_mem _ (List.mem_append_right _ isOther), same⟩

theorem tags_copiedProperties (forest : Forest) : ∀ element ∈ forest.copiedProperties.elements, ∃ other ∈ forest.elements, other.tag = element.tag := by
  induction forest with
  | nil => exact List.forall_mem_nil _
  | node first children next _ inductionHypothesis =>
    intro element listed
    rw [Forest.copiedProperties] at listed
    rw [Forest.elements]
    split at listed
    next =>
      rw [Forest.elements, Forest.elements, List.append_nil, List.mem_cons] at listed
      rcases listed with rfl | below
      · exact ⟨first, List.mem_cons_self, rfl⟩
      · obtain ⟨other, isOther, same⟩ := tags_copy children element below
        exact ⟨other, List.mem_cons_of_mem _ (List.mem_append_left _ isOther), same⟩
    next =>
      obtain ⟨other, isOther, same⟩ := inductionHypothesis element listed
      exact ⟨other, List.mem_cons_of_mem _ (List.mem_append_right _ isOther), same⟩

/-- Is the element a run, text or a character, or does it have the tag of one of these? -/
def IsBrought (before : List Element) (element : Element) : Prop :=
  element.tag = .r ∨ element.tag.isInline = true ∨ ∃ other ∈ before, other.tag = element.tag

theorem IsBrought.mono {before more : List Element} (subset : before ⊆ more) (isBrought : IsBrought before element) : IsBrought more element :=
  isBrought.imp_right (Or.imp_right fun ⟨other, isOther, same⟩ => ⟨other, subset isOther, same⟩)

theorem tags_content (isContent : IsContent forest) : ∀ element ∈ forest.elements, element.tag.isInline = true := by
  induction isContent with
  | nil => exact List.forall_mem_nil _
  | node isNew isInline _ inductionHypothesis =>
    rw [Forest.elements, List.forall_mem_cons]
    exact ⟨isInline, inductionHypothesis⟩

theorem Change.tags (change : Change changed forest next) : ∀ element ∈ next.elements, IsBrought forest.elements element := by
  have kept {before : List Element} {element : Element} (listed : element ∈ before) : IsBrought before element := .inr (.inr ⟨element, listed, rfl⟩)
  induction change with
  | @replace item children content next isChanged isContent =>
    rw [Forest.elements_append, List.forall_mem_append]
    refine ⟨fun element listed => .inr (.inl (tags_content isContent element listed)), fun element listed => kept ?_⟩
    rw [Forest.elements]
    exact List.mem_cons_of_mem _ (List.mem_append_right _ listed)
  | @addRun content next isContent =>
    rw [Forest.elements, List.forall_mem_cons, List.forall_mem_append]
    exact ⟨.inl rfl, fun element listed => .inr (.inl (tags_content isContent element listed)), fun element listed => kept listed⟩
  | @splitRun run preceding following next isRun =>
    intro element listed
    rw [Forest.elements, Forest.remainder, Forest.elements, Forest.elements_append, List.mem_cons, List.mem_append, List.mem_cons,
      List.mem_append, List.mem_append] at listed
    rw [Forest.elements, Forest.elements_append]
    rcases listed with rfl | inPreceding | rfl | (isCopy | inFollowing) | later
    · exact kept List.mem_cons_self
    · exact kept (List.mem_cons_of_mem _ (List.mem_append_left _ (List.mem_append_left _ inPreceding)))
    · exact .inl rfl
    · obtain ⟨other, isOther, same⟩ := tags_copiedProperties _ element isCopy
      rw [Forest.elements_append] at isOther
      exact .inr (.inr ⟨other, List.mem_cons_of_mem _ (List.mem_append_left _ isOther), same⟩)
    · exact kept (List.mem_cons_of_mem _ (List.mem_append_left _ (List.mem_append_right _ inFollowing)))
    · exact kept (List.mem_cons_of_mem _ (List.mem_append_right _ later))
  | @inside element children children' next _ inductionHypothesis =>
    rw [Forest.elements, Forest.elements, List.forall_mem_cons, List.forall_mem_append]
    exact ⟨kept List.mem_cons_self, fun other listed => (inductionHypothesis other listed).mono
        (List.subset_cons_of_subset _ (List.subset_append_left _ _)),
      fun other listed => kept (List.mem_cons_of_mem _ (List.mem_append_right _ listed))⟩
  | @behind element children next next' _ inductionHypothesis =>
    rw [Forest.elements, Forest.elements, List.forall_mem_cons, List.forall_mem_append]
    exact ⟨kept List.mem_cons_self, fun other listed => kept (List.mem_cons_of_mem _ (List.mem_append_left _ listed)),
      fun other listed => (inductionHypothesis other listed).mono (List.subset_cons_of_subset _ (List.subset_append_right _ _))⟩

/-- Edits bring no tags but those of runs and their content. -/
theorem Changes.tags (changes : Changes changed forest next) : ∀ element ∈ next.elements, IsBrought forest.elements element := by
  induction changes with
  | refl => exact fun element listed => .inr (.inr ⟨element, listed, rfl⟩)
  | tail _ change inductionHypothesis =>
    intro element listed
    rcases change.tags element listed with isRun | isInline | ⟨other, isOther, same⟩
    · exact .inl isRun
    · exact .inr (.inl isInline)
    · have isBrought := inductionHypothesis other isOther
      rwa [IsBrought, same] at isBrought

end

/-! ## Bodies and paragraphs of a patched tree -/

/-- The paragraph in the patched tree. -/
def Paragraph.patched (patchedOf : Element → Option Forest) (paragraph : Paragraph) : Paragraph :=
  { paragraph with children := (patchedOf paragraph.element).getD (paragraph.children.withPatched patchedOf) }

/-- No body stands here. -/
def Bodiless (forest : Forest) : Prop := ∀ element ∈ forest.elements, element.tag ≠ .body

section

variable {patchedOf : Element → Option Forest} {ancestors : List Tag} {forest : Forest} {body : List Tag × Forest} {paragraph other : Paragraph}
  {paragraphs : List Paragraph} {document : DocumentPart}

theorem bodiless_node {element : Element} {children next : Forest} :
    Bodiless (.node element children next) ↔ (element.tag ≠ .body ∧ Bodiless children) ∧ Bodiless next := by
  rw [Bodiless, Forest.elements, List.forall_mem_cons, List.forall_mem_append, ← and_assoc]
  rfl

theorem bodiesFrom_eq_nil : bodiesFrom ancestors forest = [] ↔ Bodiless forest := by
  induction forest generalizing ancestors with
  | nil => exact iff_of_true rfl (List.forall_mem_nil _)
  | node element children next childrenHypothesis nextHypothesis =>
    rw [bodiesFrom, List.append_eq_nil_iff, nextHypothesis, bodiless_node]
    refine and_congr_left fun _ => ?_
    split
    next isBody => exact iff_of_false (List.cons_ne_nil _ _) fun apart => apart.1 isBody
    next notBody => exact childrenHypothesis.trans (and_iff_right notBody).symm

/-- The only body has none inside. -/
theorem bodiless_of_single (single : bodiesFrom ancestors forest = [body]) : Bodiless body.2 := by
  induction forest generalizing ancestors with
  | nil => cases single
  | node element children next childrenHypothesis nextHypothesis =>
    rw [bodiesFrom, List.append_eq_singleton_iff] at single
    rcases single with ⟨-, later⟩ | ⟨here, -⟩
    · exact nextHypothesis later
    · split at here
      next =>
        obtain ⟨rfl, none⟩ := List.cons.inj here
        exact bodiesFrom_eq_nil.mp none
      next => exact childrenHypothesis here

theorem bodiesFrom_withPatched (each : ∀ node ∈ forest.allNodes, ∀ patched, patchedOf node.1 = some patched →
      node.1.tag ≠ .body ∧ Bodiless node.2 ∧ Bodiless patched) :
    bodiesFrom ancestors (forest.withPatched patchedOf) = (bodiesFrom ancestors forest).map fun body => (body.1, body.2.withPatched patchedOf) := by
  induction forest generalizing ancestors with
  | nil => rfl
  | node element children next childrenHypothesis nextHypothesis =>
    rw [Forest.allNodes, List.forall_mem_cons, List.forall_mem_append] at each
    obtain ⟨here, below, rest⟩ := each
    rw [Forest.withPatched, bodiesFrom, bodiesFrom, List.map_append, nextHypothesis rest]
    refine congrArg (· ++ _) ?_
    cases isPatched : patchedOf element with
    | none =>
      rw [Option.getD_none, childrenHypothesis below]
      split <;> rfl
    | some patched =>
      obtain ⟨notBody, noneBefore, noneAfter⟩ := here patched isPatched
      rw [Option.getD_some, if_neg notBody, if_neg notBody, bodiesFrom_eq_nil.mpr noneBefore, bodiesFrom_eq_nil.mpr noneAfter]
      rfl

theorem paragraphsFrom_withPatched (each : ∀ element ∈ forest.elements, patchedOf element ≠ none → element.tag = .p) :
    paragraphsFrom ancestors (forest.withPatched patchedOf) = (paragraphsFrom ancestors forest).map (Paragraph.patched patchedOf) := by
  induction forest generalizing ancestors with
  | nil => rfl
  | node element children next childrenHypothesis nextHypothesis =>
    rw [Forest.elements, List.forall_mem_cons, List.forall_mem_append] at each
    obtain ⟨here, below, rest⟩ := each
    rw [Forest.withPatched, paragraphsFrom, paragraphsFrom, List.map_append, nextHypothesis rest]
    refine congrArg (· ++ _) ?_
    by_cases isParagraph : element.tag = .p
    · rw [if_pos isParagraph, if_pos isParagraph]
      rfl
    · have unpatched : patchedOf element = none := by
        by_contra isPatched
        exact isParagraph (here isPatched)
      rw [if_neg isParagraph, if_neg isParagraph, unpatched, Option.getD_none, childrenHypothesis below]

theorem tag_of_paragraph (listed : paragraph ∈ paragraphsFrom ancestors forest) : paragraph.element.tag = .p := by
  induction forest generalizing ancestors with
  | nil => cases listed
  | node element children next childrenHypothesis nextHypothesis =>
    rw [paragraphsFrom, List.mem_append] at listed
    rcases listed with here | later
    · split at here
      next isParagraph =>
        cases List.mem_singleton.mp here
        exact isParagraph
      next => exact childrenHypothesis here
    · exact nextHypothesis later

/-- The paragraphs with all that is below them lie side by side in the tree. -/
theorem whole_paragraphs (ancestors : List Tag) (forest : Forest) :
    ((paragraphsFrom ancestors forest).flatMap fun paragraph => paragraph.element :: paragraph.children.elements).Sublist forest.elements := by
  induction forest generalizing ancestors with
  | nil => exact List.Sublist.refl _
  | node element children next childrenHypothesis nextHypothesis =>
    rw [paragraphsFrom, List.flatMap_append, Forest.elements, ← List.cons_append]
    refine List.Sublist.append ?_ (nextHypothesis ancestors)
    split
    next => rw [List.flatMap_singleton]
    next => exact (childrenHypothesis _).cons element

theorem nodup_paragraphs (isRead : IsTemplate document.tree) (areParagraphs : bodyParagraphs document = .ok paragraphs) :
    (paragraphs.flatMap fun paragraph => paragraph.element :: paragraph.children.elements).Nodup := by
  rw [bodyParagraphs] at areParagraphs
  split at areParagraphs
  next =>
    cases areParagraphs
    exact .nil
  next ancestors body isBody =>
    cases areParagraphs
    have ofTree : body.elements.Sublist document.tree.elements := by
      rw [← allNodes_elements, ← allNodes_elements]
      exact (nodes_of_body (isBody ▸ List.mem_singleton_self (ancestors, body))).map Prod.fst
    exact ((whole_paragraphs ancestors body).trans ofTree).nodup (List.Nodup.of_map _ isRead.distinct)
  next => cases areParagraphs

/-- No paragraph of the body is inside one. -/
theorem paragraph_not_inside (distinct : (paragraphs.flatMap fun paragraph => paragraph.element :: paragraph.children.elements).Nodup)
    (listed : paragraph ∈ paragraphs) (isOther : other ∈ paragraphs) : other.element ∉ paragraph.children.elements := by
  intro inside
  obtain ⟨apart, disjoint⟩ := List.nodup_flatMap.mp distinct
  by_cases same : paragraph = other
  · subst same
    exact (List.nodup_cons.mp (apart paragraph listed)).1 inside
  · have symmetric : Std.Symm (Function.onFun List.Disjoint fun paragraph : Paragraph => paragraph.element :: paragraph.children.elements) :=
      ⟨fun _ _ apart _ inFirst inSecond => apart inSecond inFirst⟩
    exact disjoint.forall listed isOther same (List.mem_cons_of_mem _ inside) List.mem_cons_self

theorem nodup_elements (distinct : (paragraphs.flatMap fun paragraph => paragraph.element :: paragraph.children.elements).Nodup) :
    (paragraphs.map Paragraph.element).Nodup := by
  refine List.Sublist.nodup ?_ distinct
  clear distinct
  induction paragraphs with
  | nil => exact List.Sublist.refl _
  | cons paragraph paragraphs inductionHypothesis =>
    rw [List.map_cons, List.flatMap_cons, List.cons_append]
    exact (inductionHypothesis.trans (List.sublist_append_right _ _)).cons_cons _

end

/-! ## The paragraphs, parsed again -/

section

variable {isHyperlinkInstruction : Str → Bool} {relationships : List Str} {patch : Paragraph → Paragraph} {paragraphs : List Paragraph}
  {count linkNumber : Nat} {parsed : List (Paragraph × DocxBlock)} {validated : List DocxReplacement}
  {pairs : List ((Paragraph × DocxBlock) × DocxReplacement)} {pair : (Paragraph × DocxBlock) × DocxReplacement} {patched : List (Element × Forest)}

/-- The blocks of the export: those of the template, with the new texts. -/
def exportedBlocks (pairs : List ((Paragraph × DocxBlock) × DocxReplacement)) : List DocxBlock :=
  pairs.map fun pair => { pair.1.2 with text := pair.2.text }

/-- Where each block comes back with its new text, and what is left out stays as it is, all blocks come back. -/
theorem parseParagraphs_patched (isParsed : parseParagraphs isHyperlinkInstruction relationships count linkNumber paragraphs = .ok parsed)
    (sameLength : validated.length = parsed.length) (distinct : (paragraphs.map Paragraph.element).Nodup)
    (few : linkNumber + (paragraphs.map fun paragraph => paragraph.numbered isHyperlinkInstruction).sum < 1000000)
    (kept : ∀ pair ∈ parsed.zip validated, ∀ blockNumber before last,
      paragraphBlock isHyperlinkInstruction pair.1.1.inTableCell blockNumber before relationships pair.1.1.children = .ok (some pair.1.2, last) →
      before + pair.1.1.numbered isHyperlinkInstruction < 1000000 →
      paragraphBlock isHyperlinkInstruction (patch pair.1.1).inTableCell blockNumber before relationships (patch pair.1.1).children =
        .ok (some { pair.1.2 with text := pair.2.text }, last))
    (left : ∀ paragraph ∈ paragraphs, (∀ entry ∈ parsed, entry.1.element ≠ paragraph.element) → patch paragraph = paragraph) :
    ∃ again, parseParagraphs isHyperlinkInstruction relationships count linkNumber (paragraphs.map patch) = .ok again ∧
      again.map Prod.snd = exportedBlocks (parsed.zip validated) := by
  induction paragraphs generalizing count linkNumber parsed validated with
  | nil =>
    cases isParsed
    exact ⟨[], rfl, rfl⟩
  | cons first paragraphs inductionHypothesis =>
    rw [parseParagraphs] at isParsed
    obtain ⟨⟨taken, last⟩, isBlock, isParsed⟩ := ok_bind_iff.mp isParsed
    have isLast : last = linkNumber + first.numbered isHyperlinkInstruction := (paragraphBlock_taken isBlock).1
    rw [List.map_cons, List.sum_cons] at few
    obtain ⟨notLater, distinct⟩ := List.nodup_cons.mp distinct
    obtain ⟨leftFirst, left⟩ := List.forall_mem_cons.mp left
    have later {rest : List (Paragraph × DocxBlock)} {number : Nat}
        (isRest : parseParagraphs isHyperlinkInstruction relationships number last paragraphs = .ok rest) :
        ∀ entry ∈ rest, entry.1.element ≠ first.element := by
      intro entry listed same
      exact notLater (same ▸ List.mem_map_of_mem ((paragraphs_of_parsed isRest).subset (List.mem_map_of_mem listed)))
    rw [List.map_cons, parseParagraphs]
    cases taken with
    | none =>
      obtain ⟨again, isAgain, areBlocks⟩ := inductionHypothesis isParsed sameLength distinct (by omega) kept left
      rw [leftFirst (later isParsed), isBlock]
      exact ⟨again, isAgain, areBlocks⟩
    | some block =>
      rw [ite_error_eq_ok] at isParsed
      obtain ⟨fits, isParsed⟩ := isParsed
      obtain ⟨rest, isRest, isParsed⟩ := ok_bind_iff.mp isParsed
      cases isParsed
      obtain ⟨replacement, validated, rfl⟩ := List.exists_cons_of_length_eq_add_one sameLength
      rw [List.zip_cons_cons, List.forall_mem_cons] at kept
      have leftRest : ∀ paragraph ∈ paragraphs, (∀ entry ∈ rest, entry.1.element ≠ paragraph.element) → patch paragraph = paragraph := by
        intro paragraph listed other
        refine left paragraph listed (List.forall_mem_cons.mpr ⟨fun same => notLater ?_, other⟩)
        have isElement : first.element = paragraph.element := same
        exact isElement ▸ List.mem_map_of_mem listed
      obtain ⟨again, isAgain, areBlocks⟩ := inductionHypothesis isRest (Nat.succ_inj.mp sameLength) distinct (by omega) kept.2 leftRest
      have within : linkNumber + first.numbered isHyperlinkInstruction < 1000000 := by omega
      rw [kept.1 _ _ _ isBlock within, ok_bind_eq]
      simp only
      rw [if_neg fits, isAgain, ok_bind_eq]
      exact ⟨_, rfl, congrArg (_ :: ·) areBlocks⟩

theorem patchEach_isOk (each : ∀ pair ∈ pairs, ∃ patched, patchParagraph isHyperlinkInstruction pair.1.1.children pair.2.text = .ok patched) :
    ∃ patched, patchEach isHyperlinkInstruction pairs = .ok patched := by
  induction pairs with
  | nil => exact ⟨[], rfl⟩
  | cons pair pairs inductionHypothesis =>
    obtain ⟨⟨first, isFirst⟩, each⟩ := List.forall_mem_cons.mp each
    obtain ⟨rest, isRest⟩ := inductionHypothesis each
    exact ⟨_, by rw [patchEach, isFirst, ok_bind_eq, isRest, ok_bind_eq]; rfl⟩

/-- Each paragraph is found with its new children. -/
theorem lookup_of_pair (areEach : patchEach isHyperlinkInstruction pairs = .ok patched) (distinct : (pairs.map fun pair => pair.1.1.element).Nodup)
    (listed : pair ∈ pairs) : ∃ children, List.lookup pair.1.1.element patched = some children ∧
      patchParagraph isHyperlinkInstruction pair.1.1.children pair.2.text = .ok children := by
  induction pairs generalizing patched with
  | nil => cases listed
  | cons first pairs inductionHypothesis =>
    obtain ⟨⟨paragraph, block⟩, replacement⟩ := first
    rw [patchEach] at areEach
    obtain ⟨children, isFirst, areEach⟩ := ok_bind_iff.mp areEach
    obtain ⟨rest, areRest, areEach⟩ := ok_bind_iff.mp areEach
    cases areEach
    obtain ⟨notLater, distinct⟩ := List.nodup_cons.mp distinct
    rcases List.mem_cons.mp listed with rfl | later
    · exact ⟨children, List.lookup_cons_self, isFirst⟩
    · have other : pair.1.1.element ≠ paragraph.element := fun same => notLater (List.mem_map.mpr ⟨pair, later, same⟩)
      rw [List.lookup_cons, beq_false_of_ne other]
      exact inductionHypothesis areRest distinct later

theorem plainTextFromValidated_isOk (each : ∀ replacement ∈ validated, ∃ parts, linkParts replacement.text = .ok parts) :
    ∃ text, plainTextFromValidated validated = .ok text := by
  rw [plainTextFromValidated]
  refine exists_ok_bind (exists_mapM_eq_ok fun replacement listed => ?_) fun paragraphs => ⟨_, rfl⟩
  obtain ⟨parts, areParts⟩ := each replacement listed
  rw [areParts]
  exact ⟨_, rfl⟩

end

/-! ## The whole document -/

section

variable {isHyperlinkInstruction : Str → Bool} {relationships : List Str} {document : DocumentPart} {paragraphs : List Paragraph}
  {paragraph : Paragraph} {parsed : List (Paragraph × DocxBlock)} {candidates : List ReplacementCandidate} {validated : List DocxReplacement}
  {stored : Option Json} {pair : (Paragraph × DocxBlock) × DocxReplacement} {patched : List (Element × Forest)}

/-- The document with the patched paragraphs in their places. -/
def DocumentPart.withPatched (document : DocumentPart) (patched : List (Element × Forest)) : DocumentPart :=
  { document with children := document.children.withPatched fun element => List.lookup element patched }

theorem elements_of_allNodes {first second : Forest} (sublist : first.allNodes.Sublist second.allNodes) : first.elements ⊆ second.elements := by
  rw [← allNodes_elements, ← allNodes_elements]
  exact (sublist.map Prod.fst).subset

theorem body_paragraph (areParagraphs : bodyParagraphs document = .ok paragraphs) (listed : paragraph ∈ paragraphs) :
    paragraph.element.tag = .p ∧ Bodiless paragraph.children := by
  rw [bodyParagraphs] at areParagraphs
  split at areParagraphs
  next =>
    cases areParagraphs
    cases listed
  next ancestors body isBody =>
    cases areParagraphs
    have inBody := elements_of_allNodes ((List.sublist_cons_self _ _).trans (nodes_of_paragraph listed))
    exact ⟨tag_of_paragraph listed, fun element isElement => bodiless_of_single isBody element (inBody isElement)⟩
  next => cases areParagraphs

/-- A node that is patched is the paragraph of a pair. -/
theorem pair_of_patched (isRead : IsTemplate document.tree) (isParsed : parsePackage isHyperlinkInstruction relationships document = .ok parsed)
    (areEach : patchEach isHyperlinkInstruction (parsed.zip validated) = .ok patched) {node : Element × Forest}
    (isNode : node ∈ document.children.allNodes) {children : Forest} (isPatched : List.lookup node.1 patched = some children) :
    ∃ pair ∈ parsed.zip validated, (pair.1.1.element, pair.1.1.children) = node ∧
      patchParagraph isHyperlinkInstruction pair.1.1.children pair.2.text = .ok children := by
  obtain ⟨pair, listed, same, isPaired⟩ := lookup_patchEach areEach isPatched
  have ofTree : node ∈ document.tree.allNodes := List.mem_cons_of_mem _ (List.mem_append_left _ isNode)
  have isParagraph := (node_of_pair isParsed listed).subset List.mem_cons_self
  exact ⟨pair, listed, node_once (List.Nodup.of_map _ isRead.distinct) isParagraph ofTree same, isPaired⟩

theorem tags_withPatched (isRead : IsTemplate document.tree) (isParsed : parsePackage isHyperlinkInstruction relationships document = .ok parsed)
    (areEach : patchEach isHyperlinkInstruction (parsed.zip validated) = .ok patched) :
    ∀ element ∈ (document.withPatched patched).tree.elements, IsBrought document.tree.elements element := by
  have changes : Changes (changedOf isHyperlinkInstruction (parsed.zip validated)) document.children
      (document.children.withPatched fun element => List.lookup element patched) := by
    apply changes_withPatched
    intro node isNode children isPatched
    obtain ⟨pair, listed, rfl, isPaired⟩ := pair_of_patched isRead isParsed areEach isNode isPatched
    exact (changes_patchParagraph isPaired).mono fun element isChanged => List.mem_flatMap.mpr ⟨pair, listed, isChanged⟩
  exact Changes.tags changes.inside

theorem parsed_of_package (isParsed : parsePackage isHyperlinkInstruction relationships document = .ok parsed) :
    document.tree.elements.any (fun element => element.tag.isTrackedChange) = false ∧ parsed ≠ [] := by
  rw [parsePackage, ite_error_eq_ok, ite_error_eq_ok] at isParsed
  obtain ⟨-, untracked, isParsed⟩ := isParsed
  obtain ⟨paragraphs, -, isParsed⟩ := ok_bind_iff.mp isParsed
  obtain ⟨others, -, isParsed⟩ := ok_bind_iff.mp isParsed
  obtain ⟨nonempty, same⟩ := ite_error_eq_ok.mp isParsed
  cases same
  exact ⟨by simpa using untracked, by simpa using nonempty⟩

/-- The body of the rendered document has the paragraphs of the template, with the new children of those that are patched. -/
theorem bodyParagraphs_withPatched (isRead : IsTemplate document.tree)
    (isParsed : parsePackage isHyperlinkInstruction relationships document = .ok parsed) (areParagraphs : bodyParagraphs document = .ok paragraphs)
    (areEach : patchEach isHyperlinkInstruction (parsed.zip validated) = .ok patched) :
    bodyParagraphs (document.withPatched patched) =
      .ok (paragraphs.map (Paragraph.patched fun element => List.lookup element patched)) := by
  have ofPair {pair : (Paragraph × DocxBlock) × DocxReplacement} (listed : pair ∈ parsed.zip validated) :
      pair.1.1.element.tag = .p ∧ Bodiless pair.1.1.children := by
    obtain ⟨others, -, -, areOthers, isParagraph, -⟩ := isBlock_of_parsed isParsed (List.of_mem_zip listed).1
    exact body_paragraph areOthers isParagraph
  have sameBodies : bodiesFrom [] (document.withPatched patched).tree = (bodiesFrom [] document.tree).map fun body =>
      (body.1, body.2.withPatched fun element => List.lookup element patched) := by
    have below := @bodiesFrom_withPatched (fun element => List.lookup element patched) [document.root.tag] document.children
      fun node isNode children isPatched => by
        obtain ⟨pair, listed, rfl, isPaired⟩ := pair_of_patched isRead isParsed areEach isNode isPatched
        obtain ⟨isParagraph, bodiless⟩ := ofPair listed
        have notBody : pair.1.1.element.tag ≠ .body := by
          rw [isParagraph]
          decide
        refine ⟨notBody, bodiless, fun element isElement isBody => ?_⟩
        rcases (changes_patchParagraph isPaired).tags element isElement with isRun | isInline | ⟨other, isOther, same⟩
        · rw [isBody] at isRun
          cases isRun
        · rw [isBody] at isInline
          cases isInline
        · exact bodiless other isOther (same.trans isBody)
    have ofRoot (root : Element) (children : Forest) : bodiesFrom [] (.node root children .nil) =
        if root.tag = .body then ([root.tag], children) :: bodiesFrom [root.tag] children else bodiesFrom [root.tag] children := by
      rw [bodiesFrom]
      exact List.append_nil _
    have isTree : (document.withPatched patched).tree =
        .node document.root (document.children.withPatched fun element => List.lookup element patched) .nil := rfl
    rw [isTree, DocumentPart.tree, ofRoot, ofRoot, below]
    by_cases isBody : document.root.tag = .body
    · rw [if_pos isBody, if_pos isBody]
      rfl
    · rw [if_neg isBody, if_neg isBody]
  rw [bodyParagraphs] at areParagraphs
  rw [bodyParagraphs, sameBodies]
  split at areParagraphs
  next none =>
    cases areParagraphs
    rw [none]
    rfl
  next ancestors body isBody =>
    cases areParagraphs
    rw [isBody]
    refine congrArg Except.ok (paragraphsFrom_withPatched fun element isElement isPatched => ?_)
    obtain ⟨children, isPatched⟩ := Option.ne_none_iff_exists'.mp isPatched
    obtain ⟨pair, listed, same, -⟩ := lookup_patchEach areEach isPatched
    rw [← same]
    exact (ofPair listed).1
  next => cases areParagraphs

/-- What is known of each pair of a paragraph and its replacement. -/
theorem source_of_pair (isRead : IsTemplate document.tree) (isParsed : parsePackage isHyperlinkInstruction relationships document = .ok parsed)
    (sits : ∀ entry ∈ parsed, ∀ node ∈ ownNodes entry.1.children, node.isInlineItem = true → node.SitsInRun)
    (accepted : validateReplacements (parsed.map Prod.snd) candidates = .ok validated) (listed : pair ∈ parsed.zip validated) :
    ∃ before layout candidate, IsSource isHyperlinkInstruction pair.1.1.children layout ∧
      IsBlock isHyperlinkInstruction relationships before pair.1.1.children pair.1.2 layout ∧ before + layout.parts.length < 1000000 ∧
      validateReplacement pair.1.2 candidate = .ok pair.2 := by
  have isEntry := (List.of_mem_zip listed).1
  obtain ⟨paragraphs, before, layout, areParagraphs, isParagraph, isBlock, few⟩ := isBlock_of_parsed isParsed isEntry
  have isPair : (pair.1.2, pair.2) ∈ (parsed.map Prod.snd).zip validated := by
    rw [List.zip_map_left]
    exact List.mem_map.mpr ⟨_, listed, rfl⟩
  rw [validateReplacements, ite_error_eq_ok] at accepted
  obtain ⟨candidate, accepted⟩ := accepted_of_zip accepted.2 isPair
  exact ⟨before, layout, candidate, ⟨isRead.ofParagraph areParagraphs isParagraph, isBlock.isLayout, sits pair.1 isEntry⟩, isBlock, few, accepted⟩

theorem untracked_of_brought {before after : List Element} (untracked : before.any (fun element => element.tag.isTrackedChange) = false)
    (areBrought : ∀ element ∈ after, IsBrought before element) : after.any (fun element => element.tag.isTrackedChange) = false := by
  rw [List.any_eq_false] at untracked ⊢
  intro element listed
  rcases areBrought element listed with isRun | isInline | ⟨other, isOther, same⟩
  · rw [isRun]
    decide
  · intro isTracked
    cases isTag : element.tag <;> rw [isTag] at isInline isTracked <;> cases isInline <;> cases isTracked
  · rw [← same]
    exact untracked other isOther

theorem length_of_validated {blocks : List DocxBlock} (accepted : validateReplacements blocks candidates = .ok validated) :
    validated.length = blocks.length := by
  rw [validateReplacements, ite_error_eq_ok, bne_iff_ne, ne_eq, not_not] at accepted
  obtain ⟨sameLength, accepted⟩ := accepted
  induction blocks generalizing candidates validated with
  | nil =>
    cases accepted
    rfl
  | cons block blocks inductionHypothesis =>
    obtain ⟨candidate, candidates, rfl⟩ := List.exists_cons_of_length_eq_add_one sameLength
    obtain ⟨replacement, -, accepted⟩ := ok_bind_iff.mp accepted
    obtain ⟨rest, isRest, accepted⟩ := ok_bind_iff.mp accepted
    cases accepted
    rw [List.length_cons, List.length_cons, inductionHypothesis (Nat.succ_inj.mp sameLength) isRest]

/-- A paragraph that is no block stays as it is. -/
theorem left_as_is (whole : (paragraphs.flatMap fun paragraph => paragraph.element :: paragraph.children.elements).Nodup)
    (areParagraphs : parsed.map Prod.fst ⊆ paragraphs) (areEach : patchEach isHyperlinkInstruction (parsed.zip validated) = .ok patched)
    (listed : paragraph ∈ paragraphs) (noBlock : ∀ entry ∈ parsed, entry.1.element ≠ paragraph.element) :
    paragraph.patched (fun element => List.lookup element patched) = paragraph := by
  have unpatched : List.lookup paragraph.element patched = none := by
    by_contra isPatched
    obtain ⟨children, isPatched⟩ := Option.ne_none_iff_exists'.mp isPatched
    obtain ⟨pair, isPair, same, -⟩ := lookup_patchEach areEach isPatched
    exact noBlock pair.1 (List.of_mem_zip isPair).1 same
  have noneInside : paragraph.children.withPatched (fun element => List.lookup element patched) = paragraph.children := by
    refine withPatched_eq_self fun node isNode children isPatched => ?_
    obtain ⟨pair, isPair, same, -⟩ := lookup_patchEach areEach isPatched
    have isOther : pair.1.1 ∈ paragraphs := areParagraphs (List.mem_map_of_mem (List.of_mem_zip isPair).1)
    refine absurd ?_ (paragraph_not_inside whole listed isOther)
    rw [same, ← allNodes_elements]
    exact List.mem_map_of_mem isNode
  rw [Paragraph.patched, unpatched, Option.getD_none, noneInside]

/-- The patched paragraph of a pair is read as the block again, with the new text. -/
theorem paragraphBlock_of_pair {blockNumber before last : Nat} (isRead : IsTemplate document.tree)
    (isParsed : parsePackage isHyperlinkInstruction relationships document = .ok parsed)
    (sits : ∀ entry ∈ parsed, ∀ node ∈ ownNodes entry.1.children, node.isInlineItem = true → node.SitsInRun)
    (accepted : validateReplacements (parsed.map Prod.snd) candidates = .ok validated) (listed : pair ∈ parsed.zip validated)
    (stays : pair.2.text ≠ pair.1.2.text → StaysBlock isHyperlinkInstruction pair.1.1.children pair.2.text) {children : Forest}
    (isPaired : patchParagraph isHyperlinkInstruction pair.1.1.children pair.2.text = .ok children)
    (built : paragraphBlock isHyperlinkInstruction pair.1.1.inTableCell blockNumber before relationships pair.1.1.children =
      .ok (some pair.1.2, last)) (few : before + pair.1.1.numbered isHyperlinkInstruction < 1000000) :
    paragraphBlock isHyperlinkInstruction pair.1.1.inTableCell blockNumber before relationships children =
      .ok (some { pair.1.2 with text := pair.2.text }, last) := by
  obtain ⟨first, layout, candidate, source, isFirst, fewFirst, isAccepted⟩ := source_of_pair isRead isParsed sits accepted listed
  by_cases same : pair.2.text = pair.1.2.text
  · rw [same, patchParagraph_same isFirst fewFirst] at isPaired
    cases isPaired
    rw [built, same]
  · obtain ⟨found, isBlock⟩ := paragraphBlock_eq_some built
    have sameLayout := source.isLayout
    rw [isBlock.isLayout] at sameLayout
    cases sameLayout
    rw [(kept_links (layout?_of_isBlock isBlock) (paragraphBlock_taken built).2.symm).1] at few
    obtain ⟨others, after, relaid⟩ := relaid_of_accepted source isFirst fewFirst isAccepted
    have isPatch := relaid.isPatch
    rw [isPaired] at isPatch
    cases isPatch
    exact paragraphBlock_of_relaid source built few isAccepted relaid (stays same)

end

/-! ## A field that shares its run -/

def fieldCharacter (number : Nat) (kind : Str) : Element := ⟨.own number, .fldChar, [(fldCharType, kind)], [], []⟩

/-- A paragraph of one run: a hyperlink field before a mark of the last page break. -/
def fieldParagraph : Paragraph where
  inTableCell := false
  element := ⟨.own 3, .p, [], [], []⟩
  children := .node ⟨.own 4, .r, [], [], []⟩
    (.node (fieldCharacter 6 (str "begin")) .nil (.node ⟨.own 7, .instrText, [], str "HYPERLINK", []⟩ .nil
      (.node (fieldCharacter 8 (str "separate")) .nil (.node ⟨.own 9, .t, [], str "it", []⟩ .nil (.node (fieldCharacter 10 (str "end")) .nil
        (.node ⟨.own 11, .other (str "lastRenderedPageBreak"), [], [], []⟩ .nil .nil)))))) .nil

def fieldDocument : DocumentPart where
  root := ⟨.own 1, .other (str "document"), [], [], []⟩
  children := .node ⟨.own 2, .body, [], [], []⟩ (.node fieldParagraph.element fieldParagraph.children .nil) .nil
  beside := 0

def fieldBlock : DocxBlock := ⟨str "p000001", str "paragraph", renderLink (str "l000001") (str "it")⟩

/-- Text before and behind the field, where the paragraph has none. -/
def fieldText : Str := str "See " ++ renderLink (str "l000001") (str "here") ++ str "\tnow"

theorem fieldDocument_read : IsTemplate fieldDocument.tree := ⟨by decide, by decide⟩

theorem fieldDocument_parsed : parsePackage (fun _ => true) [] fieldDocument = .ok [(fieldParagraph, fieldBlock)] := rfl

theorem fieldText_accepted : validateReplacements ([(fieldParagraph, fieldBlock)].map Prod.snd) [.replacement ⟨str "p000001", fieldText⟩] =
    .ok [⟨str "p000001", fieldText⟩] := rfl

theorem fieldDocument_sits : ∀ entry ∈ [(fieldParagraph, fieldBlock)], ∀ node ∈ ownNodes entry.1.children, node.isInlineItem = true →
    node.SitsInRun := by
  decide

theorem fieldText_stays : StaysBlock (fun _ => true) fieldParagraph.children fieldText where
  noBreak := by decide
  shows plains displays isParts := by
    have areParts : linkParts fieldText = .ok ([str "See ", str "\tnow"], [(str "l000001", str "here")]) := rfl
    rw [areParts] at isParts
    cases isParts
    exact ⟨codePoint 'S', by decide, by decide⟩
  noAlternate := by
    have areRewrites : rewritesOf (fun _ => true) fieldParagraph.children fieldText =
        [([], str "See "), ([], str "\tnow"), ([⟨[.r], ⟨.own 9, .t, [], str "it", []⟩, .nil⟩], str "here")] := rfl
    rw [areRewrites]
    intro entry listed _ _ first isFirst
    rcases List.mem_cons.mp listed with rfl | listed
    · cases isFirst
    rcases List.mem_cons.mp listed with rfl | listed
    · cases isFirst
    rw [List.mem_singleton.mp listed] at isFirst
    cases isFirst
    decide

/-- A tab in alternative renderings does not keep a paragraph from being a block, but text in its place does. -/
example :
    let choice : Forest := .node ⟨.own 5, .r, [], [], []⟩ (.node ⟨.own 6, .tab, [], [], []⟩ .nil .nil) .nil
    let content : Forest := .node ⟨.own 4, .alternateContent, [], [], []⟩ choice (textRun (str "Hi") .nil)
    (patchParagraph (fun _ => false) content (str "Hello")).map hasOwnAlternateContent = .ok true ∧ hasOwnAlternateContent content = false :=
  ⟨rfl, rfl⟩

end Oveo.Docx
