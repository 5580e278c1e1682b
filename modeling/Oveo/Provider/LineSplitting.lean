import Oveo.Provider.EventLines

/-! # The lines of a stream do not depend on its chunks

The tail carried between two chunks is an unfinished line, perhaps with a CR after it that may be half
of a line break.  Splitting what a tail begins gives the lines the chunks still have to yield, so the
lines are those of the whole text. -/

namespace Oveo.Provider

open Oveo.Lib

/-! ## Lines of a text -/

/-- A line break, and what follows it: a CR before an LF is half of one. -/
inductive LineBreak : Str → Str → Prop where
  | both (rest : Str) : LineBreak [carriageReturn, lineFeed] rest
  | cr (rest : Str) (lone : rest.head? ≠ some lineFeed) : LineBreak [carriageReturn] rest
  | lf (rest : Str) : LineBreak [lineFeed] rest

/-- No line break is in it. -/
def IsLine (text : Str) : Prop := carriageReturn ∉ text ∧ lineFeed ∉ text

/-- A text, and the lines its line breaks stand between. -/
inductive Lines : Str → List Str → Prop where
  | last (line : Str) (isLine : IsLine line) : Lines line [line]
  | broken (line lineBreak : Str) {rest : Str} {lines : List Str} (isLine : IsLine line) (isBreak : LineBreak lineBreak rest)
      (later : Lines rest lines) : Lines (line ++ lineBreak ++ rest) (line :: lines)

theorem carriageReturn_ne_lineFeed : carriageReturn ≠ lineFeed := by decide

section

variable {c : CodePoint} {line text rest more tail : Str} {lines : List Str}

theorem isLine_nil : IsLine [] := ⟨List.not_mem_nil, List.not_mem_nil⟩

theorem isLine_cons : IsLine (c :: line) ↔ c ≠ carriageReturn ∧ c ≠ lineFeed ∧ IsLine line := by
  simp only [IsLine, List.mem_cons, not_or, ne_eq, eq_comm]
  tauto

theorem splitLineBreaks_ne_nil (text : Str) : splitLineBreaks text ≠ [] := by
  fun_induction splitLineBreaks text <;> simp_all

theorem splitLineBreaks_crlf (rest : Str) :
    splitLineBreaks (carriageReturn :: lineFeed :: rest) = [] :: splitLineBreaks rest := by
  rw [splitLineBreaks.eq_def]
  simp only [if_true]

theorem splitLineBreaks_cr (lone : rest.head? ≠ some lineFeed) :
    splitLineBreaks (carriageReturn :: rest) = [] :: splitLineBreaks rest := by
  cases rest with
  | nil => rfl
  | cons next after =>
    rw [splitLineBreaks.eq_def]
    simp only [if_true]
    exact if_neg fun isFeed => lone (congrArg some isFeed)

theorem splitLineBreaks_lf (rest : Str) : splitLineBreaks (lineFeed :: rest) = [] :: splitLineBreaks rest := by
  rw [splitLineBreaks.eq_def]
  simp only [carriageReturn_ne_lineFeed.symm, if_true, if_false]

/-- What stands before the first break of a text that has no break before it. -/
theorem splitLineBreaks_line_append (isLine : IsLine line) (isSplit : splitLineBreaks text = rest :: lines) :
    splitLineBreaks (line ++ text) = (line ++ rest) :: lines := by
  induction line with
  | nil => exact isSplit
  | cons c line inductionHypothesis =>
    obtain ⟨notReturn, notFeed, isLine⟩ := isLine_cons.mp isLine
    rw [List.cons_append, splitLineBreaks.eq_def]
    simp only [if_neg notReturn, if_neg notFeed, inductionHypothesis isLine]
    rfl

theorem splitLineBreaks_line (isLine : IsLine line) : splitLineBreaks line = [line] := by
  simpa using splitLineBreaks_line_append isLine (by rfl : splitLineBreaks [] = [[]])

theorem splitLineBreaks_broken {lineBreak : Str} (isLine : IsLine line) (isBreak : LineBreak lineBreak rest) :
    splitLineBreaks (line ++ lineBreak ++ rest) = line :: splitLineBreaks rest := by
  have after : splitLineBreaks (lineBreak ++ rest) = [] :: splitLineBreaks rest := by
    cases isBreak with
    | both => exact splitLineBreaks_crlf rest
    | cr _ lone => exact splitLineBreaks_cr lone
    | lf => exact splitLineBreaks_lf rest
  rw [List.append_assoc, splitLineBreaks_line_append isLine after, List.append_nil]

/-- Splitting finds the lines of a text. -/
theorem lines_splitLineBreaks (text : Str) : Lines text (splitLineBreaks text) := by
  fun_induction splitLineBreaks text with
  | case1 => exact .last [] isLine_nil
  | case2 =>
    exact .broken [] _ isLine_nil (.cr [] (by simp)) (.last [] isLine_nil)
  | case3 after inductionHypothesis =>
    exact .broken [] _ isLine_nil (.both after) inductionHypothesis
  | case4 next after notFeed inductionHypothesis =>
    exact .broken [] _ isLine_nil (.cr _ (by simpa using notFeed)) inductionHypothesis
  | case5 rest _ inductionHypothesis =>
    exact .broken [] _ isLine_nil (.lf rest) inductionHypothesis
  | case6 c rest notReturn notFeed line lines isSplit inductionHypothesis =>
    rw [isSplit] at inductionHypothesis
    cases inductionHypothesis with
    | last _ isLine => exact .last _ (isLine_cons.mpr ⟨notReturn, notFeed, isLine⟩)
    | broken _ lineBreak isLine isBreak later =>
      exact .broken (c :: line) lineBreak (isLine_cons.mpr ⟨notReturn, notFeed, isLine⟩) isBreak later
  | case7 _ rest _ _ isNil => exact absurd isNil (splitLineBreaks_ne_nil rest)

/-- A text has its lines in one way only. -/
theorem Lines.eq_splitLineBreaks (isSplit : Lines text lines) : lines = splitLineBreaks text := by
  induction isSplit with
  | last line isLine => exact (splitLineBreaks_line isLine).symm
  | broken line lineBreak isLine isBreak later inductionHypothesis =>
    rw [splitLineBreaks_broken isLine isBreak, inductionHypothesis]

theorem Lines.ne_nil (isSplit : Lines text lines) : lines ≠ [] := by
  cases isSplit <;> exact List.cons_ne_nil _ _

/-- A line break stays one when more follows, unless it is a CR at the end and the rest begins with an LF. -/
theorem LineBreak.append {lineBreak : Str} (isBreak : LineBreak lineBreak rest)
    (apart : (lineBreak ++ rest).getLast? = some carriageReturn → more.head? ≠ some lineFeed) :
    LineBreak lineBreak (rest ++ more) := by
  cases isBreak with
  | both => exact .both _
  | lf => exact .lf _
  | cr _ lone =>
    refine .cr _ ?_
    cases rest with
    | nil => exact apart rfl
    | cons next after => exact lone

/-- A text that is cut, but not inside a CRLF: the line at the cut goes on behind it. -/
theorem Lines.append (isSplit : Lines text lines) (apart : text.getLast? = some carriageReturn → more.head? ≠ some lineFeed) :
    splitLineBreaks (text ++ more) = lines.dropLast ++ splitLineBreaks (lines.getLast?.getD [] ++ more) := by
  induction isSplit with
  | last line isLine => rfl
  | @broken line lineBreak rest lines isLine isBreak later inductionHypothesis =>
    rw [List.append_assoc] at apart
    have apartBreak : (lineBreak ++ rest).getLast? = some carriageReturn → more.head? ≠ some lineFeed := by
      intro isLast
      exact apart (by rw [List.getLast?_append, isLast, Option.some_or])
    have apartRest : rest.getLast? = some carriageReturn → more.head? ≠ some lineFeed := by
      intro isLast
      exact apartBreak (by rw [List.getLast?_append, isLast, Option.some_or])
    obtain ⟨first, others, rfl⟩ := List.exists_cons_of_ne_nil later.ne_nil
    rw [List.append_assoc, splitLineBreaks_broken isLine (isBreak.append apartBreak), inductionHypothesis apartRest]
    rfl

/-! ## The chunks -/

/-- What is carried to the next chunk: an unfinished line, perhaps with half a line break. -/
inductive Unfinished : Str → Prop where
  | line (line : Str) (isLine : IsLine line) : Unfinished line
  | held (line : Str) (isLine : IsLine line) : Unfinished (line ++ [carriageReturn])

theorem Lines.isLine_getLast (isSplit : Lines text lines) : IsLine (lines.getLast?.getD []) := by
  induction isSplit with
  | last line isLine => exact isLine
  | broken line lineBreak isLine isBreak later inductionHypothesis =>
    obtain ⟨first, others, rfl⟩ := List.exists_cons_of_ne_nil later.ne_nil
    exact inductionHypothesis

/-- A text without the carriage return it may end with, and that carriage return. -/
theorem held_spec (text : Str) :
    ∃ body held, text = body ++ held ∧ text.take (text.length - held.length) = body ∧
      (if text.getLast? = some carriageReturn then [carriageReturn] else []) = held ∧
      ((held = [] ∧ body.getLast? ≠ some carriageReturn) ∨ held = [carriageReturn]) := by
  by_cases ends : text.getLast? = some carriageReturn
  · refine ⟨text.dropLast, [carriageReturn], (List.dropLast_append_getLast? _ ends).symm, ?_, if_pos ends, .inr rfl⟩
    exact (List.dropLast_eq_take).symm
  · exact ⟨text, [], (List.append_nil text).symm, List.take_length, if_neg ends, .inl ⟨rfl, ends⟩⟩

/-- One chunk: the lines it completes are the first ones, and the others begin with its tail. -/
theorem sseChunk_splits (unfinished : Unfinished tail) (chunk more : Str) :
    Unfinished (sseChunk tail chunk).2 ∧
      splitLineBreaks (tail ++ chunk ++ more) = (sseChunk tail chunk).1 ++ splitLineBreaks ((sseChunk tail chunk).2 ++ more) := by
  unfold sseChunk
  split
  next isEmpty =>
    rw [List.isEmpty_iff.mp isEmpty, List.append_nil]
    exact ⟨unfinished, rfl⟩
  next =>
    obtain ⟨body, held, isText, isTake, isHeld, ends⟩ := held_spec (tail ++ chunk)
    simp only [isHeld, isTake]
    have split := lines_splitLineBreaks body
    constructor
    · rcases ends with ⟨rfl, -⟩ | rfl
      · rw [List.append_nil]
        exact .line _ split.isLine_getLast
      · exact .held _ split.isLine_getLast
    · rw [isText, List.append_assoc, split.append, List.append_assoc]
      intro isLast
      rcases ends with ⟨-, notReturn⟩ | rfl
      · exact absurd isLast notReturn
      · simp [carriageReturn_ne_lineFeed]

/-- At the end a held carriage return was a line break, and the tail it ends is a line. -/
theorem Unfinished.ended (unfinished : Unfinished tail) : sseLines tail true [] = (splitLineBreaks tail).dropLast := by
  cases unfinished with
  | line _ isLine =>
    have notReturn : tail.getLast? ≠ some carriageReturn := fun isLast => isLine.1 (List.mem_of_getLast? isLast)
    simp [sseLines, splitLineBreaks_line isLine, notReturn]
  | held line isLine =>
    have isSplit := splitLineBreaks_broken isLine (.cr [] (by simp))
    rw [List.append_nil] at isSplit
    simp [sseLines, isSplit, splitLineBreaks]

/-- The chunks that are left yield the lines that are left. -/
theorem Unfinished.sseLines (unfinished : Unfinished tail) (chunks : List Str) :
    sseLines tail true chunks = (splitLineBreaks (tail ++ chunks.flatten)).dropLast := by
  induction chunks generalizing tail with
  | nil => rw [List.flatten_nil, List.append_nil, unfinished.ended]
  | cons chunk chunks inductionHypothesis =>
    obtain ⟨unfinishedAfter, isSplit⟩ := sseChunk_splits unfinished chunk chunks.flatten
    rw [List.flatten_cons, ← List.append_assoc, isSplit, List.dropLast_append_of_ne_nil (splitLineBreaks_ne_nil _),
      ← inductionHypothesis unfinishedAfter]
    rfl

/-- However a text is cut into chunks, the lines that arrive are its lines, less the one that is not ended. -/
theorem sseLines_of_chunks (chunks : List Str) :
    (∀ lines, Lines chunks.flatten lines ↔ lines = splitLineBreaks chunks.flatten) ∧
      sseLines [] true chunks = (splitLineBreaks chunks.flatten).dropLast := by
  constructor
  · intro lines
    constructor
    · exact Lines.eq_splitLineBreaks
    · rintro rfl
      exact lines_splitLineBreaks _
  · exact (Unfinished.line [] isLine_nil).sseLines chunks

end

end Oveo.Provider
