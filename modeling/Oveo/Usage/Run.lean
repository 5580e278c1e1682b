import Oveo.Context.Handoff
import Oveo.Usage.Ledger

/-! # The provider calls of one run

`_respond` and what it calls, as the places between two provider calls.  What the database, the
tokenizer and the model say there is the choice of the environment; the order of the calls and the
scope each one is accounted under are the program's. -/

namespace Oveo.Usage

open Oveo.Lib Oveo.Context

/-! ## Scopes -/

/-- One invocation of `_call_provider`. -/
inductive CallSite where
  | answer (attempt : Nat)
  | summary (cutoff attempt : Nat)
  /-- A source chunk's extract. -/
  | source (index : Nat)
  /-- An extract of extracts; the code does not name the round. -/
  | merge (round index : Nat)
  | title
deriving DecidableEq

/-- `dedupe_scope`, which is the request's `generation_id`. -/
def CallSite.scope (generationId : GenerationId) : CallSite → Str
  | .answer 0 => generationId.text
  | .answer attempt => joinColons [generationId.text, str "protocol-retry", digits attempt]
  | .summary cutoff attempt =>
    joinColons [generationId.text, str "summary", digits cutoff, str "attempt", digits attempt]
  | .source index => joinColons [generationId.text, str "prompt_handoff_compaction", str "source", digits index]
  | .merge _ index => joinColons [generationId.text, str "prompt_handoff_compaction", str "merge", digits index]
  | .title => joinColons [generationId.text, str "title"]

/-- `ledger_purpose`. -/
def CallSite.purpose (purpose : Store.Purpose) : CallSite → LedgerPurpose
  | .answer _ =>
    match purpose with
    | .chat => .chat
    | .promptHandoff => .promptHandoff
  | .summary _ _ => .summary
  | .source _ | .merge _ _ => .promptHandoffCompaction
  | .title => .title

/-- Two merge calls of different rounds with one index. -/
def CallSite.Repeats (site other : CallSite) : Prop :=
  ∃ round round' index, round ≠ round' ∧ site = .merge round index ∧ other = .merge round' index

/-- The fields of a scope after the generation's id. -/
def CallSite.fields : CallSite → List Str
  | .answer 0 => []
  | .answer attempt => [str "protocol-retry", digits attempt]
  | .summary cutoff attempt => [str "summary", digits cutoff, str "attempt", digits attempt]
  | .source index => [str "prompt_handoff_compaction", str "source", digits index]
  | .merge _ index => [str "prompt_handoff_compaction", str "merge", digits index]
  | .title => [str "title"]

theorem CallSite.scope_eq (generationId : GenerationId) (site : CallSite) :
    site.scope generationId = joinColons (generationId.text :: site.fields) := by
  cases site with
  | answer attempt =>
    cases attempt with
    | zero => simp [CallSite.scope, CallSite.fields, joinColons]
    | succ attempt => rfl
  | summary | source | merge | title => rfl

theorem CallSite.colon_not_mem_fields (site : CallSite) : ∀ field ∈ site.fields, colon ∉ field := by
  have compaction : colon ∉ str "prompt_handoff_compaction" := by decide
  cases site with
  | answer attempt =>
    cases attempt with
    | zero => simp [CallSite.fields]
    | succ attempt =>
      have retry : colon ∉ str "protocol-retry" := by decide
      simp [CallSite.fields, retry, colon_not_mem_digits]
  | summary cutoff attempt =>
    have summary : colon ∉ str "summary" := by decide
    have attempt : colon ∉ str "attempt" := by decide
    simp [CallSite.fields, summary, attempt, colon_not_mem_digits]
  | source index =>
    have source : colon ∉ str "source" := by decide
    simp [CallSite.fields, compaction, source, colon_not_mem_digits]
  | merge round index =>
    have merge : colon ∉ str "merge" := by decide
    simp [CallSite.fields, compaction, merge, colon_not_mem_digits]
  | title =>
    have title : colon ∉ str "title" := by decide
    simp [CallSite.fields, title]

/-- The fields tell two sites apart but for the round of a merge. -/
theorem CallSite.eq_of_fields {site other : CallSite} (same : site.fields = other.fields) :
    site = other ∨ site.Repeats other := by
  have sourceIsNotMerge : str "source" ≠ str "merge" := by decide
  cases site with
  | answer attempt =>
    left
    cases other with
    | answer attempt' => cases attempt <;> cases attempt' <;> simp_all [CallSite.fields, digits_injective.eq_iff]
    | summary | source | merge | title => cases attempt <;> simp [CallSite.fields] at same
  | summary cutoff attempt =>
    left
    cases other with
    | answer attempt' => cases attempt' <;> simp [CallSite.fields] at same
    | summary cutoff' attempt' =>
      simp only [CallSite.fields, List.cons.injEq, digits_injective.eq_iff] at same
      simp [same]
    | source | merge | title => simp [CallSite.fields] at same
  | source index =>
    left
    cases other with
    | answer attempt' => cases attempt' <;> simp [CallSite.fields] at same
    | source index' =>
      simp only [CallSite.fields, List.cons.injEq, digits_injective.eq_iff] at same
      simp [same]
    | merge => simp [CallSite.fields, sourceIsNotMerge] at same
    | summary | title => simp [CallSite.fields] at same
  | merge round index =>
    cases other with
    | answer attempt' => cases attempt' <;> simp [CallSite.fields] at same
    | merge round' index' =>
      simp only [CallSite.fields, List.cons.injEq, digits_injective.eq_iff] at same
      by_cases sameRound : round = round'
      · simp [same, sameRound]
      · exact .inr ⟨round, round', index, sameRound, rfl, by simp [same]⟩
    | source => simp [CallSite.fields, sourceIsNotMerge.symm] at same
    | summary | title => simp [CallSite.fields] at same
  | title =>
    left
    cases other with
    | answer attempt' => cases attempt' <;> simp [CallSite.fields] at same
    | title => rfl
    | summary | source | merge => simp [CallSite.fields] at same

/-- A scope names its generation and its site, but for the round of a merge. -/
theorem CallSite.scope_inj {generationId otherId : GenerationId} {site other : CallSite}
    (same : site.scope generationId = other.scope otherId) :
    generationId = otherId ∧ (site = other ∨ site.Repeats other) := by
  rw [CallSite.scope_eq, CallSite.scope_eq] at same
  have plain (id : GenerationId) (site : CallSite) : ∀ field ∈ id.text :: site.fields, colon ∉ field := by
    intro field listed
    rcases List.mem_cons.mp listed with rfl | inFields
    · exact id.noColon
    · exact site.colon_not_mem_fields field inFields
  have fields := joinColons_inj (plain generationId site) (plain otherId other) (by simp) (by simp) same
  obtain ⟨sameText, sameFields⟩ := List.cons.inj fields
  refine ⟨?_, CallSite.eq_of_fields sameFields⟩
  cases generationId
  cases otherId
  simp only [GenerationId.mk.injEq]
  exact sameText

/-! ## Positions -/

/-- Where a run is while no provider call is made. -/
inductive Position where
  /-- `_compose` and `_maybe_compact_context`. -/
  | composing
  /-- The head of the loop of `_compact_chat_context`; the messages up to here are summarized. -/
  | compacting (through : Nat)
  /-- Before a summary call. -/
  | summarizing (cutoff attempt : Nat)
  /-- The list of source extracts, so many chunks and the extracts so far. -/
  | extracting (chunks : Nat) (extracts : List Str)
  /-- The head of the merge loop. -/
  | merging (round : Nat) (extracts : List Str)
  /-- One round of it, the groups still to merge and the extracts of those before. -/
  | regrouping (round : Nat) (groups : List (List Str)) (extracts : List Str)
  /-- Before an attempt at the answer. -/
  | answering (attempt : Nat)
  | titling
  | ended

/-- The call a run makes next. -/
def Position.site? : Position → Option CallSite
  | .summarizing cutoff attempt => some (.summary cutoff attempt)
  | .extracting chunks extracts => if extracts.length < chunks then some (.source (extracts.length + 1)) else none
  | .regrouping round groups extracts =>
    match groups with
    | [] => none
    | _ :: _ => some (.merge round (extracts.length + 1))
  | .answering attempt => some (.answer attempt)
  | .titling => some .title
  | .composing | .compacting _ | .merging _ _ | .ended => none

/-- What a run finds between two calls. -/
inductive Choice where
  /-- The snapshot fits. -/
  | fits
  /-- It does not; `summary_through_ordinal` of the thread. -/
  | compact (through : Nat)
  /-- The next summary covers the messages up to here. -/
  | summarize (cutoff : Nat)
  /-- It does not; the source chunks of a handoff. -/
  | chunk (count : Nat)
  /-- On with the loop. -/
  | next
  /-- An error, or nothing left to do. -/
  | quit

def Position.decide (fits : List Str → Bool) (purpose : Store.Purpose) : Position → Choice → Option Position
  | .composing, .fits => some (.answering 0)
  | .composing, .compact through => if purpose = .chat then some (.compacting through) else none
  | .composing, .chunk count => if purpose = .promptHandoff then some (.extracting count []) else none
  | .compacting _, .fits => some (.answering 0)
  -- the candidates for a summary lie behind the messages summarized
  | .compacting through, .summarize cutoff => if through < cutoff then some (.summarizing cutoff 1) else none
  | .extracting chunks extracts, .next => if extracts.length < chunks then none else some (.merging 1 extracts)
  | .merging round extracts, .next =>
    if fits extracts then some (.answering 0)
    else
      match boundedHandoffGroups fits extracts with
      | none => some .ended
      | some groups => if groups.length ≥ extracts.length then some .ended else some (.regrouping round groups [])
  | .regrouping round [] extracts, .next => some (.merging (round + 1) extracts)
  | _, .quit => some .ended
  | _, _ => none

/-- What the code behind a provider call makes of it. -/
inductive CallResult where
  /-- It is accepted: the answer is committed, the summary stored or the extract valid. -/
  | accepted (text : Str)
  /-- A `ProtocolError` or a `SummaryFormatError`. -/
  | malformed
  /-- Any other error. -/
  | failed

def Position.proceed (purpose : Store.Purpose) : Position → CallResult → Option Position
  | .summarizing cutoff _, .accepted _ => some (.compacting cutoff)
  | .summarizing cutoff attempt, .malformed => if attempt = 1 then some (.summarizing cutoff 2) else some .ended
  | .extracting chunks extracts, .accepted text => some (.extracting chunks (extracts ++ [text]))
  | .regrouping round (_ :: groups) extracts, .accepted text => some (.regrouping round groups (extracts ++ [text]))
  | .answering _, .accepted _ => if purpose = .chat then some .titling else some .ended
  | .answering attempt, .malformed => if attempt = 2 then some .ended else some (.answering (attempt + 1))
  | .titling, _ => some .ended
  | .extracting _ _, .malformed | .regrouping _ (_ :: _) _, .malformed => some .ended
  | _, .failed => some .ended
  | _, _ => none

/-! ## No call is made twice -/

/-- The calls a run may still make. -/
def Position.Upcoming : Position → CallSite → Prop
  | .composing, _ => True
  | .compacting through, .summary cutoff _ => through < cutoff
  | .summarizing cutoff attempt, .summary cutoff' attempt' => cutoff < cutoff' ∨ cutoff' = cutoff ∧ attempt ≤ attempt'
  | .extracting _ extracts, .source index => extracts.length < index
  | .merging round _, .merge round' _ => round ≤ round'
  | .regrouping round _ extracts, .merge round' index => round < round' ∨ round' = round ∧ extracts.length < index
  | .answering attempt, .answer attempt' => attempt ≤ attempt'
  | .extracting _ _, .merge _ _ => True
  | .compacting _, .answer _ | .summarizing _ _, .answer _ | .extracting _ _, .answer _ | .merging _ _, .answer _
  | .regrouping _ _ _, .answer _ => True
  | .compacting _, .title | .summarizing _ _, .title | .extracting _ _, .title | .merging _ _, .title
  | .regrouping _ _ _, .title | .answering _, .title | .titling, .title => True
  | _, _ => False

/-- Those after the one it makes now. -/
def Position.Later (position : Position) (site : CallSite) : Prop := position.Upcoming site ∧ position.site? ≠ some site

theorem Position.upcoming_site {position : Position} {site : CallSite} (next : position.site? = some site) :
    position.Upcoming site := by
  cases position with
  | extracting chunks extracts =>
    simp only [Position.site?] at next
    split at next
    next =>
      cases next
      exact Nat.lt_succ_self _
    next => cases next
  | regrouping round groups extracts =>
    cases groups with
    | nil => cases next
    | cons group groups =>
      cases next
      exact .inr ⟨rfl, Nat.lt_succ_self _⟩
  | summarizing cutoff attempt =>
    cases next
    exact .inr ⟨rfl, le_refl _⟩
  | answering attempt =>
    cases next
    exact le_refl attempt
  | titling =>
    cases next
    trivial
  | composing | compacting | merging | ended => cases next

theorem Position.upcoming_of_decide {fits : List Str → Bool} {purpose : Store.Purpose} {position next : Position}
    {choice : Choice} {site : CallSite} (decided : position.decide fits purpose choice = some next)
    (upcoming : next.Upcoming site) : position.Upcoming site := by
  unfold Position.decide at decided
  split at decided
  next => trivial
  next => trivial
  next => trivial
  next =>
    cases decided
    cases site with
    | answer | title => trivial
    | summary | source | merge => exact upcoming.elim
  next through cutoff =>
    split at decided
    next later =>
      cases decided
      cases site with
      | answer | title => trivial
      | summary cutoff' attempt' =>
        have after : cutoff < cutoff' ∨ cutoff' = cutoff ∧ 1 ≤ attempt' := upcoming
        show through < cutoff'
        omega
      | source | merge => exact upcoming.elim
    next => cases decided
  next =>
    split at decided
    next => cases decided
    next =>
      cases decided
      cases site with
      | answer | title | merge => trivial
      | summary | source => exact upcoming.elim
  next round extracts =>
    split at decided
    next =>
      cases decided
      cases site with
      | answer | title => trivial
      | summary | source | merge => exact upcoming.elim
    next =>
      split at decided
      next =>
        cases decided
        exact upcoming.elim
      next =>
        split at decided
        next =>
          cases decided
          exact upcoming.elim
        next =>
          cases decided
          cases site with
          | answer | title => trivial
          | merge round' index' =>
            have after : round < round' ∨ round' = round ∧ ([] : List Str).length < index' := upcoming
            show round ≤ round'
            omega
          | summary | source => exact upcoming.elim
  next round extracts =>
    cases decided
    cases site with
    | answer | title => trivial
    | merge round' index' =>
      have after : round + 1 ≤ round' := upcoming
      exact .inl after
    | summary | source => exact upcoming.elim
  next =>
    cases decided
    exact upcoming.elim
  next => cases decided

theorem Position.later_of_proceed {purpose : Store.Purpose} {position next : Position} {result : CallResult}
    {site : CallSite} (proceeded : position.proceed purpose result = some next) (upcoming : next.Upcoming site) :
    position.Later site := by
  unfold Position.proceed at proceeded
  split at proceeded
  next cutoff attempt _ =>
    cases proceeded
    cases site with
    | answer | title => exact ⟨trivial, by simp [Position.site?]⟩
    | summary cutoff' attempt' =>
      have after : cutoff < cutoff' := upcoming
      refine ⟨.inl after, fun same => ?_⟩
      cases same
      omega
    | source | merge => exact upcoming.elim
  next cutoff attempt =>
    split at proceeded
    next first =>
      cases proceeded
      cases site with
      | answer | title => exact ⟨trivial, by simp [Position.site?]⟩
      | summary cutoff' attempt' =>
        have after : cutoff < cutoff' ∨ cutoff' = cutoff ∧ 2 ≤ attempt' := upcoming
        refine ⟨?_, fun same => ?_⟩
        · show cutoff < cutoff' ∨ cutoff' = cutoff ∧ attempt ≤ attempt'
          omega
        · cases same
          omega
      | source | merge => exact upcoming.elim
    next =>
      cases proceeded
      exact upcoming.elim
  next chunks extracts text =>
    cases proceeded
    cases site with
    | answer | title | merge => exact ⟨trivial, by simp only [Position.site?]; split <;> simp⟩
    | source index =>
      have after : (extracts ++ [text]).length < index := upcoming
      rw [List.length_append, List.length_singleton] at after
      refine ⟨show extracts.length < index by omega, fun same => ?_⟩
      simp only [Position.site?] at same
      split at same
      next =>
        cases same
        omega
      next => cases same
    | summary => exact upcoming.elim
  next round group groups extracts text =>
    cases proceeded
    cases site with
    | answer | title => exact ⟨trivial, by simp [Position.site?]⟩
    | merge round' index =>
      have after : round < round' ∨ round' = round ∧ (extracts ++ [text]).length < index := upcoming
      rw [List.length_append, List.length_singleton] at after
      refine ⟨?_, fun same => ?_⟩
      · show round < round' ∨ round' = round ∧ extracts.length < index
        omega
      · cases same
        omega
    | summary | source => exact upcoming.elim
  next attempt _ =>
    split at proceeded
    next =>
      cases proceeded
      cases site with
      | title => exact ⟨trivial, by simp [Position.site?]⟩
      | answer | summary | source | merge => exact upcoming.elim
    next =>
      cases proceeded
      exact upcoming.elim
  next attempt =>
    split at proceeded
    next =>
      cases proceeded
      exact upcoming.elim
    next =>
      cases proceeded
      cases site with
      | title => exact ⟨trivial, by simp [Position.site?]⟩
      | answer attempt' =>
        have after : attempt + 1 ≤ attempt' := upcoming
        refine ⟨show attempt ≤ attempt' by omega, fun same => ?_⟩
        cases same
        omega
      | summary | source | merge => exact upcoming.elim
  next =>
    cases proceeded
    exact upcoming.elim
  next =>
    cases proceeded
    exact upcoming.elim
  next =>
    cases proceeded
    exact upcoming.elim
  next =>
    cases proceeded
    exact upcoming.elim
  next => cases proceeded

end Oveo.Usage
