import Oveo.Lib.Json
import Oveo.Provider.Tokens

/-! # Does a snapshot fit?

`_snapshot_fits`, and the jobs that share its token cache.  Its answer is a predicate of the snapshot and the
budget, whatever was counted before; the searches for a request that fits take it as one. -/

namespace Oveo.Context

open Oveo.Lib Oveo.Provider

/-! ## Snapshots -/

/-- What `_snapshot_messages` raises. -/
inductive SnapshotError where
  | provider (errorCode : String)
  /-- `TypeError`: a list or a dictionary is not looked up in a set. -/
  | unhashableRole
deriving DecidableEq, Repr

def providerRole? (name : Str) : Option ProviderRole :=
  if name = str "system" then some .system
  else if name = str "user" then some .user
  else if name = str "assistant" then some .assistant
  else none

/-- The body of the loop of `_snapshot_messages`. -/
def snapshotMessage (errorCode : String) : Json → Except SnapshotError ProviderMessage
  | .obj item =>
    match Json.get? item (str "role"), Json.get? item (str "content") with
    | some (.arr _), _ => .error .unhashableRole
    | some (.obj _), _ => .error .unhashableRole
    | some (.str name), some (.str content) =>
      match providerRole? name with
      | some role => .ok { role, content }
      | none => .error (.provider errorCode)
    | _, _ => .error (.provider errorCode)
  | _ => .error (.provider errorCode)

/-- `_snapshot_messages`. -/
def snapshotMessages (errorCode : String) (snapshot : List (Str × Json)) : Except SnapshotError (List ProviderMessage) :=
  match Json.get? snapshot (str "provider_messages") with
  | some (.arr rawMessages) => do
    let messages ← rawMessages.mapM (snapshotMessage errorCode)
    if messages.isEmpty then throw (.provider errorCode)
    return messages
  | _ => .error (.provider errorCode)

/-- The error code `_snapshot_messages` has by default. -/
def compactionFailed : String := "context_compaction_failed"

/-! ## Checks -/

/-- What the token worker is asked for: by `_snapshot_fits`, and by `_check_response_budget` through `_count_pair`. -/
inductive TokenJob where
  | check (snapshot : List (Str × Json)) (budget : Int)
  | pair (first second : Str)

inductive TokenAnswer where
  | fits (answer : Except SnapshotError Bool)
  | counts (first second : Nat)

section

variable {Digest : Type} [DecidableEq Digest] (tokenizer : Tokenizer Digest)

/-- `_snapshot_fits`. -/
def snapshotFits (snapshot : List (Str × Json)) (budget : Int) (cache : TokenCache Digest) :
    Except SnapshotError Bool × TokenCache Digest :=
  match snapshotMessages compactionFailed snapshot with
  | .error error => (.error error, cache)
  | .ok messages =>
    if inputTokensUpperBound messages ≤ budget then (.ok true, cache)
    else
      let (tokens, cache) := tokenizer.countInputTokens messages cache
      (.ok (decide (tokens ≤ budget)), cache)

/-- `_count_pair`. -/
def countPair (first second : Str) (cache : TokenCache Digest) : (Nat × Nat) × TokenCache Digest :=
  let (firstTokens, cache) := tokenizer.countTextTokens first cache
  let (secondTokens, cache) := tokenizer.countTextTokens second cache
  ((firstTokens, secondTokens), cache)

def TokenJob.run (cache : TokenCache Digest) : TokenJob → TokenAnswer × TokenCache Digest
  | .check snapshot budget =>
    let (answer, cache) := snapshotFits tokenizer snapshot budget cache
    (.fits answer, cache)
  | .pair first second =>
    let (counts, cache) := countPair tokenizer first second cache
    (.counts counts.1 counts.2, cache)

/-- The answers to jobs that come one after the other. -/
def runJobs (cache : TokenCache Digest) : List TokenJob → List TokenAnswer
  | [] => []
  | job :: jobs =>
    let (answer, cache) := job.run tokenizer cache
    answer :: runJobs cache jobs

end

section

variable {Digest : Type} (tokenizer : Tokenizer Digest)

/-! ## What the answers should be -/

/-- Without bound and cache: does the snapshot have at most so many tokens? -/
def exactFits (snapshot : List (Str × Json)) (budget : Int) : Except SnapshotError Bool :=
  (snapshotMessages compactionFailed snapshot).map fun messages => decide (tokenizer.inputTokens messages ≤ budget)

def TokenJob.exact : TokenJob → TokenAnswer
  | .check snapshot budget => .fits (exactFits tokenizer snapshot budget)
  | .pair first second => .counts (tokenizer.tokens first) (tokenizer.tokens second)

/-- The texts a job may count. -/
def TokenJob.texts : TokenJob → List Str
  | .check snapshot _ =>
    match snapshotMessages compactionFailed snapshot with
    | .ok messages => messages.flatMap fun message => [message.role.name, message.content]
    | .error _ => []
  | .pair first second => [first, second]

end

section

variable {Digest : Type} [DecidableEq Digest] {tokenizer : Tokenizer Digest} {texts : List Str} {cache : TokenCache Digest}

/-- Whatever was counted before, a check answers as the tokenizer does. -/
theorem snapshotFits_eq (bounded : tokenizer.BoundedByBytes) (apart : tokenizer.DigestsApart texts)
    (sound : cache.Sound (tokenizer.Counted texts)) {snapshot : List (Str × Json)} {budget : Int}
    (areTexts : ∀ text ∈ (TokenJob.check snapshot budget).texts, text ∈ texts) :
    (snapshotFits tokenizer snapshot budget cache).1 = exactFits tokenizer snapshot budget ∧
      (snapshotFits tokenizer snapshot budget cache).2.Sound (tokenizer.Counted texts) := by
  rw [snapshotFits, exactFits]
  rw [TokenJob.texts] at areTexts
  split
  next error isError =>
    rw [isError]
    exact ⟨rfl, sound⟩
  next messages areMessages =>
    rw [areMessages] at areTexts ⊢
    split
    next fits =>
      have below := Tokenizer.inputTokens_le_upperBound bounded messages
      have counted : (tokenizer.inputTokens messages : Int) ≤ budget := by omega
      exact ⟨by rw [Except.map, decide_eq_true counted], sound⟩
    next =>
      have inside : ∀ message ∈ messages, message.role.name ∈ texts ∧ message.content ∈ texts := by
        intro message listed
        have among (text : Str) (isPart : text ∈ [message.role.name, message.content]) : text ∈ texts :=
          areTexts text (List.mem_flatMap.mpr ⟨message, listed, isPart⟩)
        exact ⟨among _ (by simp), among _ (by simp)⟩
      obtain ⟨isCount, afterCount⟩ := Tokenizer.countInputTokens_eq apart sound inside
      refine ⟨?_, afterCount⟩
      show Except.ok (decide (((tokenizer.countInputTokens messages cache).1 : Int) ≤ budget)) = _
      rw [isCount, Except.map]

theorem countPair_eq (apart : tokenizer.DigestsApart texts) (sound : cache.Sound (tokenizer.Counted texts)) {first second : Str}
    (isFirst : first ∈ texts) (isSecond : second ∈ texts) :
    (countPair tokenizer first second cache).1 = (tokenizer.tokens first, tokenizer.tokens second) ∧
      (countPair tokenizer first second cache).2.Sound (tokenizer.Counted texts) := by
  obtain ⟨firstCount, afterFirst⟩ := Tokenizer.countTextTokens_eq apart sound isFirst
  obtain ⟨secondCount, afterSecond⟩ := Tokenizer.countTextTokens_eq apart afterFirst isSecond
  exact ⟨Prod.ext firstCount secondCount, afterSecond⟩

/-- A job answers as the tokenizer does, and leaves the cache sound. -/
theorem TokenJob.run_eq (bounded : tokenizer.BoundedByBytes) (apart : tokenizer.DigestsApart texts)
    (sound : cache.Sound (tokenizer.Counted texts)) {job : TokenJob} (areTexts : ∀ text ∈ job.texts, text ∈ texts) :
    (job.run tokenizer cache).1 = job.exact tokenizer ∧ (job.run tokenizer cache).2.Sound (tokenizer.Counted texts) := by
  cases job with
  | check snapshot budget =>
    obtain ⟨isAnswer, afterCheck⟩ := snapshotFits_eq bounded apart sound areTexts
    exact ⟨congrArg TokenAnswer.fits isAnswer, afterCheck⟩
  | pair first second =>
    obtain ⟨areCounts, afterPair⟩ := countPair_eq apart sound (areTexts first List.mem_cons_self) (areTexts second (by simp [TokenJob.texts]))
    exact ⟨congrArg (fun counts : Nat × Nat => TokenAnswer.counts counts.1 counts.2) areCounts, afterPair⟩

theorem runJobs_eq (bounded : tokenizer.BoundedByBytes) (apart : tokenizer.DigestsApart texts)
    (sound : cache.Sound (tokenizer.Counted texts)) {jobs : List TokenJob} (areTexts : ∀ job ∈ jobs, ∀ text ∈ job.texts, text ∈ texts) :
    runJobs tokenizer cache jobs = jobs.map (TokenJob.exact tokenizer) := by
  induction jobs generalizing cache with
  | nil => rfl
  | cons job jobs inductionHypothesis =>
    obtain ⟨here, later⟩ := List.forall_mem_cons.mp areTexts
    obtain ⟨isAnswer, afterJob⟩ := TokenJob.run_eq bounded apart sound here
    rw [List.map_cons, ← isAnswer, ← inductionHypothesis afterJob later]
    rfl

end

/-- In every sequence of budget checks and pair counts, from the empty cache on, each answer is that of the
tokenizer, provided that it gives no text more tokens than bytes and that the texts have different digests. -/
theorem snapshot_fits_exact {Digest : Type} [DecidableEq Digest] {tokenizer : Tokenizer Digest} (bounded : tokenizer.BoundedByBytes)
    (jobs : List TokenJob) (apart : tokenizer.DigestsApart (jobs.flatMap TokenJob.texts)) :
    runJobs tokenizer Recency.empty jobs = jobs.map (TokenJob.exact tokenizer) :=
  runJobs_eq bounded apart Recency.sound_empty fun job listed _ inside => List.mem_flatMap.mpr ⟨job, listed, inside⟩

/-! ## Three budgets -/

/-- The tokens and digests of two texts as they are, and a token for each byte of any other. -/
def twoTexts : Tokenizer Nat where
  encode text :=
    if text = str "user" then [1428]
    else if text = str "a" then [64]
    else (utf8Encode text).map UInt8.toNat
  sha256 bytes :=
    if bytes = utf8Encode (str "user") then 0x04f8996da763b7a969b1028ee3007569eaf3a635486ddab211d512c85b9df8fb
    else if bytes = utf8Encode (str "a") then 0xca978112ca1bbdcafac231b39a23dc4da786eff8147c4e72b9807785afee48bb
    else 0

theorem twoTexts_bounded : twoTexts.BoundedByBytes := by
  intro text
  simp only [twoTexts]
  split
  next isUser =>
    rw [isUser]
    decide
  next =>
    split
    next isA =>
      rw [isA]
      decide
    next => exact (List.length_map _).le

/-- A request of one message with the content `a`. -/
def requestOfA : List (Str × Json) :=
  [(str "provider_messages", .arr [.obj [(str "role", .str (str "user")), (str "content", .str (str "a"))]])]

/-- Nine tokens in at most twelve bytes: within the bound, within the count, and above it. -/
theorem snapshot_fits_exact_budgets :
    runJobs twoTexts Recency.empty [.check requestOfA 12, .check requestOfA 9, .check requestOfA 8] =
      [.fits (.ok true), .fits (.ok true), .fits (.ok false)] := by
  refine (snapshot_fits_exact twoTexts_bounded _ ?_).trans ?_
  · unfold Tokenizer.DigestsApart
    decide +kernel
  · rfl

end Oveo.Context
