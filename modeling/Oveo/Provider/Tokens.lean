import Oveo.Lib.Recency
import Oveo.Lib.Utf8
import Oveo.Provider.Request

/-! # Token counts

`count_text_tokens` with its cache, `count_input_tokens` and `input_tokens_upper_bound`.  The model's
tokenizer and SHA-256 are parameters.  All counting is done by the one thread of the token worker, so one
count follows the other and the cache is passed on. -/

namespace Oveo.Provider

open Oveo.Lib

/-- What counting calls: `_model_encoding().encode(text, disallowed_special=())` and `hashlib.sha256`. -/
structure Tokenizer (Digest : Type) where
  encode : Str → List Nat
  sha256 : List UInt8 → Digest

/-- `_TOKEN_CACHE_SIZE`. -/
def tokenCacheSize : Nat := 64

/-- `_token_cache`. -/
abbrev TokenCache (Digest : Type) := Recency Digest Nat tokenCacheSize

def ProviderRole.name : ProviderRole → Str
  | .system => str "system"
  | .user => str "user"
  | .assistant => str "assistant"

/-- `input_tokens_upper_bound`. -/
def inputTokensUpperBound (messages : List ProviderMessage) : Nat :=
  3 + (messages.map fun message => 4 + (utf8Encode message.role.name).length + (utf8Encode message.content).length).sum

namespace Tokenizer

variable {Digest : Type} (tokenizer : Tokenizer Digest)

def digest (text : Str) : Digest := tokenizer.sha256 (utf8Encode text)

/-- The tokens of a text, not asking the cache. -/
def tokens (text : Str) : Nat := (tokenizer.encode text).length

/-- The tokens of the messages with their framing, not asking the cache. -/
def inputTokens (messages : List ProviderMessage) : Nat :=
  3 + (messages.map fun message => 4 + tokenizer.tokens message.role.name + tokenizer.tokens message.content).sum

section

variable [DecidableEq Digest]

/-- `count_text_tokens`. -/
def countTextTokens (text : Str) (cache : TokenCache Digest) : Nat × TokenCache Digest :=
  match cache.get? (tokenizer.digest text) with
  | some cached => (cached, cache.use (tokenizer.digest text))
  | none => (tokenizer.tokens text, cache.store (tokenizer.digest text) (tokenizer.tokens text))

/-- The loop of `count_input_tokens`. -/
def countMessages (total : Nat) : List ProviderMessage → TokenCache Digest → Nat × TokenCache Digest
  | [], cache => (total, cache)
  | message :: messages, cache =>
    let (role, cache) := tokenizer.countTextTokens message.role.name cache
    let (content, cache) := tokenizer.countTextTokens message.content cache
    countMessages (total + 4 + role + content) messages cache

/-- `count_input_tokens`. -/
def countInputTokens (messages : List ProviderMessage) (cache : TokenCache Digest) : Nat × TokenCache Digest :=
  tokenizer.countMessages 3 messages cache

end

/-! ## What is assumed of them -/

/-- No text has more tokens than bytes. -/
def BoundedByBytes : Prop := ∀ text, (tokenizer.encode text).length ≤ (utf8Encode text).length

/-- No two of these texts have one digest. -/
def DigestsApart (texts : List Str) : Prop :=
  ∀ first ∈ texts, ∀ second ∈ texts, tokenizer.sha256 (utf8Encode first) = tokenizer.sha256 (utf8Encode second) →
    utf8Encode first = utf8Encode second

/-- A count is that of a text with this digest. -/
def Counted (texts : List Str) (digest : Digest) (count : Nat) : Prop :=
  ∃ text ∈ texts, tokenizer.digest text = digest ∧ count = tokenizer.tokens text

section

variable {tokenizer} {texts : List Str} {text : Str} {messages : List ProviderMessage}

/-! ## The bound -/

/-- No count is above the bound. -/
theorem inputTokens_le_upperBound (bounded : tokenizer.BoundedByBytes) (messages : List ProviderMessage) :
    tokenizer.inputTokens messages ≤ inputTokensUpperBound messages := by
  unfold inputTokens inputTokensUpperBound
  induction messages with
  | nil => exact Nat.le_refl _
  | cons message messages inductionHypothesis =>
    have role := bounded message.role.name
    have content := bounded message.content
    simp only [List.map_cons, List.sum_cons, tokens] at inductionHypothesis ⊢
    omega

/-! ## The cache -/

variable [DecidableEq Digest] {cache : TokenCache Digest}

/-- Whatever the cache holds of these texts, a count is that of the tokenizer. -/
theorem countTextTokens_eq (apart : tokenizer.DigestsApart texts) (sound : cache.Sound (tokenizer.Counted texts)) (isText : text ∈ texts) :
    (tokenizer.countTextTokens text cache).1 = tokenizer.tokens text ∧
      (tokenizer.countTextTokens text cache).2.Sound (tokenizer.Counted texts) := by
  rw [countTextTokens]
  split
  next cached found =>
    obtain ⟨other, isOther, sameDigest, rfl⟩ := sound.get? found
    have same : other = text := utf8Encode_injective (apart other isOther text isText sameDigest)
    exact ⟨by rw [same], sound.use _⟩
  next => exact ⟨rfl, sound.store ⟨text, isText, rfl, rfl⟩⟩

theorem countMessages_eq (apart : tokenizer.DigestsApart texts) (sound : cache.Sound (tokenizer.Counted texts))
    (areTexts : ∀ message ∈ messages, message.role.name ∈ texts ∧ message.content ∈ texts) (total : Nat) :
    (tokenizer.countMessages total messages cache).1 =
        total + (messages.map fun message => 4 + tokenizer.tokens message.role.name + tokenizer.tokens message.content).sum ∧
      (tokenizer.countMessages total messages cache).2.Sound (tokenizer.Counted texts) := by
  induction messages generalizing total cache with
  | nil => exact ⟨rfl, sound⟩
  | cons message messages inductionHypothesis =>
    obtain ⟨⟨isRole, isContent⟩, areTexts⟩ := List.forall_mem_cons.mp areTexts
    obtain ⟨role, afterRole⟩ := countTextTokens_eq apart sound isRole
    obtain ⟨content, afterContent⟩ := countTextTokens_eq apart afterRole isContent
    obtain ⟨isTotal, afterRest⟩ := inductionHypothesis afterContent areTexts (total + 4 + (tokenizer.countTextTokens message.role.name cache).1 +
      (tokenizer.countTextTokens message.content (tokenizer.countTextTokens message.role.name cache).2).1)
    refine ⟨isTotal.trans ?_, afterRest⟩
    rw [role, content, List.map_cons, List.sum_cons]
    omega

theorem countInputTokens_eq (apart : tokenizer.DigestsApart texts) (sound : cache.Sound (tokenizer.Counted texts))
    (areTexts : ∀ message ∈ messages, message.role.name ∈ texts ∧ message.content ∈ texts) :
    (tokenizer.countInputTokens messages cache).1 = tokenizer.inputTokens messages ∧
      (tokenizer.countInputTokens messages cache).2.Sound (tokenizer.Counted texts) :=
  countMessages_eq apart sound areTexts 3

end

end Tokenizer

end Oveo.Provider
