import Oveo.Provider.Attempt

/-! # Requests to the provider

`build_request_body` and the attempts `stream_chat` makes with it. -/

namespace Oveo.Provider

open Oveo.Lib

/-- The roles a provider message may have; the type excludes the others `build_request_body` refuses. -/
inductive ProviderRole where
  | system
  | user
  | assistant
deriving DecidableEq, Repr

inductive ReasoningEffort where
  | max
  | xhigh
  | high
  | medium
  | low
  | none
deriving DecidableEq, Repr

structure ProviderMessage where
  role : ProviderRole
  content : Str
deriving DecidableEq, Repr

/-- The fields of the request body that are not constants. -/
structure RequestBody where
  messages : List ProviderMessage
  maxCompletionTokens : Nat
  reasoningEffort : ReasoningEffort
deriving DecidableEq, Repr

section

variable {Usage : Type}

/-- `build_request_body`. -/
def buildRequestBody (messages : List ProviderMessage) (maxCompletionTokens : Nat) (reasoningEffort : ReasoningEffort) :
    Except (Raised Usage) RequestBody :=
  if messages.isEmpty then .error .value
  else if maxCompletionTokens < 1 then .error .value
  else if messages.any fun message => message.content.isEmpty then .error .value
  else .ok { messages, maxCompletionTokens, reasoningEffort }

/-- `_MAX_RETRY_AFTER`, in seconds. -/
def maxRetryAfter : Rat := 30

/-- How long to wait after an attempt. -/
def retryDelay (attempt : Nat) (error : ProviderError Usage) : Rat :=
  max (2 ^ attempt) (min (error.retryAfterSeconds.getD 0) maxRetryAfter)

end

/-- The attempts of one call, and how it ends. -/
structure ChatRun (Usage : Type) where
  /-- History only: the attempts that were made, in order. -/
  attempts : List (Attempt Usage)
  result : Except (Raised Usage) (ProviderCompletion Usage)

section

variable {Usage : Type} (reader : Reader Usage) (retryAttempts : Nat) (served : RequestBody → Nat → Served Usage)
  (sleep : Rat → Option (Raised Usage))

/-- The loop of `stream_chat`, with `left` attempts left of `retry_attempts`. -/
def chatLoop (body : RequestBody) : Nat → Nat → ChatRun Usage
  -- `AssertionError`
  | 0, _ => ⟨[], .error .other⟩
  | left + 1, attempt =>
    match streamOnce reader (served body attempt) with
    | (a, .ok completion) => ⟨[a], .ok completion⟩
    | (a, .error (.provider error)) =>
      if !error.retryable || error.afterText || retryAttempts ≤ attempt + 1 then ⟨[a], .error (.provider error)⟩
      else
        match sleep (retryDelay attempt error) with
        | some raised => ⟨[a], .error raised⟩
        | none =>
          let later := chatLoop body left (attempt + 1)
          ⟨a :: later.attempts, later.result⟩
    | (a, .error raised) => ⟨[a], .error raised⟩

/-- `stream_chat`. -/
def streamChat (messages : List ProviderMessage) (maxCompletionTokens : Nat) (reasoningEffort : ReasoningEffort) : ChatRun Usage :=
  match buildRequestBody messages maxCompletionTokens reasoningEffort with
  | .error raised => ⟨[], .error raised⟩
  | .ok body => chatLoop reader retryAttempts served sleep body retryAttempts 0

end

end Oveo.Provider
