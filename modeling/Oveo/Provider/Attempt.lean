import Mathlib.Algebra.Order.Ring.Rat
import Oveo.Lib.Json
import Oveo.Provider.EventLines
import Oveo.Provider.Surrogates

/-! # One attempt at a provider stream

`_stream_once`.  What the network, the callbacks and the clock do to an attempt is given with it: the
response that is opened, how its stream breaks off, and what is raised wherever the attempt waits.  What
an event says about its cost is carried along and not looked at. -/

namespace Oveo.Provider

open Oveo.Lib

section

variable (Usage : Type)

structure ProviderError where
  code : String
  retryable : Bool
  statusCode : Option Nat
  /-- `partial`: text was passed on before it. -/
  afterText : Bool
  providerRequestId : Option Str
  providerGenerationId : Option Str
  providerName : Option Str
  usage : Option Usage
  retryAfterSeconds : Option Rat

/-- What may be raised where an attempt waits, as far as `_stream_once` tells it apart. -/
inductive Raised where
  | provider (error : ProviderError Usage)
  /-- `TimeoutError`, also of the deadline of the attempt. -/
  | timeout
  /-- One of `_CONFIGURATION_ERRORS`. -/
  | configuration
  /-- `httpx.RequestError`. -/
  | request
  /-- `ValueError` or `TypeError`. -/
  | value
  /-- Anything else, also a cancellation. -/
  | other

/-- The standard library, and the reader of usage records. -/
structure Reader where
  /-- `json.loads`. -/
  loads : Str → Except (Raised Usage) Json
  /-- `str.isdigit`. -/
  isDigit : Str → Bool
  /-- `int(text)`. -/
  int : Str → Except (Raised Usage) Int
  /-- `float(text.strip())`, where it is finite. -/
  float : Str → Option Rat
  parseUsage : Option Json → Option Usage

structure Response where
  statusCode : Nat
  requestId : Option Str
  retryAfter : Option Str
  /-- The chunks of text that arrive. -/
  chunks : List Str
  /-- What breaks the stream off after them; it ends by itself if there is nothing. -/
  broken : Option (Raised Usage)

/-- What one attempt meets. -/
structure Served where
  /-- The response, or what is raised while it is opened. -/
  opened : Except (Raised Usage) (Response Usage)
  /-- What closing it raises. -/
  closing : Option (Raised Usage)
  /-- What `on_delta` raises, given the deltas passed on so far, this one included. -/
  onDelta : List Str → Option (Raised Usage)
  /-- What `on_ids` raises. -/
  onIds : Option Str → Str → Option (Raised Usage)

/-- The variables of `_stream_once`. -/
structure Attempt where
  emitted : Bool
  parts : List Str
  requestId : Option Str
  generationId : Option Str
  providerName : Option Str
  usage : Option Usage
  finishReason : Option Str
  done : Bool
  heldSurrogate : Str
  /-- History only: the deltas passed to `on_delta`. -/
  passed : List Str

structure ProviderCompletion where
  text : Str
  providerRequestId : Option Str
  providerGenerationId : Option Str
  providerName : Option Str
  usage : Option Usage

end

section

variable {Usage : Type}

def Attempt.fresh : Attempt Usage where
  emitted := false
  parts := []
  requestId := none
  generationId := none
  providerName := none
  usage := none
  finishReason := none
  done := false
  heldSurrogate := []
  passed := []

/-- `first or second` of strings that may be missing. -/
def orText (first second : Option Str) : Option Str := (first.filter fun text => !text.isEmpty).or second

/-- `ProviderError(code, retryable=retryable)`. -/
def ProviderError.plain (code : String) (retryable : Bool) : ProviderError Usage where
  code := code
  retryable := retryable
  statusCode := none
  afterText := false
  providerRequestId := none
  providerGenerationId := none
  providerName := none
  usage := none
  retryAfterSeconds := none

/-- `ProviderError.in_attempt`. -/
def ProviderError.inAttempt (error : ProviderError Usage) (a : Attempt Usage) : ProviderError Usage where
  code := error.code
  retryable := error.retryable
  statusCode := error.statusCode
  afterText := error.afterText || a.emitted
  providerRequestId := orText error.providerRequestId a.requestId
  providerGenerationId := orText error.providerGenerationId a.generationId
  providerName := orText error.providerName a.providerName
  usage := error.usage.or a.usage
  retryAfterSeconds := error.retryAfterSeconds

/-- `failure`. -/
def Attempt.failure (a : Attempt Usage) (code : String) (retryable : Bool) : Raised Usage :=
  .provider {
    code := code
    retryable := retryable
    statusCode := none
    afterText := a.emitted
    providerRequestId := a.requestId
    providerGenerationId := a.generationId
    providerName := a.providerName
    usage := a.usage
    retryAfterSeconds := none }

def malformedStream : Raised Usage := .provider (.plain "provider_malformed_stream" false)

/-- `_safe_string`. -/
def safeString : Option Json → Option Str
  | some (.str value) => if value.isEmpty then none else some value
  | _ => none

/-! ## Errors the provider names -/

def transientCodes : List Str :=
  ["request_timeout", "rate_limit_exceeded", "server_error", "provider_unavailable", "overloaded_error"].map str

def isTransientStatus (code : Int) : Bool := code ∈ [408, 409, 425, 429] || 500 ≤ code

/-- `_error_code`. -/
def errorCode : Json → Json
  | .obj members => (Json.get? members (str "code")).getD .null
  | _ => .null

/-- `_is_transient_code`. -/
def isTransientCode (reader : Reader Usage) : Json → Except (Raised Usage) Bool
  | .str text => if reader.isDigit text then (reader.int text).map isTransientStatus else .ok (transientCodes.contains text)
  | .int value => .ok (isTransientStatus value)
  | .bool value => .ok (isTransientStatus (if value then 1 else 0))
  -- A list or a dict cannot be looked up in a set.
  | .arr _ | .obj _ => .error .value
  | .null | .float _ => .ok false

/-- `_retry_after_seconds`. -/
def retryAfterSeconds (reader : Reader Usage) (value : Option Str) : Option Rat := do
  let seconds ← reader.float (← value)
  if 0 ≤ seconds then some seconds else none

/-- `_http_error`. -/
def httpError (reader : Reader Usage) (statusCode : Nat) (requestId retryAfter : Option Str) : ProviderError Usage :=
  let retryable := isTransientStatus statusCode
  { ProviderError.plain (if retryable then "provider_transient" else "provider_rejected") retryable with
    statusCode := some statusCode
    providerRequestId := requestId
    retryAfterSeconds := if retryable then retryAfterSeconds reader retryAfter else none }

/-! ## Events -/

/-- `_decode_stream_payload`. -/
def decodeStreamPayload (reader : Reader Usage) (data : Str) : Except (Raised Usage) (List (Str × Json)) :=
  match reader.loads data with
  | .ok (.obj payload) => .ok payload
  | .ok _ | .error .value => .error malformedStream
  | .error raised => .error raised

/-- `_finish_reason` of a list of choices. -/
def choicesFinishReason : List Json → Option Str
  | [] => none
  | .obj choice :: choices =>
    match safeString (Json.get? choice (str "finish_reason")) with
    | some reason => some reason
    | none => choicesFinishReason choices
  | _ :: choices => choicesFinishReason choices

/-- `_finish_reason`. -/
def finishReason (payload : List (Str × Json)) : Option Str :=
  match Json.get? payload (str "choices") with
  | some (.arr choices) => choicesFinishReason choices
  | _ => none

/-- The content of one choice, if it has any. -/
def choiceDelta : Json → Except (Raised Usage) (Option Str)
  | .obj choice =>
    match Json.get? choice (str "delta") with
    | none | some .null => .ok none
    | some (.obj delta) =>
      match Json.get? delta (str "content") with
      | none | some .null => .ok none
      | some (.str content) => .ok (if content.isEmpty then none else some content)
      | some _ => .error malformedStream
    | some _ => .error malformedStream
  | _ => .error malformedStream

def choicesDeltas : List Json → Except (Raised Usage) (List Str)
  | [] => .ok []
  | choice :: choices => do
    let content ← choiceDelta choice
    let contents ← choicesDeltas choices
    return content.toList ++ contents

/-- `_content_deltas`. -/
def contentDeltas (payload : List (Str × Json)) : Except (Raised Usage) (List Str) :=
  match Json.get? payload (str "choices") with
  | none | some .null => .ok []
  | some (.arr choices) => choicesDeltas choices
  | some _ => .error malformedStream

/-! ## The stream -/

/-- How a part of the stream ends. -/
inductive Flow (Usage : Type) where
  | goOn
  | stop
  | raised (raised : Raised Usage)

/-- The innermost loop: the contents of one event. -/
def passDeltas (served : Served Usage) (a : Attempt Usage) : List Str → Attempt Usage × Flow Usage
  | [] => (a, .goOn)
  | content :: contents =>
    let split := splitTrailingSurrogate (a.heldSurrogate ++ content)
    let a := { a with heldSurrogate := split.2 }
    match joinedSurrogates split.1 with
    | none => (a, .raised malformedStream)
    | some [] => passDeltas served a contents
    | some delta =>
      let a := { a with parts := a.parts ++ [delta], emitted := true, passed := a.passed ++ [delta] }
      match served.onDelta a.passed with
      | some raised => (a, .raised raised)
      | none => passDeltas served a contents

/-- What an event says about its call, and what `on_ids` raises. -/
def noteIds (reader : Reader Usage) (served : Served Usage) (a : Attempt Usage) (payload : List (Str × Json)) :
    Attempt Usage × Option (Raised Usage) :=
  let firstGenerationId := a.generationId.isNone
  let a := { a with generationId := orText (safeString (Json.get? payload (str "id"))) a.generationId }
  match if firstGenerationId then a.generationId.bind (served.onIds a.requestId) else none with
  | some raised => (a, some raised)
  | none =>
    ({ a with
        providerName := orText (safeString (Json.get? payload (str "provider"))) a.providerName
        usage := (reader.parseUsage (Json.get? payload (str "usage"))).or a.usage }, none)

/-- The `error` of an event. -/
def payloadError (payload : List (Str × Json)) : Option Json :=
  match Json.get? payload (str "error") with
  | none | some .null => none
  | some error => some error

/-- The payload of one event. -/
def handlePayload (reader : Reader Usage) (served : Served Usage) (a : Attempt Usage) (payload : List (Str × Json)) :
    Attempt Usage × Flow Usage :=
  match noteIds reader served a payload with
  | (a, some raised) => (a, .raised raised)
  | (a, none) =>
    match payloadError payload with
    | some error =>
      match isTransientCode reader (errorCode error) with
      | .error raised => (a, .raised raised)
      | .ok transient => (a, .raised (a.failure (if transient then "provider_transient" else "provider_rejected") transient))
    | none =>
      let a := { a with finishReason := orText (finishReason payload) a.finishReason }
      match contentDeltas payload with
      | .error raised => (a, .raised raised)
      | .ok contents => passDeltas served a contents

/-- The data of a line, if it has any. -/
def lineData? (line : Str) : Option Str := (afterPrefix? (str "data:") line).map fun data => data.dropWhile isSpace

def doneData : Str := str "[DONE]"

/-- One line of the stream. -/
def handleLine (reader : Reader Usage) (served : Served Usage) (a : Attempt Usage) (line : Str) : Attempt Usage × Flow Usage :=
  match lineData? line with
  | none => (a, .goOn)
  | some data =>
    if data = doneData then ({ a with done := true }, .stop)
    else
      match decodeStreamPayload reader data with
      | .error raised => (a, .raised raised)
      | .ok payload => handlePayload reader served a payload

/-- The lines of the stream, and what breaks it off after them. -/
def handleLines (reader : Reader Usage) (served : Served Usage) (broken : Option (Raised Usage)) (a : Attempt Usage) :
    List Str → Attempt Usage × Option (Raised Usage)
  | [] => (a, broken)
  | line :: lines =>
    match handleLine reader served a line with
    | (a, .goOn) => handleLines reader served broken a lines
    | (a, .stop) => (a, none)
    | (a, .raised raised) => (a, some raised)

/-- The lines of a response. -/
def Response.lines (response : Response Usage) : List Str := sseLines [] response.broken.isNone response.chunks

/-- Inside the two contexts. -/
def readResponse (reader : Reader Usage) (served : Served Usage) (response : Response Usage) :
    Attempt Usage × Option (Raised Usage) :=
  let requestId := response.requestId.filter fun text => !text.isEmpty
  let a := { Attempt.fresh with requestId }
  if response.statusCode < 200 ∨ 300 ≤ response.statusCode then
    (a, some (.provider (httpError reader response.statusCode requestId response.retryAfter)))
  else handleLines reader served response.broken a response.lines

/-- The contexts with what happens inside them; what closing raises replaces what was raised before. -/
def openAndRead (reader : Reader Usage) (served : Served Usage) : Attempt Usage × Option (Raised Usage) :=
  match served.opened with
  | .error raised => (.fresh, some raised)
  | .ok response =>
    let (a, raised) := readResponse reader served response
    (a, served.closing.or raised)

/-- The `except` clauses. -/
def Attempt.caught (a : Attempt Usage) : Raised Usage → Raised Usage
  | .provider error => .provider (error.inAttempt a)
  | .timeout => a.failure "provider_timeout" false
  | .configuration => a.failure "provider_misconfigured" false
  | .request => a.failure "provider_network" true
  | .value => .value
  | .other => .other

/-- The checks after the stream. -/
def Attempt.complete (a : Attempt Usage) : Except (Raised Usage) (ProviderCompletion Usage) :=
  if a.finishReason = some (str "length") then .error (a.failure "provider_output_limit" false)
  else if a.finishReason = some (str "content_filter") then .error (a.failure "provider_content_filter" false)
  else if !a.done then .error (a.failure "provider_incomplete_stream" true)
  else if !a.heldSurrogate.isEmpty then .error (a.failure "provider_malformed_stream" false)
  else
    .ok {
      text := a.parts.flatten
      providerRequestId := a.requestId
      providerGenerationId := a.generationId
      providerName := a.providerName
      usage := a.usage }

/-- `_stream_once`. -/
def streamOnce (reader : Reader Usage) (served : Served Usage) :
    Attempt Usage × Except (Raised Usage) (ProviderCompletion Usage) :=
  match openAndRead reader served with
  | (a, some raised) => (a, .error (a.caught raised))
  | (a, none) => (a, a.complete)

end

end Oveo.Provider
