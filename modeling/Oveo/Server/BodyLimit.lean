import Oveo.Lib.Text

/-! # The body limit

`middleware.py`, `RequestBodyLimit`: a declared size is refused before anything is read, and a body
without one is counted while the application reads it.  The application here is any program that
chooses, from what it has received, whether to receive more or to answer. -/

namespace Oveo.Server

open Oveo.Lib

abbrev Octets := List UInt8

def octets (s : String) : Octets := s.toList.map fun c => c.toNat.toUInt8

/-! ## int() of a header -/

/-- `Py_ISSPACE`. -/
def isByteSpace (byte : UInt8) : Bool := byte == 32 || (9 ≤ byte && byte ≤ 13)

def isDigit (byte : UInt8) : Bool := 48 ≤ byte && byte ≤ 57

def underscore : UInt8 := 95

/-- The digits up to the first byte that is none; an underscore stands between two digits. -/
def scanDigits : Bool → Octets → Option (List Nat × Octets)
  | afterUnderscore, [] => if afterUnderscore then none else some ([], [])
  | afterUnderscore, byte :: rest =>
    if isDigit byte then (scanDigits false rest).map fun (digits, rest) => ((byte.toNat - 48) :: digits, rest)
    else if byte = underscore then if afterUnderscore then none else scanDigits true rest
    else if afterUnderscore then none
    else some ([], byte :: rest)

/-- `sys.int_info.default_max_str_digits`. -/
def maxStrDigits : Nat := 4300

def digitsOf (negative : Bool) (text : Octets) : Option Int :=
  if text.head? = some underscore then none
  else
    match scanDigits false text with
    | some (digits, rest) =>
      if digits.isEmpty || maxStrDigits < digits.length || !rest.all isByteSpace then none
      else
        let value : Int := digits.foldl (fun value digit => 10 * value + digit) 0
        some (if negative then -value else value)
    | none => none

/-- `int(value)` for bytes; `none` is a `ValueError`. -/
def intOfBytes (text : Octets) : Option Int :=
  match text.dropWhile isByteSpace with
  | 43 :: rest => digitsOf false rest
  | 45 :: rest => digitsOf true rest
  | rest => digitsOf false rest

/-! ## The request -/

structure Scope where
  /-- `scope["type"] == "http"`. -/
  isHttp : Bool
  method : Str
  path : Str
  headers : List (Octets × Octets)

inductive Message where
  /-- `http.request`. -/
  | request (body : Octets) (moreBody : Bool)
  | disconnect
deriving DecidableEq, Repr

structure HttpError where
  status : Nat
  code : Str
  message : Str
deriving DecidableEq, Repr

/-- What `receive` gives the application: a message, or `BodyTooLarge`. -/
inductive Receipt where
  | message (message : Message)
  | tooLarge (refusal : HttpError)
deriving DecidableEq, Repr

inductive Reply (Page : Type) where
  | error (error : HttpError)
  | page (page : Page)
deriving DecidableEq, Repr

inductive Turn (Page : Type) where
  | receive
  | respond (reply : Reply Page)

abbrev App (Page : Type) := List Receipt → Turn Page

structure LimitSettings where
  maxUploadBytes : Nat
  /-- What `upload_limit_message(max_upload_bytes)` says. -/
  uploadLimitMessage : Str

/-- `SMALL_BODY_LIMIT`. -/
def smallBodyLimit : Nat := 16 * 1024

/-- `UPLOAD_OVERHEAD`. -/
def uploadOverhead : Nat := 256 * 1024

def LimitSettings.uploadLimit (settings : LimitSettings) : Nat := settings.maxUploadBytes + uploadOverhead

/-- `POST` to `/api/threads(?:/[^/]+/messages)?`. -/
def Scope.isUpload (scope : Scope) : Bool :=
  scope.method == str "POST" &&
    match scope.path.splitOn (codePoint '/') with
    | [root, api, threads] => root.isEmpty && api == str "api" && threads == str "threads"
    | [root, api, threads, id, messages] =>
      root.isEmpty && api == str "api" && threads == str "threads" && !id.isEmpty && messages == str "messages"
    | _ => false

section

variable {Page : Type} (settings : LimitSettings) (scope : Scope)

/-- `_refusal`, with the status both refusals have. -/
def refusal : HttpError :=
  if scope.isUpload then ⟨413, str "attachment_too_large", settings.uploadLimitMessage⟩
  else ⟨413, str "request_too_large", str "The request is too large."⟩

def invalidLength : HttpError := ⟨400, str "invalid_request", str "The request is invalid."⟩

def bodyLimit : Nat := if scope.isUpload then settings.uploadLimit else smallBodyLimit

/-- `limited_receive`, for the message that arrives next. -/
def limitedReceive (received : Nat) : Message → Receipt × Nat
  | .request body moreBody =>
    if bodyLimit settings scope < received + body.length then (.tooLarge (refusal settings scope), received + body.length)
    else (.message (.request body moreBody), received + body.length)
  | .disconnect => (.message .disconnect, received)

/-- The application runs on `receive` itself; no answer means that it waits. -/
def runApp (app : App Page) : List Message → List Receipt → Option (Reply Page)
  | [], history =>
    match app history with
    | .respond reply => some reply
    | .receive => none
  | message :: messages, history =>
    match app history with
    | .respond reply => some reply
    | .receive => runApp app messages (history ++ [.message message])

/-- The application runs on `limited_receive`. -/
def runLimited (app : App Page) : List Message → Nat → List Receipt → Option (Reply Page)
  | [], _, history =>
    match app history with
    | .respond reply => some reply
    | .receive => none
  | message :: messages, received, history =>
    match app history with
    | .respond reply => some reply
    | .receive =>
      runLimited app messages (limitedReceive settings scope received message).2
        (history ++ [(limitedReceive settings scope received message).1])

/-- What the headers declare: nothing, one length, or nonsense. -/
inductive Declared where
  | nothing
  | length (length : Nat)
  | invalid
deriving DecidableEq, Repr

def declaredLengths : List Octets := (scope.headers.filter fun header => header.1 == octets "content-length").map Prod.snd

def declared : Declared :=
  match declaredLengths scope with
  | [] => .nothing
  | first :: rest =>
    match intOfBytes first, rest.all fun value => intOfBytes value == intOfBytes first with
    | some (.ofNat length), true => .length length
    | _, _ => .invalid

/-- `__call__`. -/
def serve (app : App Page) (messages : List Message) : Option (Reply Page) :=
  if scope.isHttp then
    match declared scope with
    | .invalid => some (.error invalidLength)
    | .length length =>
      if bodyLimit settings scope < length then some (.error (refusal settings scope)) else runLimited settings scope app messages 0 []
    | .nothing => runLimited settings scope app messages 0 []
  else runApp app messages []

end

/-! ## What the application sees -/

def Message.size : Message → Nat
  | .request body _ => body.length
  | .disconnect => 0

/-- What of the body the application has. -/
def Receipt.size : Receipt → Nat
  | .message delivered => delivered.size
  | .tooLarge _ => 0

def seen (history : List Receipt) : Nat := (history.map Receipt.size).sum

def sent (messages : List Message) : Nat := (messages.map Message.size).sum

section

variable {Page : Type} {settings : LimitSettings} {scope : Scope} {app other : App Page} {messages : List Message} {history : List Receipt}
  {received : Nat} {reply : Reply Page}

theorem seen_append (receipt : Receipt) : seen (history ++ [receipt]) = seen history + receipt.size := by
  simp [seen]

theorem runLimited_of_respond (responds : app history = .respond reply) :
    runLimited settings scope app messages received history = some reply := by
  cases messages <;> simp [runLimited, responds]

theorem runApp_of_respond (responds : app history = .respond reply) : runApp app messages history = some reply := by
  cases messages <;> simp [runApp, responds]

/-- Either the message passes and what has been received is within the limit, or it does not and adds nothing. -/
theorem limitedReceive_spec (received : Nat) (message : Message) :
    (limitedReceive settings scope received message).2 = received + message.size ∧
      ((limitedReceive settings scope received message).1 = .message message ∧
          (message.size = 0 ∨ received + message.size ≤ bodyLimit settings scope) ∨
        (limitedReceive settings scope received message).1 = .tooLarge (refusal settings scope) ∧
          bodyLimit settings scope < received + message.size) := by
  cases message with
  | disconnect => exact ⟨rfl, .inl ⟨rfl, .inl rfl⟩⟩
  | request body moreBody =>
    rw [limitedReceive]
    split
    next exceeds => exact ⟨rfl, .inr ⟨rfl, exceeds⟩⟩
    next within => exact ⟨rfl, .inl ⟨rfl, .inr (Nat.not_lt.mp within)⟩⟩

/-- Applications that agree as long as they have no more than the limit cannot be told apart. -/
theorem runLimited_congr (agree : ∀ history, seen history ≤ bodyLimit settings scope → app history = other history)
    (bounded : seen history ≤ bodyLimit settings scope) (counted : seen history ≤ received) :
    runLimited settings scope app messages received history = runLimited settings scope other messages received history := by
  induction messages generalizing received history with
  | nil => simp only [runLimited, agree history bounded]
  | cons message messages inductionHypothesis =>
    simp only [runLimited, agree history bounded]
    obtain ⟨count, ⟨passes, within⟩ | ⟨stopped, -⟩⟩ := @limitedReceive_spec settings scope received message
    · cases other history with
      | respond reply => rfl
      | receive =>
        apply inductionHypothesis
        · rw [passes, seen_append, Receipt.size]
          omega
        · rw [passes, count, seen_append, Receipt.size]
          omega
    · cases other history with
      | respond reply => rfl
      | receive =>
        apply inductionHypothesis
        · rw [stopped, seen_append, Receipt.size]
          omega
        · rw [stopped, count, seen_append, Receipt.size]
          omega

/-- A body within the limit passes as it is. -/
theorem runLimited_eq_runApp (small : received + sent messages ≤ bodyLimit settings scope) :
    runLimited settings scope app messages received history = runApp app messages history := by
  induction messages generalizing received history with
  | nil => rfl
  | cons message messages inductionHypothesis =>
    simp only [sent, List.map_cons, List.sum_cons] at small
    obtain ⟨count, ⟨passes, -⟩ | ⟨-, exceeds⟩⟩ := @limitedReceive_spec settings scope received message
    · simp only [runLimited, runApp]
      cases app history with
      | respond reply => rfl
      | receive =>
        rw [passes, count]
        apply inductionHypothesis
        show received + message.size + (messages.map Message.size).sum ≤ _
        omega
    · omega

/-- Whatever the application is and whatever arrives, it is never given more of a body than the limit, so what it does
with more does not matter; and a request within the limit is served as if there were none. -/
theorem app_sees_at_most_limit (isHttp : scope.isHttp = true) :
    ((∀ history, seen history ≤ bodyLimit settings scope → app history = other history) →
      serve settings scope app messages = serve settings scope other messages) ∧
    (declared scope = .nothing ∨ (∃ length ≤ bodyLimit settings scope, declared scope = .length length) →
      sent messages ≤ bodyLimit settings scope → serve settings scope app messages = runApp app messages []) := by
  constructor
  · intro agree
    have same := @runLimited_congr Page settings scope app other messages [] 0 agree (Nat.zero_le _) (Nat.le_refl _)
    simp only [serve, isHttp, if_true, same]
  · intro announced small
    have same := @runLimited_eq_runApp Page settings scope app messages [] 0 (by omega)
    obtain nothing | ⟨length, within, isLength⟩ := announced
    · simp only [serve, isHttp, if_true, nothing, same]
    · simp only [serve, isHttp, if_true, isLength, if_neg (Nat.not_lt.mpr within), same]

end

/-! ## A route that reads the body -/

section

variable {Page : Type} (handler : Octets → Reply Page) (gone : Reply Page)

/-- Starlette's `stream`, then the route; `http_error_handler` answers with the refusal. -/
def readBody : Octets → List Receipt → Turn Page
  | _, [] => .receive
  | body, .message (.request part moreBody) :: rest => if moreBody then readBody (body ++ part) rest else .respond (handler (body ++ part))
  | _, .message .disconnect :: _ => .respond gone
  | _, .tooLarge refusal :: _ => .respond (.error refusal)

/-- How a server hands over a body that arrives in these parts. -/
def messagesOf : List Octets → List Message
  | [] => [.request [] false]
  | [part] => [.request part false]
  | part :: parts => .request part true :: messagesOf parts

/-- What a route that still reads has received. -/
def partsRead (parts : List Octets) : List Receipt := parts.map fun part => .message (.request part true)

variable {handler gone} {settings : LimitSettings} {scope : Scope} {parts : List Octets}

theorem readBody_append (body : Octets) (parts : List Octets) (rest : List Receipt) :
    readBody handler gone body (partsRead parts ++ rest) = readBody handler gone (body ++ parts.flatten) rest := by
  induction parts generalizing body with
  | nil => simp [partsRead]
  | cons part parts inductionHypothesis =>
    have further := inductionHypothesis (body ++ part)
    simpa [partsRead, readBody] using further

theorem readBody_parts (parts : List Octets) : readBody handler gone [] (partsRead parts) = .receive := by
  have waits := @readBody_append Page handler gone [] parts []
  simpa [readBody] using waits

/-- The last part, or one that passes the limit. -/
theorem runLimited_last (read : List Octets) (part : Octets) (moreBody : Bool) (messages : List Message)
    (ends : moreBody = false ∨ bodyLimit settings scope < read.flatten.length + part.length) :
    runLimited settings scope (readBody handler gone []) (.request part moreBody :: messages) read.flatten.length (partsRead read) =
      some (if read.flatten.length + part.length ≤ bodyLimit settings scope then handler (read.flatten ++ part)
        else .error (refusal settings scope)) := by
  simp only [runLimited, readBody_parts, limitedReceive]
  by_cases exceeds : bodyLimit settings scope < read.flatten.length + part.length
  · rw [if_pos exceeds, if_neg (Nat.not_le.mpr exceeds)]
    apply runLimited_of_respond
    rw [readBody_append]
    rfl
  · rw [if_neg exceeds, if_pos (Nat.not_lt.mp exceeds)]
    apply runLimited_of_respond
    obtain isLast | tooMuch := ends
    · rw [readBody_append, isLast]
      rfl
    · exact absurd tooMuch exceeds

theorem runLimited_readBody (read : List Octets) (parts : List Octets) :
    runLimited settings scope (readBody handler gone []) (messagesOf parts) read.flatten.length (partsRead read) =
      some (if read.flatten.length + parts.flatten.length ≤ bodyLimit settings scope then handler (read.flatten ++ parts.flatten)
        else .error (refusal settings scope)) := by
  induction parts using messagesOf.induct generalizing read with
  | case1 => simpa [messagesOf] using @runLimited_last Page handler gone settings scope read [] false [] (.inl rfl)
  | case2 part => simpa [messagesOf] using @runLimited_last Page handler gone settings scope read part false [] (.inl rfl)
  | case3 part parts several inductionHypothesis =>
    have unfolds : messagesOf (part :: parts) = .request part true :: messagesOf parts := by
      cases parts with
      | nil => exact absurd rfl several
      | cons => rfl
    rw [unfolds]
    by_cases exceeds : bodyLimit settings scope < read.flatten.length + part.length
    · rw [runLimited_last read part true _ (.inr exceeds), if_neg (Nat.not_le.mpr exceeds), if_neg]
      simp only [List.flatten_cons, List.length_append]
      omega
    · have further := inductionHypothesis (read ++ [part])
      simp only [runLimited, readBody_parts, limitedReceive, if_neg exceeds]
      simpa [partsRead, Nat.add_assoc] using further

/-- A route that reads its body answers by the body's size alone: the same refusal whether the size is announced, in
whatever spelling and however often, or only found while counting, and however the body is cut into parts. -/
theorem body_refused_by_size (isHttp : scope.isHttp = true)
    (announced : ∀ value ∈ declaredLengths scope, intOfBytes value = some (parts.flatten.length : Int)) :
    serve settings scope (readBody handler gone []) (messagesOf parts) =
      some (if parts.flatten.length ≤ bodyLimit settings scope then handler parts.flatten else .error (refusal settings scope)) := by
  have counted := @runLimited_readBody Page handler gone settings scope [] parts
  simp only [List.flatten_nil, List.length_nil, Nat.zero_add, List.nil_append, partsRead, List.map_nil] at counted
  simp only [serve, isHttp, if_true]
  cases lengths : declaredLengths scope with
  | nil => simpa [declared, lengths] using counted
  | cons first rest =>
    rw [lengths, List.forall_mem_cons] at announced
    have isLength : declared scope = .length parts.flatten.length := by
      have same : (rest.all fun value => intOfBytes value == some (parts.flatten.length : Int)) = true :=
        List.all_eq_true.mpr fun value listed => by simp [announced.2 value listed]
      simp only [declared, lengths, announced.1, same]
    simp only [isLength]
    split
    next exceeds => rw [if_neg (Nat.not_le.mpr exceeds)]
    next => exact counted

end

/-- A title is sent in two parts; its length is announced twice, once in an odd spelling. -/
def renameRequest : Scope where
  isHttp := true
  method := str "PATCH"
  path := str "/api/threads/1"
  headers := [(octets "content-length", octets " +0_3 "), (octets "host", octets "h"), (octets "content-length", octets "3")]

def limits : LimitSettings := { maxUploadBytes := 25000000, uploadLimitMessage := str "25 MB" }

theorem app_sees_at_most_limit_rename :
    serve limits renameRequest (readBody (fun body => .page body.length) (.page 0) []) (messagesOf [[1], [2, 3]]) =
      runApp (readBody (fun body => .page body.length) (.page 0) []) (messagesOf [[1], [2, 3]]) [] :=
  (@app_sees_at_most_limit Nat limits renameRequest (readBody (fun body => .page body.length) (.page 0) [])
    (readBody (fun body => .page body.length) (.page 0) []) (messagesOf [[1], [2, 3]]) rfl).2 (.inr ⟨3, by decide, by decide⟩) (by decide)

theorem body_refused_by_size_rename :
    serve limits renameRequest (readBody (fun body => .page body.length) (.page 0) []) (messagesOf [[1], [2, 3]]) = some (.page 3) :=
  body_refused_by_size rfl (by decide)

end Oveo.Server
