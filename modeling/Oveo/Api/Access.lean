import Oveo.Store.Accounts

/-! # Who may reach a record

Every endpoint that names a conversation or a generation first finds the session, then the CSRF
token, then checks its parameters, and then looks the record up for its owner.  What it does with
a record of the requester's own is a parameter here. -/

namespace Oveo.Api

open Oveo.Lib Oveo.Store

/-! ## Requests -/

/-- A JSON body with one text field. -/
inductive JsonBody where
  /-- It is no JSON. -/
  | malformed
  /-- The field is missing or no text. -/
  | invalid
  | text (value : Str)
deriving DecidableEq, Repr

/-- `Field(min_length=1, max_length=maximum)`. -/
def JsonBody.isValid (maximum : Nat) : JsonBody → Bool
  | .text value => 1 ≤ value.length && value.length ≤ maximum
  | .malformed | .invalid => false

inductive Endpoint where
  /-- `after_ordinal` is `some none` when it is no integer. -/
  | threadDetail (threadId : Id) (afterOrdinal : Option (Option Int))
  | submitMessage (threadId : Id)
  | renameThread (threadId : Id) (body : JsonBody)
  | deleteThread (threadId : Id)
  | downloadDocument (threadId : Id)
  | promptHandoff (threadId : Id) (body : JsonBody)
  | generationSnapshot (generationId : Id)
  | generationEvents (generationId : Id)
  | stopGeneration (generationId : Id)
  | retryGeneration (generationId : Id) (body : JsonBody)
deriving DecidableEq, Repr

/-- The record a path names. -/
inductive RecordId where
  | thread (id : Id)
  | generation (id : Id)
deriving DecidableEq, Repr

def Endpoint.record : Endpoint → RecordId
  | .threadDetail id _ | .submitMessage id | .renameThread id _ | .deleteThread id | .downloadDocument id
  | .promptHandoff id _ => .thread id
  | .generationSnapshot id | .generationEvents id | .stopGeneration id | .retryGeneration id _ => .generation id

/-- Does it depend on `CsrfPrincipal`? -/
def Endpoint.checksCsrf : Endpoint → Bool
  | .threadDetail .. | .downloadDocument _ | .generationSnapshot _ | .generationEvents _ => false
  | .submitMessage _ | .renameThread .. | .deleteThread _ | .promptHandoff .. | .stopGeneration _
  | .retryGeneration .. => true

def Endpoint.body? : Endpoint → Option JsonBody
  | .renameThread _ body | .promptHandoff _ body | .retryGeneration _ body => some body
  | _ => none

/-- The checks of the declared parameters, `RenameBody` and `RetryBody`. -/
def Endpoint.isValid : Endpoint → Bool
  | .threadDetail _ none => true
  | .threadDetail _ (some afterOrdinal) => afterOrdinal.any fun ordinal => 0 ≤ ordinal
  | .renameThread _ body => body.isValid 160
  | .promptHandoff _ body | .retryGeneration _ body => body.isValid 100
  | _ => true

structure Request where
  /-- The session cookie. -/
  token : Option Str
  origin : Option Str
  csrfCookie : Option Str
  csrfHeader : Option Str
  endpoint : Endpoint
deriving DecidableEq, Repr

structure ApiError where
  statusCode : Nat
  code : String
  message : String
deriving DecidableEq, Repr

inductive Response (Payload : Type) where
  | error (error : ApiError)
  | payload (payload : Payload)
deriving DecidableEq, Repr

structure ApiState where
  accounts : Accounts
  db : Db

structure SessionPrincipal where
  session : Session
  user : User

def authenticationRequired : ApiError := ⟨401, "authentication_required", "Sign in to continue."⟩

def csrfFailed : ApiError := ⟨403, "csrf_failed", "The request could not be verified."⟩

def invalidRequest : ApiError := ⟨422, "invalid_request", "The request is invalid."⟩

def threadNotFound : ApiError := ⟨404, "thread_not_found", "Conversation not found."⟩

def generationNotFound : ApiError := ⟨404, "generation_not_found", "Generation not found."⟩

/-! ## Checks -/

section

variable (hashToken : Str → List UInt8) (publicOrigin : Str)

/-- `get_session_principal`, which deletes a session that is over. -/
def getSessionPrincipal (accounts : Accounts) (token : Option Str) (now : Nat) : Accounts × Option SessionPrincipal :=
  match token with
  | none | some [] => (accounts, none)
  | some token =>
    match accounts.sessionOf? (hashToken token) with
    | none => (accounts, none)
    | some session =>
      if session.expiresAt ≤ now then (accounts.deleteSession session.id, none)
      else
        match accounts.user? session.userId with
        | none => (accounts, none)
        | some user =>
          if session.credentialVersion ≠ user.credentialVersion then (accounts.deleteSession session.id, none)
          else (accounts, some { session, user })

/-- `validate_csrf`. -/
def validateCsrf (session : Session) (cookieToken headerToken : Option Str) : Bool :=
  match cookieToken, headerToken with
  | some (c :: cookie), some header => c :: cookie == header && session.csrfTokenHash == hashToken header
  | _, _ => false

/-- `origin.rstrip("/")`. -/
def rstripSlash (origin : Str) : Str := (origin.reverse.dropWhile fun c => c == codePoint '/').reverse

/-- `csrf_principal`. -/
def passesCsrf (session : Session) (request : Request) : Bool :=
  request.origin.all (fun origin => rstripSlash origin == publicOrigin) &&
    validateCsrf hashToken session request.csrfCookie request.csrfHeader

/-- `_require_thread`. -/
def requireThread (account : Id) (thread : Option Thread) : Except ApiError Unit :=
  match thread with
  | some thread => if thread.ownerId = account then .ok () else .error threadNotFound
  | none => .error threadNotFound

/-- `_require_generation`. -/
def requireGeneration (db : Db) (account : Id) (generationId : Id) : Except ApiError Unit :=
  match db.generation? generationId with
  | none => .error generationNotFound
  | some generation =>
    match generation.threadId with
    | some threadId => requireThread account (db.thread? threadId)
    | none => if generation.requesterId = account then .ok () else .error generationNotFound

def requireRecord (db : Db) (account : Id) : RecordId → Except ApiError Unit
  | .thread id => requireThread account (db.thread? id)
  | .generation id => requireGeneration db account id

/-- Is the request let through to the lookup of its record? -/
def Request.isAdmitted (request : Request) (session : Session) : Bool :=
  request.endpoint.body? != some .malformed &&
    (!request.endpoint.checksCsrf || passesCsrf hashToken publicOrigin session request) && request.endpoint.isValid

/-- What an endpoint answers, and the state it leaves.  `served` is what it does with a record of
the requester's own. -/
def handle {Payload : Type} (served : Endpoint → SessionPrincipal → ApiState → ApiState × Response Payload)
    (s : ApiState) (request : Request) (now : Nat) : ApiState × Response Payload :=
  if request.endpoint.body? = some .malformed then (s, .error invalidRequest)
  else
    match getSessionPrincipal hashToken s.accounts request.token now with
    | (accounts, none) => ({ s with accounts }, .error authenticationRequired)
    | (accounts, some principal) =>
      let s := { s with accounts }
      if request.endpoint.checksCsrf ∧ ¬ passesCsrf hashToken publicOrigin principal.session request then
        (s, .error csrfFailed)
      else if ¬ request.endpoint.isValid then (s, .error invalidRequest)
      else
        match requireRecord s.db principal.user.id request.endpoint.record with
        | .ok () => served request.endpoint principal s
        | .error error => (s, .error error)

end

end Oveo.Api
