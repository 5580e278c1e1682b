import Oveo.Api.Access
import Oveo.Lib.Grants
import Oveo.Lib.Traces
import Oveo.Login.Throttle

/-! # Sessions

`auth.py` over the tables of accounts and sessions, and what the service and `oveo-admin` do with it:
logins, requests, logouts and password resets, any number of them at the same time, and restarts of
the service.  A login and a reset read the account first, take their time over the password, and
write the account afterwards; what they write is one transaction. -/

namespace Oveo.Api

open Oveo.Lib Oveo.Store Oveo.Login

/-! ## The tables -/

/-- `select(User).where(User.username == username)`. -/
def userNamed? (accounts : Accounts) (username : Str) : Option User :=
  accounts.users.find? fun user => user.username == username

/-- `UPDATE users ... WHERE id = ...`. -/
def updateUser (accounts : Accounts) (id : Id) (change : User → User) : Accounts :=
  { accounts with users := accounts.users.map fun user => if user.id = id then change user else user }

/-- The random values a login draws: `new_id()` and two times `token_urlsafe(32)`. -/
structure Drawn where
  id : Id
  token : Str
  csrfToken : Str

structure IssuedSession where
  session : Session
  token : Str
  csrfToken : Str

/-- An account of `seed_configured_accounts`, with the id it gets if it is new. -/
structure ConfiguredAccount where
  id : Id
  username : Str
  passwordHash : Option Str

section

variable (hashToken : Str → List UInt8)

/-- `create_session`.  There is none if the tables refuse the row. -/
def createSession (accounts : Accounts) (user : User) (sessionDays now : Nat) (drawn : Drawn) : Option (Accounts × IssuedSession) :=
  let session : Session :=
    { id := drawn.id
      tokenHash := hashToken drawn.token
      csrfTokenHash := hashToken drawn.csrfToken
      userId := user.id
      credentialVersion := user.credentialVersion
      expiresAt := now + seconds (86400 * sessionDays) }
  -- The primary key, the unique token and the foreign key.
  if accounts.sessions.any fun row => row.id == session.id || row.tokenHash == session.tokenHash then none
  else if accounts.users.any fun row => row.id == session.userId then
    some ({ accounts with sessions := accounts.sessions ++ [session] }, { session, token := drawn.token, csrfToken := drawn.csrfToken })
  else none

/-- `session_is_active`. -/
def sessionIsActive (accounts : Accounts) (sessionId : Id) (now : Nat) : Bool :=
  (accounts.sessions.find? fun session => session.id == sessionId).any fun session =>
    now < session.expiresAt && (accounts.user? session.userId).any fun user => session.credentialVersion == user.credentialVersion

/-- `revoke_session`. -/
def revokeSession (accounts : Accounts) : Option Str → Accounts
  | none | some [] => accounts
  | some token => { accounts with sessions := accounts.sessions.filter fun session => session.tokenHash ≠ hashToken token }

/-- `revoke_user_sessions`. -/
def revokeUserSessions (accounts : Accounts) (userId : Id) : Accounts :=
  { accounts with sessions := accounts.sessions.filter fun session => session.userId ≠ userId }

/-- `change_password`, which writes the version after the one it has read. -/
def changePassword (accounts : Accounts) (user : User) (passwordHash : Str) : Accounts :=
  updateUser (revokeUserSessions accounts user.id) user.id fun row =>
    { row with passwordHash, credentialVersion := user.credentialVersion + 1 }

end

section

variable (isArgon2id : Str → Bool)

/-- One account of `seed_configured_accounts`.  The start fails if its hash is not valid, or if the table refuses the row. -/
def seedAccount (accounts : Accounts) (configured : ConfiguredAccount) : Option Accounts :=
  if configured.passwordHash.all isArgon2id then
    match userNamed? accounts configured.username, configured.passwordHash with
    | some _, _ | none, none => some accounts
    | none, some passwordHash =>
      if accounts.users.any fun row => row.id == configured.id then none
      else
        some { accounts with
          users := accounts.users ++ [{ id := configured.id
                                        username := configured.username
                                        passwordHash
                                        credentialVersion := 1
                                        counters := resetCounters }] }
  else none

/-- `seed_configured_accounts`. -/
def seedConfiguredAccounts (accounts : Accounts) (configured : List ConfiguredAccount) : Option Accounts :=
  configured.foldlM (seedAccount isArgon2id) accounts

end

/-! ## The service -/

/-- What is under way. -/
inductive Task where
  /-- The password is being checked against the account as it was read. -/
  | login (user : User) (password : Str) (currentTime : Nat)
  /-- A verified logout, whose session is not deleted yet. -/
  | logout (token : Option Str)
  /-- The new password is being hashed. -/
  | reset (user : User) (password : Str)
deriving DecidableEq, Repr

/-- Is it work of `oveo-admin`, which is a process of its own? -/
def Task.isReset : Task → Bool
  | .reset .. => true
  | .login .. | .logout _ => false

structure ServiceState where
  now : Nat
  accounts : Accounts
  tasks : Nat → Option Task

inductive ServiceAction where
  /-- Time passes. -/
  | tick (now : Nat)
  | start (configured : List ConfiguredAccount)
  /-- The service stops, and what it was doing ends. -/
  | stop
  | login (task : Nat) (username password : Str)
  /-- The password did not match. -/
  | refuse (task : Nat)
  /-- It did. -/
  | issue (task : Nat) (drawn : Drawn)
  /-- Any request that needs a session. -/
  | request (token : Option Str)
  | logout (task : Nat) (token origin csrfCookie csrfHeader : Option Str)
  | revoke (task : Nat)
  /-- `oveo-admin reset-password`. -/
  | reset (task : Nat) (username password : Str)
  | change (task : Nat) (salt : Str)
  /-- A task ends early. -/
  | drop (task : Nat)

/-- What the service is configured with, and the functions of libraries. -/
structure Service where
  settings : LoginSettings
  sessionDays : Nat
  publicOrigin : Str
  casefold : Str → Str
  hashToken : Str → List UInt8
  hashPassword : Str → Str → Str
  verifyPassword : Str → Str → Bool
  isArgon2id : Str → Bool

/-- What `csrf_principal` checks of a request with this session. -/
def isVerified (service : Service) (session : Session) (origin csrfCookie csrfHeader : Option Str) : Bool :=
  origin.all (fun origin => rstripSlash origin == service.publicOrigin) &&
    validateCsrf service.hashToken session csrfCookie csrfHeader

theorem passesCsrf_eq_isVerified (service : Service) (session : Session) (request : Request) :
    passesCsrf service.hashToken service.publicOrigin session request =
      isVerified service session request.origin request.csrfCookie request.csrfHeader := rfl

/-- `normalize_username`. -/
def normalizeUsername (service : Service) (username : Str) : Str := service.casefold (strip username)

/-- The account whose password `authenticate_user` checks: there is one of this name, and it is not locked. -/
def accountToCheck (service : Service) (accounts : Accounts) (username : Str) (now : Nat) : Option User :=
  (userNamed? accounts (normalizeUsername service username)).filter fun user => !isLocked user.counters now

/-- What `authenticate_user` writes after a check. -/
def recordCheck (service : Service) (accounts : Accounts) (user : User) (check : Check) : Accounts :=
  updateUser accounts user.id fun row => { row with counters := applyCheck service.settings user.counters check }

namespace ServiceState

def setTask (s : ServiceState) (task : Nat) (its : Option Task) : ServiceState :=
  { s with tasks := Function.update s.tasks task its }

end ServiceState

section

variable (service : Service)

/-- The end of `login`: the session, unless the tables refuse it; then nothing is committed. -/
def issueSession (s : ServiceState) (user : User) (currentTime : Nat) (drawn : Drawn) : Option (Accounts × IssuedSession) :=
  createSession service.hashToken (recordCheck service s.accounts user ⟨currentTime, true⟩) user service.sessionDays s.now drawn

def serviceStep (s : ServiceState) : ServiceAction → Option ServiceState
  | .tick now => if s.now ≤ now then some { s with now } else none
  | .start configured => do
    let accounts ← seedConfiguredAccounts service.isArgon2id s.accounts configured
    return { s with accounts }
  | .stop => some { s with tasks := fun task => (s.tasks task).filter Task.isReset }
  | .login task username password =>
    if s.tasks task = none then
      match accountToCheck service s.accounts username s.now with
      | some user => some (s.setTask task (some (.login user password s.now)))
      | none => some s
    else none
  | .refuse task =>
    match s.tasks task with
    | some (.login user password currentTime) =>
      if service.verifyPassword user.passwordHash password then none
      else some { s.setTask task none with accounts := recordCheck service s.accounts user ⟨currentTime, false⟩ }
    | _ => none
  | .issue task drawn =>
    match s.tasks task with
    | some (.login user password currentTime) =>
      if service.verifyPassword user.passwordHash password then
        match issueSession service s user currentTime drawn with
        | some (accounts, _) => some { s.setTask task none with accounts }
        | none => some (s.setTask task none)
      else none
    | _ => none
  | .request token => some { s with accounts := (getSessionPrincipal service.hashToken s.accounts token s.now).1 }
  | .logout task token origin csrfCookie csrfHeader =>
    if s.tasks task = none then
      match getSessionPrincipal service.hashToken s.accounts token s.now with
      | (accounts, some principal) =>
        if isVerified service principal.session origin csrfCookie csrfHeader then
          some { s.setTask task (some (.logout token)) with accounts }
        else some { s with accounts }
      | (accounts, none) => some { s with accounts }
    else none
  | .revoke task =>
    match s.tasks task with
    | some (.logout token) => some { s.setTask task none with accounts := revokeSession service.hashToken s.accounts token }
    | _ => none
  | .reset task username password =>
    -- `_read_password` refuses an empty password.
    if s.tasks task = none ∧ password ≠ [] then
      match userNamed? s.accounts (service.casefold username) with
      | some user => some (s.setTask task (some (.reset user password)))
      | none => some s
    else none
  | .change task salt =>
    match s.tasks task with
    | some (.reset user password) =>
      some { s.setTask task none with accounts := changePassword s.accounts user (service.hashPassword salt password) }
    | _ => none
  | .drop task => some (s.setTask task none)

def serviceMachine : Machine ServiceState ServiceAction where
  init s := s.accounts = { users := [], sessions := [] } ∧ s.tasks = fun _ => none
  step := serviceStep service

/-- No account is being reset when a reset of it begins. -/
def OneReset (s : ServiceState) : ServiceAction → Prop
  | .reset _ username _ =>
    ∀ task user password, s.tasks task = some (.reset user password) →
      ∀ named ∈ userNamed? s.accounts (service.casefold username), named.id ≠ user.id
  | _ => True

/-! ## What can be observed -/

/-- What a committed session says beside its account and its token. -/
structure SessionFacts where
  sessionId : Id
  csrfTokenHash : List UInt8
  expiresAt : Nat
deriving DecidableEq, Repr

abbrev SignIn := Grant Id (List UInt8) Str SessionFacts

abbrev SignInEvent := GrantEvent Id (List UInt8) Str SessionFacts

/-- Logins that read their account, sessions that were committed, sessions and passwords that are over. -/
def observe (s : ServiceState) : ServiceAction → List SignInEvent
  | .login task username password =>
    match accountToCheck service s.accounts username s.now with
    | some user => [.requested task user.id password]
    | none => []
  | .issue task drawn =>
    match s.tasks task with
    | some (.login user _ currentTime) =>
      match issueSession service s user currentTime drawn with
      | some (_, issued) =>
        [.issued task issued.session.tokenHash ⟨issued.session.id, issued.session.csrfTokenHash, issued.session.expiresAt⟩]
      | none => []
    | _ => []
  | .revoke task =>
    match s.tasks task with
    | some (.logout (some (c :: token))) => [.withdrawn (service.hashToken (c :: token))]
    | _ => []
  | .change task _ =>
    match s.tasks task with
    | some (.reset user _) => [.reset user.id]
    | _ => []
  | _ => []

end

end Oveo.Api
