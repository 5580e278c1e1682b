import Oveo.Api.Sessions
import Oveo.Lib.Keyed

/-! # Who is signed in

The history of a run says who is signed in: whoever logged in with a password that nobody has replaced
since the login read the account, and whose session was neither ended by a logout nor expires.  The
tables refine this: a session whose password was replaced while its login was under way gets into the
table after all, but with the old version of the account, and no check lets it pass. -/

namespace Oveo.Api

open Oveo.Lib Oveo.Store Oveo.Login

/-! ## What the functions do to the tables -/

/-- The version of an account and its password hash. -/
def credential? (accounts : Accounts) (id : Id) : Option (Nat × Str) :=
  (accounts.user? id).map fun user => (user.credentialVersion, user.passwordHash)

/-- The session has the version of its account. -/
def IsCurrent (accounts : Accounts) (session : Session) : Prop :=
  ∃ passwordHash, credential? accounts session.userId = some (session.credentialVersion, passwordHash)

/-- The row of a sign-in. -/
structure IsRow (signIn : SignIn) (session : Session) : Prop where
  id : session.id = signIn.info.sessionId
  tokenHash : session.tokenHash = signIn.key
  csrfTokenHash : session.csrfTokenHash = signIn.info.csrfTokenHash
  userId : session.userId = signIn.holder
  expiresAt : session.expiresAt = signIn.info.expiresAt

section

variable {service : Service} {accounts accounts' : Accounts} {id other : Id} {change : User → User} {token : Option Str} {now : Nat}
  {user : User} {passwordHash : Str} {session : Session} {principal : SessionPrincipal}

theorem user?_updateUser (keepsId : ∀ user, (change user).id = user.id) :
    (updateUser accounts id change).user? other = if other = id then (accounts.user? id).map change else accounts.user? other := by
  have sameIds : (fun user : User => (if user.id = id then change user else user).id == other) = fun user => user.id == other := by
    funext user
    split <;> simp [keepsId]
  rw [Accounts.user?, updateUser, List.find?_map]
  simp only [Function.comp_def, sameIds]
  by_cases same : other = id
  · subst same
    rw [if_pos rfl, Accounts.user?]
    cases found : accounts.users.find? fun user => user.id == other with
    | none => rfl
    | some user => simp [(by simpa using List.find?_some found : user.id = other)]
  · rw [if_neg same, Accounts.user?]
    cases found : accounts.users.find? fun user => user.id == other with
    | none => rfl
    | some user => simp [(by simpa using List.find?_some found : user.id = other), same]

theorem map_id_updateUser (keepsId : ∀ user, (change user).id = user.id) :
    (updateUser accounts id change).users.map User.id = accounts.users.map User.id := by
  rw [updateUser, List.map_map]
  apply List.map_congr_left
  intro user listed
  simp only [Function.comp_apply]
  split <;> simp [keepsId]

@[simp] theorem map_id_recordCheck {check : Check} :
    (recordCheck service accounts user check).users.map User.id = accounts.users.map User.id :=
  map_id_updateUser fun _ => rfl

@[simp] theorem map_id_changePassword : (changePassword accounts user passwordHash).users.map User.id = accounts.users.map User.id :=
  map_id_updateUser fun _ => rfl

/-- The counters are no credential. -/
@[simp] theorem credential?_recordCheck {check : Check} : credential? (recordCheck service accounts user check) id = credential? accounts id := by
  rw [credential?, recordCheck, user?_updateUser, credential?]
  · split
    next same =>
      subst same
      rw [Option.map_map]
      rfl
    next => rfl
  · exact fun row => rfl

@[simp] theorem sessions_recordCheck {check : Check} : (recordCheck service accounts user check).sessions = accounts.sessions := rfl

theorem credential?_changePassword : credential? (changePassword accounts user passwordHash) id =
    if id = user.id then (accounts.user? id).map fun _ => (user.credentialVersion + 1, passwordHash) else credential? accounts id := by
  rw [credential?, changePassword, user?_updateUser, credential?]
  · split
    next same =>
      subst same
      rw [Option.map_map]
      rfl
    next => rfl
  · exact fun row => rfl

@[simp] theorem sessions_changePassword : (changePassword accounts user passwordHash).sessions =
    accounts.sessions.filter fun session => session.userId ≠ user.id := rfl

@[simp] theorem user?_deleteSession : (accounts.deleteSession id).user? other = accounts.user? other := rfl

@[simp] theorem credential?_deleteSession : credential? (accounts.deleteSession id) other = credential? accounts other := rfl

@[simp] theorem credential?_revokeSession : credential? (revokeSession service.hashToken accounts token) id = credential? accounts id := by
  rw [credential?, revokeSession.eq_def]
  split <;> rfl

/-- Seeding adds accounts and leaves the others as they are. -/
theorem seedAccount_keeps {configured : ConfiguredAccount} (seeded : seedAccount service.isArgon2id accounts configured = some accounts') :
    accounts'.sessions = accounts.sessions ∧ ((accounts.users.map User.id).Nodup → (accounts'.users.map User.id).Nodup) ∧
      ∀ id user, accounts.user? id = some user → accounts'.user? id = some user := by
  rw [seedAccount] at seeded
  split at seeded
  next =>
    split at seeded
    next =>
      cases seeded
      exact ⟨rfl, fun distinct => distinct, fun id user found => found⟩
    next =>
      cases seeded
      exact ⟨rfl, fun distinct => distinct, fun id user found => found⟩
    next =>
      split at seeded
      next => cases seeded
      next fresh =>
        cases seeded
        refine ⟨rfl, fun distinct => nodup_append_key distinct ?_, fun id user found => ?_⟩
        · simpa using fresh
        rw [Accounts.user?, List.find?_append]
        rw [Accounts.user?] at found
        rw [found]
        rfl
  next => cases seeded

theorem seedConfiguredAccounts_keeps {configured : List ConfiguredAccount}
    (seeded : seedConfiguredAccounts service.isArgon2id accounts configured = some accounts') :
    accounts'.sessions = accounts.sessions ∧ ((accounts.users.map User.id).Nodup → (accounts'.users.map User.id).Nodup) ∧
      ∀ id user, accounts.user? id = some user → accounts'.user? id = some user := by
  induction configured generalizing accounts with
  | nil =>
    cases seeded
    exact ⟨rfl, fun distinct => distinct, fun id user found => found⟩
  | cons first configured inductionHypothesis =>
    rw [seedConfiguredAccounts, List.foldlM_cons] at seeded
    obtain ⟨between, isBetween, rest⟩ := Option.bind_eq_some_iff.mp seeded
    obtain ⟨sameSessions, distinct, kept⟩ := seedAccount_keeps isBetween
    obtain ⟨alsoSessions, alsoDistinct, alsoKept⟩ := inductionHypothesis rest
    exact ⟨alsoSessions.trans sameSessions, fun before => alsoDistinct (distinct before),
      fun id user found => alsoKept id user (kept id user found)⟩

/-- Which session `get_session_principal` accepts. -/
theorem getSessionPrincipal_eq_some : (getSessionPrincipal service.hashToken accounts token now).2 = some principal ↔
    ∃ text, token = some text ∧ text ≠ [] ∧ accounts.sessionOf? (service.hashToken text) = some principal.session ∧
      now < principal.session.expiresAt ∧ accounts.user? principal.session.userId = some principal.user ∧
      principal.session.credentialVersion = principal.user.credentialVersion := by
  obtain ⟨session, user⟩ := principal
  rw [getSessionPrincipal.eq_def]
  cases token with
  | none => simp
  | some text =>
    cases text with
    | nil => simp
    | cons c text =>
      simp only [Option.some.injEq, ne_eq, exists_eq_left', reduceCtorEq, not_false_eq_true, true_and]
      split
      next missing => simp [missing]
      next found isFound =>
        simp only [isFound, Option.some.injEq]
        split
        next expired =>
          simp only [reduceCtorEq, false_iff, not_and]
          intro same unexpired
          subst same
          omega
        next unexpired =>
          split
          next noUser =>
            simp only [reduceCtorEq, false_iff, not_and]
            intro same _ isUser
            rw [← same, noUser] at isUser
            cases isUser
          next owner isOwner =>
            split
            next stale =>
              simp only [reduceCtorEq, false_iff, not_and]
              intro same _ isUser
              subst same
              rw [isOwner] at isUser
              cases isUser
              exact stale
            next current =>
              simp only [Option.some.injEq, SessionPrincipal.mk.injEq]
              constructor
              · intro both
                obtain ⟨rfl, rfl⟩ := both
                exact ⟨rfl, by omega, isOwner, by simpa using current⟩
              · intro all
                obtain ⟨rfl, -, isUser, -⟩ := all
                exact ⟨rfl, Option.some.inj (isOwner.symm.trans isUser)⟩

/-- What it does to the tables: at most it deletes a session that is over. -/
theorem getSessionPrincipal_accounts : (getSessionPrincipal service.hashToken accounts token now).1 = accounts ∨
    ∃ session ∈ accounts.sessions, (session.expiresAt ≤ now ∨ ¬ IsCurrent accounts session) ∧
      (getSessionPrincipal service.hashToken accounts token now).1 = accounts.deleteSession session.id := by
  rw [getSessionPrincipal.eq_def]
  split
  · exact .inl rfl
  · exact .inl rfl
  next text =>
    split
    · exact .inl rfl
    next session found =>
      have listed := List.mem_of_find?_eq_some found
      split
      next expired => exact .inr ⟨session, listed, .inl expired, rfl⟩
      next =>
        split
        · exact .inl rfl
        next user isUser =>
          split
          next stale =>
            refine .inr ⟨session, listed, .inr fun current => ?_, rfl⟩
            obtain ⟨passwordHash, isCredential⟩ := current
            rw [credential?, isUser, Option.map_some, Option.some.injEq, Prod.mk.injEq] at isCredential
            exact stale isCredential.1.symm
          next => exact .inl rfl

/-- The session `create_session` adds. -/
theorem createSession_eq_some {drawn : Drawn} {issued : IssuedSession} {sessionDays : Nat}
    (created : createSession service.hashToken accounts user sessionDays now drawn = some (accounts', issued)) :
    accounts' = { accounts with sessions := accounts.sessions ++ [issued.session] } ∧ issued.session.userId = user.id ∧
      issued.session.credentialVersion = user.credentialVersion ∧ issued.session.id ∉ accounts.sessions.map Session.id ∧
      issued.session.tokenHash ∉ accounts.sessions.map Session.tokenHash := by
  rw [createSession] at created
  split at created
  next => cases created
  next fresh =>
    split at created
    next =>
      cases created
      simp only [List.any_eq_true, Bool.or_eq_true, beq_iff_eq, not_exists, not_and, not_or] at fresh
      refine ⟨rfl, rfl, rfl, ?_, ?_⟩
      · intro taken
        obtain ⟨row, listed, same⟩ := List.mem_map.mp taken
        exact (fresh row listed).1 same
      · intro taken
        obtain ⟨row, listed, same⟩ := List.mem_map.mp taken
        exact (fresh row listed).2 same
    next => cases created

end

/-! ## The tables refine the history -/

section

variable {service : Service} {s s' : ServiceState} {view : Grants Id (List UInt8) Str SessionFacts}

/-- What holds of the tables and of what is under way, however many resets overlap. -/
structure Consistent (s : ServiceState) : Prop where
  users : (s.accounts.users.map User.id).Nodup
  tokens : (s.accounts.sessions.map Session.tokenHash).Nodup
  ids : (s.accounts.sessions.map Session.id).Nodup
  owner : ∀ session ∈ s.accounts.sessions, ∃ user, s.accounts.user? session.userId = some user
  login : ∀ task user password currentTime, s.tasks task = some (.login user password currentTime) →
    ∃ row, s.accounts.user? user.id = some row

/-- The tables agree with who is signed in. -/
structure Refines (service : Service) (s : ServiceState) (view : Grants Id (List UInt8) Str SessionFacts) : Prop where
  consistent : Consistent s
  /-- A login that read the account as it is now pends, and one that was overtaken does not. -/
  login : ∀ task user password currentTime, s.tasks task = some (.login user password currentTime) →
    credential? s.accounts user.id = some (user.credentialVersion, user.passwordHash) ∧ view.pending task = some (user.id, password) ∨
      (∃ version passwordHash, credential? s.accounts user.id = some (version, passwordHash) ∧ user.credentialVersion < version) ∧
        view.pending task = none
  /-- Nobody but the reset changes the password of its account. -/
  reset : ∀ task user password, s.tasks task = some (.reset user password) →
    ∃ passwordHash, credential? s.accounts user.id = some (user.credentialVersion, passwordHash)
  sole : ∀ task other user otherUser password otherPassword, s.tasks task = some (.reset user password) →
    s.tasks other = some (.reset otherUser otherPassword) → user.id = otherUser.id → task = other
  held : ∀ signIn ∈ view.held, s.now < signIn.info.expiresAt →
    ∃ session ∈ s.accounts.sessions, IsRow signIn session ∧ IsCurrent s.accounts session
  rows : ∀ session ∈ s.accounts.sessions, IsCurrent s.accounts session → ∃ signIn ∈ view.held, IsRow signIn session
  verified : ∀ signIn ∈ view.held, ∃ version passwordHash,
    credential? s.accounts signIn.holder = some (version, passwordHash) ∧ service.verifyPassword passwordHash signIn.basis = true

theorem credential?_eq_some {accounts : Accounts} {id : Id} {user : User} (found : accounts.user? id = some user) :
    credential? accounts id = some (user.credentialVersion, user.passwordHash) := by
  rw [credential?, found]
  rfl

theorem exists_user {accounts : Accounts} {id : Id} : (∃ user, accounts.user? id = some user) ↔ (credential? accounts id).isSome := by
  rw [credential?, Option.isSome_map, Option.isSome_iff_exists]

/-- A step that adds no row, changes no credential and begins nothing but logouts. -/
theorem Consistent.frame (consistent : Consistent s) (users : (s'.accounts.users.map User.id).Nodup)
    (sessions : s'.accounts.sessions = s.accounts.sessions)
    (credentials : ∀ id credential, credential? s.accounts id = some credential → credential? s'.accounts id = some credential)
    (tasks : ∀ task its, s'.tasks task = some its → s.tasks task = some its ∨ ∃ token, its = .logout token) : Consistent s' := by
  have stays {id : Id} (exists? : ∃ user, s.accounts.user? id = some user) : ∃ user, s'.accounts.user? id = some user := by
    rw [exists_user, Option.isSome_iff_exists] at exists? ⊢
    obtain ⟨credential, found⟩ := exists?
    exact ⟨credential, credentials id credential found⟩
  constructor
  case users => exact users
  case tokens => rw [sessions]; exact consistent.tokens
  case ids => rw [sessions]; exact consistent.ids
  case owner =>
    rw [sessions]
    exact fun session listed => stays (consistent.owner session listed)
  case login =>
    intro task user password currentTime isLogin
    obtain before | ⟨token, other⟩ := tasks task _ isLogin
    · exact stays (consistent.login task user password currentTime before)
    · cases other

theorem Refines.frame (refines : Refines service s view) (users : (s'.accounts.users.map User.id).Nodup)
    (sessions : s'.accounts.sessions = s.accounts.sessions)
    (credentials : ∀ id credential, credential? s.accounts id = some credential → credential? s'.accounts id = some credential)
    (tasks : ∀ task its, s'.tasks task = some its → s.tasks task = some its ∨ ∃ token, its = .logout token)
    (now : s.now ≤ s'.now) : Refines service s' view := by
  have current {session : Session} (listed : session ∈ s.accounts.sessions) : IsCurrent s'.accounts session → IsCurrent s.accounts session := by
    intro isCurrent
    obtain ⟨passwordHash, found⟩ := isCurrent
    obtain ⟨user, isUser⟩ := refines.consistent.owner session listed
    have same := credentials _ _ (credential?_eq_some isUser)
    rw [found] at same
    exact ⟨passwordHash, (credential?_eq_some isUser).trans same.symm⟩
  constructor
  case consistent => exact refines.consistent.frame users sessions credentials tasks
  case login =>
    intro task user password currentTime isLogin
    obtain before | ⟨token, other⟩ := tasks task _ isLogin
    · obtain ⟨found, pends⟩ | ⟨⟨version, passwordHash, found, later⟩, idle⟩ := refines.login task user password currentTime before
      · exact .inl ⟨credentials _ _ found, pends⟩
      · exact .inr ⟨⟨version, passwordHash, credentials _ _ found, later⟩, idle⟩
    · cases other
  case reset =>
    intro task user password isReset
    obtain before | ⟨token, other⟩ := tasks task _ isReset
    · obtain ⟨passwordHash, found⟩ := refines.reset task user password before
      exact ⟨passwordHash, credentials _ _ found⟩
    · cases other
  case sole =>
    intro task other user otherUser password otherPassword isReset alsoReset same
    obtain before | ⟨token, different⟩ := tasks task _ isReset
    · obtain alsoBefore | ⟨token, different⟩ := tasks other _ alsoReset
      · exact refines.sole task other user otherUser password otherPassword before alsoBefore same
      · cases different
    · cases different
  case held =>
    intro signIn held unexpired
    obtain ⟨session, listed, isRow, passwordHash, found⟩ := refines.held signIn held (by omega)
    exact ⟨session, sessions ▸ listed, isRow, passwordHash, credentials _ _ found⟩
  case rows =>
    rw [sessions]
    intro session listed isCurrent
    exact refines.rows session listed (current listed isCurrent)
  case verified =>
    intro signIn held
    obtain ⟨version, passwordHash, found, matches?⟩ := refines.verified signIn held
    exact ⟨version, passwordHash, credentials _ _ found, matches?⟩

/-- Sessions go away, and nothing else changes. -/
theorem Consistent.remove (consistent : Consistent s) {select : Session → Bool} {accounts : Accounts}
    (sessions : accounts.sessions = s.accounts.sessions.filter select) (users : accounts.users = s.accounts.users) :
    Consistent { s with accounts } := by
  have sameUser (id : Id) : accounts.user? id = s.accounts.user? id := by rw [Accounts.user?, users, Accounts.user?]
  constructor
  case users =>
    rw [users]
    exact consistent.users
  case tokens =>
    rw [sessions]
    exact nodup_filter_key consistent.tokens select
  case ids =>
    rw [sessions]
    exact nodup_filter_key consistent.ids select
  case owner =>
    rw [sessions]
    intro session listed
    rw [sameUser]
    exact consistent.owner session (List.mem_of_mem_filter listed)
  case login =>
    intro task user password currentTime isLogin
    rw [sameUser]
    exact consistent.login task user password currentTime isLogin

/-- A session that is over can be deleted at any time. -/
theorem Refines.deleteSession (refines : Refines service s view) {session : Session} (listed : session ∈ s.accounts.sessions)
    (ended : session.expiresAt ≤ s.now ∨ ¬ IsCurrent s.accounts session) :
    Refines service { s with accounts := s.accounts.deleteSession session.id } view := by
  constructor
  case consistent => exact refines.consistent.remove rfl rfl
  case login => exact refines.login
  case reset => exact refines.reset
  case sole => exact refines.sole
  case verified => exact refines.verified
  case rows =>
    intro row isListed isCurrent
    exact refines.rows row (List.mem_of_mem_filter isListed) isCurrent
  case held =>
    intro signIn held unexpired
    obtain ⟨row, isListed, isRow, isCurrent⟩ := refines.held signIn held unexpired
    refine ⟨row, List.mem_filter.mpr ⟨isListed, ?_⟩, isRow, isCurrent⟩
    simp only [bne_iff_ne, ne_eq]
    intro sameId
    obtain rfl := List.inj_on_of_nodup_map refines.consistent.ids isListed listed sameId
    rw [isRow.expiresAt] at ended
    exact ended.elim (fun expired => absurd unexpired (Nat.not_lt.mpr expired)) fun stale => stale isCurrent

end

end Oveo.Api
