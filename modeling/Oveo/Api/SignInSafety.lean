import Oveo.Api.SignIns

/-! # Whom the service takes a cookie for

Every step keeps the tables in agreement with the history, so a session cookie is accepted exactly
while the login it comes from stands.  The one thing that has to hold of a run is that two resets of
one account do not overlap: both would write the same version. -/

namespace Oveo.Api

open Oveo.Lib Oveo.Store Oveo.Login

section

variable {service : Service} {s s' : ServiceState} {view : Grants Id (List UInt8) Str SessionFacts} {task : Nat} {user : User}
  {password : Str} {session : Session}

/-! ## One step -/

@[simp] theorem accounts_setTask {its : Option Task} : (s.setTask task its).accounts = s.accounts := rfl

theorem tasks_setTask_none {other : Nat} {its : Task} (isTask : (s.setTask task none).tasks other = some its) :
    other ≠ task ∧ s.tasks other = some its := by
  by_cases same : other = task
  · subst same
    simp [ServiceState.setTask] at isTask
  · exact ⟨same, by simpa [ServiceState.setTask, Function.update_of_ne same] using isTask⟩

theorem tasks_setTask_some {other : Nat} {its new : Task} (isTask : (s.setTask task (some new)).tasks other = some its) :
    other = task ∧ its = new ∨ other ≠ task ∧ s.tasks other = some its := by
  by_cases same : other = task
  · subst same
    exact .inl ⟨rfl, by simpa [ServiceState.setTask, eq_comm] using isTask⟩
  · exact .inr ⟨same, by simpa [ServiceState.setTask, Function.update_of_ne same] using isTask⟩

theorem user?_of_userNamed? {accounts : Accounts} {username : Str} (distinct : (accounts.users.map User.id).Nodup)
    (named : userNamed? accounts username = some user) : accounts.user? user.id = some user :=
  (find?_key_eq_some distinct).mpr ⟨List.mem_of_find?_eq_some named, rfl⟩

theorem Refines.endTask (refines : Refines service s view) (task : Nat) : Refines service (s.setTask task none) view := by
  apply @Refines.frame _ _ (s.setTask task none) _ refines refines.consistent.users rfl
  case credentials => exact fun id credential found => found
  case tasks => exact fun other its isTask => .inl (tasks_setTask_none isTask).2
  case now => exact Nat.le_refl _

theorem Refines.recordCheck (refines : Refines service s view) (user : User) (check : Check) :
    Refines service { s with accounts := recordCheck service s.accounts user check } view := by
  apply refines.frame
  case users =>
    rw [map_id_recordCheck]
    exact refines.consistent.users
  case sessions => rfl
  case credentials =>
    intro id credential found
    rwa [credential?_recordCheck]
  case tasks => exact fun other its isTask => .inl isTask
  case now => exact Nat.le_refl _

theorem Refines.begin (refines : Refines service s view) (read : s.accounts.user? user.id = some user) (currentTime : Nat) :
    Refines service (s.setTask task (some (.login user password currentTime))) (view.apply (.requested task user.id password)) := by
  constructor
  case consistent =>
    constructor
    case users => exact refines.consistent.users
    case tokens => exact refines.consistent.tokens
    case ids => exact refines.consistent.ids
    case owner => exact refines.consistent.owner
    case login =>
      intro other reader given time isLogin
      obtain ⟨rfl, same⟩ | ⟨-, before⟩ := tasks_setTask_some isLogin
      · cases same
        exact ⟨user, read⟩
      · exact refines.consistent.login other reader given time before
  case login =>
    intro other reader given time isLogin
    obtain ⟨rfl, same⟩ | ⟨different, before⟩ := tasks_setTask_some isLogin
    · cases same
      exact .inl ⟨credential?_eq_some read, by simp [Grants.apply]⟩
    · simpa [Grants.apply, Function.update_of_ne different] using refines.login other reader given time before
  case reset =>
    intro other reader given isReset
    obtain ⟨-, same⟩ | ⟨-, before⟩ := tasks_setTask_some isReset
    · cases same
    · exact refines.reset other reader given before
  case sole =>
    intro first second reader otherReader given otherGiven isReset alsoReset sameId
    obtain ⟨-, same⟩ | ⟨-, before⟩ := tasks_setTask_some isReset
    · cases same
    · obtain ⟨-, same⟩ | ⟨-, alsoBefore⟩ := tasks_setTask_some alsoReset
      · cases same
      · exact refines.sole first second reader otherReader given otherGiven before alsoBefore sameId
  case held => exact refines.held
  case rows => exact refines.rows
  case verified => exact refines.verified

theorem Refines.beginReset (refines : Refines service s view) (read : s.accounts.user? user.id = some user)
    (alone : ∀ other reader given, s.tasks other = some (.reset reader given) → user.id ≠ reader.id) :
    Refines service (s.setTask task (some (.reset user password))) view := by
  constructor
  case consistent =>
    constructor
    case users => exact refines.consistent.users
    case tokens => exact refines.consistent.tokens
    case ids => exact refines.consistent.ids
    case owner => exact refines.consistent.owner
    case login =>
      intro other reader given time isLogin
      obtain ⟨-, same⟩ | ⟨-, before⟩ := tasks_setTask_some isLogin
      · cases same
      · exact refines.consistent.login other reader given time before
  case login =>
    intro other reader given time isLogin
    obtain ⟨-, same⟩ | ⟨-, before⟩ := tasks_setTask_some isLogin
    · cases same
    · exact refines.login other reader given time before
  case reset =>
    intro other reader given isReset
    obtain ⟨-, same⟩ | ⟨-, before⟩ := tasks_setTask_some isReset
    · cases same
      exact ⟨user.passwordHash, credential?_eq_some read⟩
    · exact refines.reset other reader given before
  case sole =>
    intro first second reader otherReader given otherGiven isReset alsoReset sameId
    obtain ⟨isFirst, same⟩ | ⟨-, before⟩ := tasks_setTask_some isReset
    · obtain ⟨isSecond, alsoSame⟩ | ⟨-, alsoBefore⟩ := tasks_setTask_some alsoReset
      · rw [isFirst, isSecond]
      · cases same
        exact absurd sameId (alone second otherReader otherGiven alsoBefore)
    · obtain ⟨-, alsoSame⟩ | ⟨-, alsoBefore⟩ := tasks_setTask_some alsoReset
      · cases alsoSame
        exact absurd sameId.symm (alone first reader given before)
      · exact refines.sole first second reader otherReader given otherGiven before alsoBefore sameId
  case held => exact refines.held
  case rows => exact refines.rows
  case verified => exact refines.verified

/-- The tables with one more session. -/
def withSession (s : ServiceState) (session : Session) : ServiceState :=
  { s with accounts := { s.accounts with sessions := s.accounts.sessions ++ [session] } }

theorem Consistent.addSession (consistent : Consistent s) (freshId : session.id ∉ s.accounts.sessions.map Session.id)
    (freshToken : session.tokenHash ∉ s.accounts.sessions.map Session.tokenHash)
    (owner : ∃ user, s.accounts.user? session.userId = some user) : Consistent (withSession s session) := by
  constructor
  case users => exact consistent.users
  case tokens => exact nodup_append_key consistent.tokens freshToken
  case ids => exact nodup_append_key consistent.ids freshId
  case owner => exact List.forall_mem_append.mpr ⟨consistent.owner, List.forall_mem_singleton.mpr owner⟩
  case login => exact consistent.login

/-- A session of a login that was overtaken by a reset signs nobody in. -/
theorem Refines.addStale (refines : Refines service s view) (consistent : Consistent (withSession s session))
    (stale : ¬ IsCurrent s.accounts session) : Refines service (withSession s session) view := by
  constructor
  case consistent => exact consistent
  case login => exact refines.login
  case reset => exact refines.reset
  case sole => exact refines.sole
  case verified => exact refines.verified
  case held =>
    intro signIn held unexpired
    obtain ⟨row, listed, isRow, isCurrent⟩ := refines.held signIn held unexpired
    exact ⟨row, List.mem_append_left _ listed, isRow, isCurrent⟩
  case rows => exact List.forall_mem_append.mpr ⟨refines.rows, List.forall_mem_singleton.mpr fun current => absurd current stale⟩

theorem Refines.addCurrent {signIn : SignIn} {passwordHash : Str} (refines : Refines service s view)
    (consistent : Consistent (withSession s session)) (isRow : IsRow signIn session)
    (current : credential? s.accounts session.userId = some (session.credentialVersion, passwordHash))
    (verified : service.verifyPassword passwordHash signIn.basis = true) {pending : Nat → Option (Id × Str)}
    (pends : ∀ task user password currentTime, s.tasks task = some (.login user password currentTime) → pending task = view.pending task) :
    Refines service (withSession s session) { pending, held := view.held ++ [signIn] } := by
  constructor
  case consistent => exact consistent
  case login =>
    intro other reader given time isLogin
    dsimp only
    rw [pends other reader given time isLogin]
    exact refines.login other reader given time isLogin
  case reset => exact refines.reset
  case sole => exact refines.sole
  case held =>
    refine List.forall_mem_append.mpr ⟨fun other held unexpired => ?_, List.forall_mem_singleton.mpr fun _ => ?_⟩
    · obtain ⟨row, listed, isOther, isCurrent⟩ := refines.held other held unexpired
      exact ⟨row, List.mem_append_left _ listed, isOther, isCurrent⟩
    · exact ⟨session, List.mem_append_right _ (List.mem_singleton_self _), isRow, passwordHash, current⟩
  case rows =>
    refine List.forall_mem_append.mpr ⟨fun row listed isCurrent => ?_, List.forall_mem_singleton.mpr fun _ => ?_⟩
    · obtain ⟨other, held, isOther⟩ := refines.rows row listed isCurrent
      exact ⟨other, List.mem_append_left _ held, isOther⟩
    · exact ⟨signIn, List.mem_append_right _ (List.mem_singleton_self _), isRow⟩
  case verified =>
    refine List.forall_mem_append.mpr ⟨refines.verified, List.forall_mem_singleton.mpr ?_⟩
    exact ⟨session.credentialVersion, passwordHash, isRow.userId ▸ current, verified⟩

/-- A verified login commits its session, whether or not a reset came in between. -/
theorem Refines.issue {currentTime : Nat} {drawn : Drawn} {accounts : Accounts} {issued : IssuedSession} (refines : Refines service s view)
    (isLogin : s.tasks task = some (.login user password currentTime)) (verified : service.verifyPassword user.passwordHash password = true)
    (created : issueSession service s user currentTime drawn = some (accounts, issued)) :
    Refines service { s.setTask task none with accounts } (view.apply (.issued task issued.session.tokenHash
      ⟨issued.session.id, issued.session.csrfTokenHash, issued.session.expiresAt⟩)) := by
  obtain ⟨rfl, isUser, isVersion, freshId, freshToken⟩ := createSession_eq_some created
  have ended := (refines.endTask task).recordCheck user ⟨currentTime, true⟩
  have consistent := @Consistent.addSession _ issued.session ended.consistent freshId freshToken (by
    rw [isUser, exists_user, credential?_recordCheck, ← exists_user]
    exact refines.consistent.login task user password currentTime isLogin)
  obtain ⟨found, pends⟩ | ⟨⟨version, passwordHash, found, overtaken⟩, idle⟩ := refines.login task user password currentTime isLogin
  · simp only [Grants.apply, pends]
    apply ended.addCurrent consistent
    case isRow => exact ⟨rfl, rfl, rfl, isUser, rfl⟩
    case current =>
      rw [isUser, isVersion, credential?_recordCheck]
      exact found
    case verified => exact verified
    case pends =>
      intro other reader given time isOther
      exact Function.update_of_ne (tasks_setTask_none isOther).1 _ _
  · simp only [Grants.apply, idle]
    apply ended.addStale consistent
    intro current
    obtain ⟨itsHash, current⟩ := current
    rw [isUser, isVersion, credential?_recordCheck, accounts_setTask, found, Option.some.injEq, Prod.mk.injEq] at current
    omega

theorem Refines.revoke {tokenHash : List UInt8} (refines : Refines service s view) :
    Refines service { s with accounts := { s.accounts with
        sessions := s.accounts.sessions.filter fun session => session.tokenHash ≠ tokenHash } }
      (view.apply (.withdrawn tokenHash)) := by
  constructor
  case consistent => exact refines.consistent.remove rfl rfl
  case login => exact refines.login
  case reset => exact refines.reset
  case sole => exact refines.sole
  case held =>
    intro signIn held unexpired
    simp only [Grants.apply, List.mem_filter, decide_eq_true_eq] at held
    obtain ⟨row, listed, isRow, isCurrent⟩ := refines.held signIn held.1 unexpired
    exact ⟨row, by simpa [listed, isRow.tokenHash] using held.2, isRow, isCurrent⟩
  case rows =>
    intro row listed isCurrent
    simp only [List.mem_filter, decide_eq_true_eq] at listed
    obtain ⟨signIn, held, isRow⟩ := refines.rows row listed.1 isCurrent
    exact ⟨signIn, by simpa [Grants.apply, held, ← isRow.tokenHash] using listed.2, isRow⟩
  case verified =>
    intro signIn held
    exact refines.verified signIn (List.mem_of_mem_filter held)

/-- A reset ends the sessions of its account, and overtakes the logins that have read it. -/
theorem Refines.change {passwordHash : Str} (refines : Refines service s view) (isReset : s.tasks task = some (.reset user password)) :
    Refines service { s.setTask task none with accounts := changePassword s.accounts user passwordHash }
      (view.apply (.reset user.id)) := by
  obtain ⟨oldHash, before⟩ := refines.reset task user password isReset
  have its : credential? (changePassword s.accounts user passwordHash) user.id = some (user.credentialVersion + 1, passwordHash) := by
    obtain ⟨row, isRow⟩ : ∃ row, s.accounts.user? user.id = some row := by rw [exists_user, before]; rfl
    rw [credential?_changePassword, if_pos rfl, isRow, Option.map_some]
  have others {id : Id} (other : id ≠ user.id) : credential? (changePassword s.accounts user passwordHash) id = credential? s.accounts id := by
    rw [credential?_changePassword, if_neg other]
  have stays {id : Id} (exists? : ∃ row, s.accounts.user? id = some row) :
      ∃ row, (changePassword s.accounts user passwordHash).user? id = some row := by
    rw [exists_user] at exists? ⊢
    by_cases same : id = user.id
    · rw [same, its]
      rfl
    · rwa [others same]
  constructor
  case consistent =>
    constructor
    case users =>
      rw [map_id_changePassword]
      exact refines.consistent.users
    case tokens => exact nodup_filter_key refines.consistent.tokens _
    case ids => exact nodup_filter_key refines.consistent.ids _
    case owner =>
      intro row listed
      exact stays (refines.consistent.owner row (List.mem_of_mem_filter listed))
    case login =>
      intro other reader given time isLogin
      exact stays (refines.consistent.login other reader given time (tasks_setTask_none isLogin).2)
  case login =>
    intro other reader given time isLogin
    have reads := refines.login other reader given time (tasks_setTask_none isLogin).2
    by_cases same : reader.id = user.id
    · rw [same, before] at reads
      refine .inr ⟨⟨_, _, same ▸ its, ?_⟩, ?_⟩
      · obtain ⟨found, -⟩ | ⟨⟨version, hash, found, earlier⟩, -⟩ := reads
        all_goals
          simp only [Option.some.injEq, Prod.mk.injEq] at found
          omega
      · obtain ⟨-, pends⟩ | ⟨-, idle⟩ := reads
        · simp [Grants.apply, pends]
        · simp [Grants.apply, idle]
    · rw [others same]
      obtain ⟨found, pends⟩ | ⟨found, idle⟩ := reads
      · exact .inl ⟨found, by simp [Grants.apply, pends, same]⟩
      · exact .inr ⟨found, by simp [Grants.apply, idle]⟩
  case reset =>
    intro other reader given alsoReset
    obtain ⟨different, alsoBefore⟩ := tasks_setTask_none alsoReset
    have otherId : reader.id ≠ user.id := fun same =>
      different (refines.sole other task reader user given password alsoBefore isReset same)
    rw [others otherId]
    exact refines.reset other reader given alsoBefore
  case sole =>
    intro first second reader otherReader given otherGiven isFirst isSecond same
    exact refines.sole first second reader otherReader given otherGiven (tasks_setTask_none isFirst).2 (tasks_setTask_none isSecond).2 same
  case held =>
    intro signIn held unexpired
    simp only [Grants.apply, List.mem_filter, decide_eq_true_eq] at held
    obtain ⟨row, listed, isRow, hash, isCurrent⟩ := refines.held signIn held.1 unexpired
    have otherId : row.userId ≠ user.id := isRow.userId ▸ held.2
    exact ⟨row, by simp [listed, otherId], isRow, hash, (others otherId).trans isCurrent⟩
  case rows =>
    intro row listed isCurrent
    simp only [sessions_changePassword, List.mem_filter, decide_eq_true_eq] at listed
    obtain ⟨hash, isCurrent⟩ := isCurrent
    obtain ⟨signIn, held, isRow⟩ := refines.rows row listed.1 ⟨hash, (others listed.2).symm.trans isCurrent⟩
    exact ⟨signIn, by simp [Grants.apply, held, ← isRow.userId, listed.2], isRow⟩
  case verified =>
    intro signIn held
    simp only [Grants.apply, List.mem_filter, decide_eq_true_eq] at held
    rw [others held.2]
    exact refines.verified signIn held.1

theorem Refines.getSession (refines : Refines service s view) (token : Option Str) :
    Refines service { s with accounts := (getSessionPrincipal service.hashToken s.accounts token s.now).1 } view := by
  obtain same | ⟨session, listed, ended, deleted⟩ := @getSessionPrincipal_accounts service s.accounts token s.now
  · rw [same]
    exact refines
  · rw [deleted]
    exact refines.deleteSession listed ended

/-- What one action does to the tables, the history does to who is signed in. -/
theorem Refines.step {action : ServiceAction} (refines : Refines service s view) (permitted : OneReset service s action)
    (taken : serviceStep service s action = some s') : Refines service s' ((observe service s action).foldl Grants.apply view) := by
  cases action with
  | tick now =>
    simp only [serviceStep] at taken
    split at taken
    next later =>
      cases taken
      exact refines.frame refines.consistent.users rfl (fun id credential found => found) (fun other its isTask => .inl isTask) later
    next => cases taken
  | start configured =>
    simp only [serviceStep, Option.bind_eq_bind, Option.bind_eq_some_iff, Option.pure_def, Option.some.injEq] at taken
    obtain ⟨accounts, seeded, rfl⟩ := taken
    obtain ⟨sessions, distinct, kept⟩ := seedConfiguredAccounts_keeps seeded
    refine refines.frame (distinct refines.consistent.users) sessions ?_ (fun other its isTask => .inl isTask) (Nat.le_refl _)
    intro id credential found
    rw [credential?, Option.map_eq_some_iff] at found
    obtain ⟨user, isUser, rfl⟩ := found
    exact credential?_eq_some (kept id user isUser)
  | stop =>
    cases taken
    refine refines.frame refines.consistent.users rfl (fun id credential found => found) ?_ (Nat.le_refl _)
    exact fun other its isTask => .inl (Option.filter_eq_some_iff.mp isTask).1
  | login task username password =>
    simp only [serviceStep] at taken
    split at taken
    next =>
      cases checked : accountToCheck service s.accounts username s.now with
      | none =>
        simp only [checked, Option.some.injEq] at taken
        subst taken
        simpa only [observe, checked, List.foldl_nil] using refines
      | some user =>
        simp only [checked, Option.some.injEq] at taken
        subst taken
        simp only [observe, checked, List.foldl_cons, List.foldl_nil]
        exact refines.begin (user?_of_userNamed? refines.consistent.users (Option.filter_eq_some_iff.mp checked).1) s.now
    next => cases taken
  | refuse task =>
    simp only [serviceStep] at taken
    split at taken
    next user password currentTime isLogin =>
      split at taken
      next => cases taken
      next =>
        cases taken
        exact (refines.endTask task).recordCheck user ⟨currentTime, false⟩
    next => cases taken
  | issue task drawn =>
    simp only [serviceStep] at taken
    split at taken
    next user password currentTime isLogin =>
      split at taken
      next verified =>
        cases created : issueSession service s user currentTime drawn with
        | none =>
          simp only [created, Option.some.injEq] at taken
          subst taken
          simpa only [observe, isLogin, created, List.foldl_nil] using refines.endTask task
        | some both =>
          obtain ⟨accounts, issued⟩ := both
          simp only [created, Option.some.injEq] at taken
          subst taken
          simpa only [observe, isLogin, created, List.foldl_cons, List.foldl_nil] using refines.issue isLogin verified created
      next => cases taken
    next => cases taken
  | request token =>
    cases taken
    exact refines.getSession token
  | logout task token origin csrfCookie csrfHeader =>
    have after := refines.getSession token
    simp only [serviceStep] at taken
    split at taken
    next =>
      split at taken
      next accounts principal found =>
        rw [found] at after
        split at taken
        next =>
          cases taken
          refine after.frame after.consistent.users rfl (fun id credential found => found) ?_ (Nat.le_refl _)
          intro other its isTask
          obtain ⟨-, rfl⟩ | ⟨-, before⟩ := tasks_setTask_some isTask
          · exact .inr ⟨token, rfl⟩
          · exact .inl before
        next =>
          cases taken
          exact after
      next accounts found =>
        rw [found] at after
        cases taken
        exact after
    next => cases taken
  | revoke task =>
    simp only [serviceStep] at taken
    split at taken
    next token isLogout =>
      cases taken
      have ended := refines.endTask task
      cases token with
      | none =>
        simp only [observe, isLogout, List.foldl_nil, revokeSession]
        exact ended
      | some token =>
        cases token with
        | nil =>
          simp only [observe, isLogout, List.foldl_nil, revokeSession]
          exact ended
        | cons c token =>
          simp only [observe, isLogout, List.foldl_cons, List.foldl_nil, revokeSession]
          exact ended.revoke
    next => cases taken
  | reset task username password =>
    simp only [serviceStep] at taken
    split at taken
    next =>
      cases named : userNamed? s.accounts (service.casefold username) with
      | none =>
        simp only [named, Option.some.injEq] at taken
        subst taken
        exact refines
      | some user =>
        simp only [named, Option.some.injEq] at taken
        subst taken
        refine refines.beginReset (user?_of_userNamed? refines.consistent.users named) ?_
        exact fun other reader given isReset => permitted other reader given isReset user named
    next => cases taken
  | change task salt =>
    simp only [serviceStep] at taken
    split at taken
    next user password isReset =>
      cases taken
      simpa only [observe, isReset, List.foldl_cons, List.foldl_nil] using refines.change isReset
    next => cases taken
  | drop task =>
    cases taken
    exact refines.endTask task

theorem refines_init (start : (serviceMachine service).init s) : Refines service s Grants.none := by
  obtain ⟨accounts, tasks⟩ := start
  constructor
  case consistent => constructor <;> simp [accounts, tasks]
  all_goals simp [accounts, tasks, Grants.none]

/-! ## Every run -/

variable {start : ServiceState} {events : List SignInEvent}

theorem refines_of_run (isStart : (serviceMachine service).init start)
    (run : (serviceMachine service).Trace (OneReset service) (observe service) start events s) :
    Refines service s (Grants.replay events) :=
  run.simulates (Refines service) (refines_init isStart) fun _ _ _ _ refines permitted taken => refines.step permitted taken

/-- A session is found by the hash of its token. -/
theorem Consistent.sessionOf?_eq_some (consistent : Consistent s) {tokenHash : List UInt8} :
    s.accounts.sessionOf? tokenHash = some session ↔ session ∈ s.accounts.sessions ∧ session.tokenHash = tokenHash :=
  find?_key_eq_some consistent.tokens

theorem isCurrent_iff {accounts : Accounts} (isUser : accounts.user? session.userId = some user) :
    IsCurrent accounts session ↔ session.credentialVersion = user.credentialVersion := by
  rw [IsCurrent, credential?_eq_some isUser]
  simp [eq_comm]

/-- In every run, a session cookie is accepted for an account exactly while a login of this account
stands that was issued this cookie: since it read the account no password of the account was replaced,
since it was issued nobody logged out with the cookie, and its time is not over. -/
theorem cookie_accepted_iff (isStart : (serviceMachine service).init start)
    (run : (serviceMachine service).Trace (OneReset service) (observe service) start events s) (token : Str) (account : Id)
    (csrfTokenHash : List UInt8) :
    (∃ principal, (getSessionPrincipal service.hashToken s.accounts (some token) s.now).2 = some principal ∧
        principal.user.id = account ∧ principal.session.csrfTokenHash = csrfTokenHash) ↔
      token ≠ [] ∧ ∃ signIn, Grants.Stands events signIn ∧ signIn.holder = account ∧ signIn.key = service.hashToken token ∧
        signIn.info.csrfTokenHash = csrfTokenHash ∧ s.now < signIn.info.expiresAt := by
  have refines := refines_of_run isStart run
  constructor
  · intro accepted
    obtain ⟨principal, accepted, rfl, rfl⟩ := accepted
    obtain ⟨text, isText, nonempty, found, unexpired, isUser, sameVersion⟩ := getSessionPrincipal_eq_some.mp accepted
    cases isText
    obtain ⟨listed, isHash⟩ := refines.consistent.sessionOf?_eq_some.mp found
    obtain ⟨signIn, held, isRow⟩ := refines.rows principal.session listed ((isCurrent_iff isUser).mpr sameVersion)
    have sameUser : principal.user.id = principal.session.userId := by simpa using List.find?_some isUser
    refine ⟨nonempty, signIn, Grants.mem_held_replay.mp held, ?_, ?_, ?_, ?_⟩
    · rw [sameUser, isRow.userId]
    · rw [← isRow.tokenHash, isHash]
    · rw [isRow.csrfTokenHash]
    · rw [← isRow.expiresAt]
      exact unexpired
  · intro standing
    obtain ⟨nonempty, signIn, stands, rfl, isKey, rfl, unexpired⟩ := standing
    obtain ⟨session, listed, isRow, current⟩ := refines.held signIn (Grants.mem_held_replay.mpr stands) unexpired
    obtain ⟨user, isUser⟩ := refines.consistent.owner session listed
    refine ⟨⟨session, user⟩, getSessionPrincipal_eq_some.mpr ⟨token, rfl, nonempty, ?_, ?_, isUser, ?_⟩, ?_, isRow.csrfTokenHash⟩
    · exact refines.consistent.sessionOf?_eq_some.mpr ⟨listed, isRow.tokenHash.trans isKey⟩
    · rw [isRow.expiresAt]
      exact unexpired
    · exact (isCurrent_iff isUser).mp current
    · rw [← isRow.userId]
      simpa using List.find?_some isUser

/-- What a live stream asks about the session it was opened with is true exactly while the login of that session stands. -/
theorem session_active_iff (isStart : (serviceMachine service).init start)
    (run : (serviceMachine service).Trace (OneReset service) (observe service) start events s) (sessionId : Id) :
    sessionIsActive s.accounts sessionId s.now = true ↔
      ∃ signIn, Grants.Stands events signIn ∧ signIn.info.sessionId = sessionId ∧ s.now < signIn.info.expiresAt := by
  have refines := refines_of_run isStart run
  simp only [sessionIsActive, Option.any_eq_true, Bool.and_eq_true, decide_eq_true_eq, beq_iff_eq]
  constructor
  · intro active
    obtain ⟨session, found, unexpired, user, isUser, sameVersion⟩ := active
    obtain ⟨listed, rfl⟩ := (find?_key_eq_some refines.consistent.ids).mp found
    obtain ⟨signIn, held, isRow⟩ := refines.rows session listed ((isCurrent_iff isUser).mpr sameVersion)
    exact ⟨signIn, Grants.mem_held_replay.mp held, isRow.id.symm, isRow.expiresAt ▸ unexpired⟩
  · intro standing
    obtain ⟨signIn, stands, rfl, unexpired⟩ := standing
    obtain ⟨session, listed, isRow, current⟩ := refines.held signIn (Grants.mem_held_replay.mpr stands) unexpired
    obtain ⟨user, isUser⟩ := refines.consistent.owner session listed
    refine ⟨session, (find?_key_eq_some refines.consistent.ids).mpr ⟨listed, isRow.id⟩, ?_, user, isUser, (isCurrent_iff isUser).mp current⟩
    rw [isRow.expiresAt]
    exact unexpired

/-- Whoever a cookie is accepted for has logged in with the password the account has now. -/
theorem accepted_password_current (isStart : (serviceMachine service).init start)
    (run : (serviceMachine service).Trace (OneReset service) (observe service) start events s) {token : Option Str}
    {principal : SessionPrincipal} (accepted : (getSessionPrincipal service.hashToken s.accounts token s.now).2 = some principal) :
    ∃ signIn, Grants.Stands events signIn ∧ signIn.key = principal.session.tokenHash ∧ signIn.holder = principal.user.id ∧
      service.verifyPassword principal.user.passwordHash signIn.basis = true := by
  have refines := refines_of_run isStart run
  obtain ⟨text, -, -, found, -, isUser, sameVersion⟩ := getSessionPrincipal_eq_some.mp accepted
  obtain ⟨listed, -⟩ := refines.consistent.sessionOf?_eq_some.mp found
  obtain ⟨signIn, held, isRow⟩ := refines.rows principal.session listed ((isCurrent_iff isUser).mpr sameVersion)
  obtain ⟨version, passwordHash, isCredential, verified⟩ := refines.verified signIn held
  have sameUser : principal.user.id = principal.session.userId := by simpa using List.find?_some isUser
  refine ⟨signIn, Grants.mem_held_replay.mp held, isRow.tokenHash.symm, isRow.userId.symm.trans sameUser.symm, ?_⟩
  rw [← isRow.userId, credential?_eq_some isUser, Option.some.injEq, Prod.mk.injEq] at isCredential
  rwa [isCredential.2]

end

/-! ## A reset overtakes a login -/

section

def plainService : Service where
  settings := ⟨5, 900, 900, by decide, by decide, by decide⟩
  sessionDays := 30
  publicOrigin := str "https://oveo.example"
  casefold := id
  hashToken token := token.map fun c => UInt8.ofNat c.val
  hashPassword salt password := str "argon2id" ++ salt ++ password
  verifyPassword passwordHash password := passwordHash.drop 9 == password
  isArgon2id passwordHash := (str "argon2id").isPrefixOf passwordHash

def noAccounts : ServiceState := { now := 0, accounts := { users := [], sessions := [] }, tasks := fun _ => none }

def isResetAction : ServiceAction → Bool
  | .reset .. => true
  | _ => false

/-- A part of a run in which no reset begins. -/
def partOfRun (s : ServiceState) (actions : List ServiceAction) : Option (List SignInEvent × ServiceState) :=
  (serviceMachine plainService).traceVia (fun _ action => isResetAction action = false) (observe plainService) s actions

theorem trace_of_partOfRun {s finish : ServiceState} {actions : List ServiceAction} {events : List SignInEvent}
    (ran : partOfRun s actions = some (events, finish)) :
    (serviceMachine plainService).Trace (OneReset plainService) (observe plainService) s events finish := by
  apply (Machine.trace_of_traceVia ran).mono
  intro state action other
  cases action
  case reset => cases other
  all_goals exact trivial

/-- One login reads the account before the reset. -/
def beforeReset : List ServiceAction :=
  [.start [⟨7, str "charles", some (str "argon2id0old")⟩], .login 0 (str "charles") (str "old")]

/-- It commits its session after the reset, and so does one that reads the account after the reset. -/
def afterReset : List ServiceAction :=
  [.change 1 (str "1"), .issue 0 ⟨20, str "a", str "x"⟩, .login 2 (str " charles") (str "new"), .issue 2 ⟨21, str "b", str "y"⟩]

def early : List SignInEvent × ServiceState := (partOfRun noAccounts beforeReset).getD ([], noAccounts)

def resetUnderWay : ServiceState := (serviceStep plainService early.2 (.reset 1 (str "charles") (str "new"))).getD noAccounts

def late : List SignInEvent × ServiceState := (partOfRun resetUnderWay afterReset).getD ([], noAccounts)

theorem overtaken_run : (serviceMachine plainService).Trace (OneReset plainService) (observe plainService) noAccounts
    (early.1 ++ late.1) late.2 := by
  have isEarly : partOfRun noAccounts beforeReset = some (early.1, early.2) := rfl
  have begins : (serviceMachine plainService).step early.2 (.reset 1 (str "charles") (str "new")) = some resetUnderWay := rfl
  have isLate : partOfRun resetUnderWay afterReset = some (late.1, late.2) := rfl
  refine (trace_of_partOfRun isEarly).trans (Machine.Trace.head ?_ begins (trace_of_partOfRun isLate))
  intro task user password isReset
  have tasks : early.2.tasks = Function.update (fun _ => none) 0
      (some (.login ⟨7, str "charles", str "argon2id0old", 1, resetCounters⟩ (str "old") 0)) := rfl
  rw [tasks] at isReset
  by_cases first : task = 0
  · subst first
    simp at isReset
  · simp [Function.update_of_ne first] at isReset

def latePrincipal : SessionPrincipal where
  session := ⟨21, [98], [121], 7, 2, seconds (86400 * 30)⟩
  user := ⟨7, str "charles", str "argon2id1new", 2, resetCounters⟩

theorem late_accepted : (getSessionPrincipal plainService.hashToken late.2.accounts (some (str "b")) late.2.now).2 = some latePrincipal := rfl

/-- The session of the login that the reset overtook is in the table, but only the other one signs somebody in. -/
theorem cookie_accepted_iff_overtaken :
    late.2.accounts.sessions.map Session.id = [20, 21] ∧
      (getSessionPrincipal plainService.hashToken late.2.accounts (some (str "a")) late.2.now).2 = none ∧
      str "b" ≠ [] ∧ ∃ signIn, Grants.Stands (early.1 ++ late.1) signIn ∧ signIn.holder = 7 ∧
        signIn.key = plainService.hashToken (str "b") ∧ signIn.info.csrfTokenHash = [121] ∧ late.2.now < signIn.info.expiresAt :=
  ⟨by decide, by decide, (cookie_accepted_iff ⟨rfl, rfl⟩ overtaken_run (str "b") 7 [121]).mp ⟨latePrincipal, late_accepted, rfl, rfl⟩⟩

theorem session_active_iff_overtaken : sessionIsActive late.2.accounts 20 late.2.now = false ∧
    ∃ signIn, Grants.Stands (early.1 ++ late.1) signIn ∧ signIn.info.sessionId = 21 ∧ late.2.now < signIn.info.expiresAt :=
  ⟨by decide, (session_active_iff ⟨rfl, rfl⟩ overtaken_run 21).mp (by decide)⟩

theorem accepted_password_current_overtaken :
    ∃ signIn, Grants.Stands (early.1 ++ late.1) signIn ∧ signIn.key = [98] ∧ signIn.holder = 7 ∧
      plainService.verifyPassword (str "argon2id1new") signIn.basis = true :=
  accepted_password_current ⟨rfl, rfl⟩ overtaken_run late_accepted

end

end Oveo.Api
