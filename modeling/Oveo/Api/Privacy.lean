import Oveo.Api.Access

/-! # Whether an id gives away another account's record

A request is answered twice: where the record it names belongs to another account, and where it
does not exist.  Conversations look the same in both; a generation that has a conversation does
not, because `_require_generation` answers with the missing conversation and not with the missing
generation. -/

namespace Oveo.Api

open Oveo.Lib Oveo.Store

/-! ## The two states -/

/-- The record exists, and its owner is not the account. -/
def BelongsToAnother (db : Db) (account : Id) : RecordId → Prop
  | .thread id => ∃ thread, db.thread? id = some thread ∧ thread.ownerId ≠ account
  | .generation id =>
    ∃ generation, db.generation? id = some generation ∧
      match generation.threadId with
      | some threadId => ∃ thread, db.thread? threadId = some thread ∧ thread.ownerId ≠ account
      | none => generation.requesterId ≠ account

/-- The tables without a record. -/
def withoutRecord (db : Db) : RecordId → Db
  | .thread id => { db with threads := db.threads.filter fun thread => thread.id != id }
  | .generation id => { db with generations := db.generations.filter fun generation => generation.id != id }

theorem find?_filter_ne {α : Type} (key : α → Id) (id : Id) (rows : List α) :
    (rows.filter fun row => key row != id).find? (fun row => key row == id) = none := by
  simp

theorem thread?_without (db : Db) (id : Id) : (withoutRecord db (.thread id)).thread? id = none :=
  find?_filter_ne Thread.id id db.threads

theorem generation?_without (db : Db) (id : Id) : (withoutRecord db (.generation id)).generation? id = none :=
  find?_filter_ne Generation.id id db.generations

/-- What the lookup says when there is no such record. -/
def notFound : RecordId → ApiError
  | .thread _ => threadNotFound
  | .generation _ => generationNotFound

theorem requireRecord_missing (db : Db) (account : Id) (record : RecordId) :
    requireRecord (withoutRecord db record) account record = .error (notFound record) := by
  cases record with
  | thread id => simp only [requireRecord, thread?_without, requireThread, notFound]
  | generation id => simp only [requireRecord, requireGeneration, generation?_without, notFound]

/-! ## What another account's record answers -/

/-- The record is a generation with a conversation. -/
def IsThreadGeneration (db : Db) : RecordId → Prop
  | .thread _ => False
  | .generation id => ∃ generation, db.generation? id = some generation ∧ generation.threadId ≠ none

theorem requireThread_foreign {account : Id} {thread : Thread} (foreign : thread.ownerId ≠ account) :
    requireThread account (some thread) = .error threadNotFound := by
  simp [requireThread, foreign]

/-- It answers as a missing one exactly when it is no generation with a conversation. -/
theorem requireRecord_foreign {db : Db} {account : Id} {record : RecordId} (foreign : BelongsToAnother db account record) :
    ∃ error, requireRecord db account record = .error error ∧ (error = notFound record ↔ ¬ IsThreadGeneration db record) := by
  cases record with
  | thread id =>
    obtain ⟨thread, found, other⟩ := foreign
    exact ⟨threadNotFound, by simp only [requireRecord, found, requireThread_foreign other], by simp [notFound, IsThreadGeneration]⟩
  | generation id =>
    obtain ⟨generation, found, other⟩ := foreign
    cases isThread : generation.threadId with
    | some threadId =>
      simp only [isThread] at other
      obtain ⟨thread, threadFound, other⟩ := other
      refine ⟨threadNotFound, ?_, ?_⟩
      · simp only [requireRecord, requireGeneration, found, isThread, threadFound, requireThread_foreign other]
      · have differ : threadNotFound ≠ generationNotFound := by decide
        simp only [notFound, differ, false_iff, not_not, IsThreadGeneration]
        exact ⟨generation, found, by simp [isThread]⟩
    | none =>
      simp only [isThread] at other
      refine ⟨generationNotFound, ?_, ?_⟩
      · simp only [requireRecord, requireGeneration, found, isThread, other, if_false]
      · simp [notFound, IsThreadGeneration, found, isThread]

/-! ## Requests -/

section

variable {hashToken : Str → List UInt8} {publicOrigin : Str} {Payload : Type}
  {served : Endpoint → SessionPrincipal → ApiState → ApiState × Response Payload}
  {s s' : ApiState} {request : Request} {now : Nat} {principal : SessionPrincipal}

/-- The two answers are the same, and neither touches the conversations. -/
def SameAnswer (s s' : ApiState) (answer answer' : ApiState × Response Payload) : Prop :=
  answer.2 = answer'.2 ∧ answer.1.accounts = answer'.1.accounts ∧ answer.1.db = s.db ∧ answer'.1.db = s'.db

/-- The session of the request is there and not over. -/
def SignedIn (hashToken : Str → List UInt8) (accounts : Accounts) (request : Request) (now : Nat)
    (principal : SessionPrincipal) : Prop :=
  getSessionPrincipal hashToken accounts request.token now = (accounts, some principal)

/-- A request of someone signed in is answered before the lookup, from the request alone, or it is
answered by the lookup. -/
theorem handle_signedIn (signedIn : SignedIn hashToken s.accounts request now principal) :
    (request.isAdmitted hashToken publicOrigin principal.session = false ∧
      ∃ error, ∀ other : ApiState, other.accounts = s.accounts →
        handle hashToken publicOrigin served other request now = (other, .error error)) ∨
    (request.isAdmitted hashToken publicOrigin principal.session = true ∧
      ∀ other : ApiState, other.accounts = s.accounts →
        handle hashToken publicOrigin served other request now =
          match requireRecord other.db principal.user.id request.endpoint.record with
          | .ok () => served request.endpoint principal other
          | .error error => (other, .error error)) := by
  have signedInThere : ∀ other : ApiState, other.accounts = s.accounts →
      getSessionPrincipal hashToken other.accounts request.token now = (other.accounts, some principal) := by
    intro other same
    rw [same]
    exact signedIn
  by_cases malformed : request.endpoint.body? = some .malformed
  · refine .inl ⟨by simp [Request.isAdmitted, malformed], invalidRequest, fun other _ => ?_⟩
    simp only [handle, malformed, if_true]
  have parsed : (request.endpoint.body? != some JsonBody.malformed) = true := by simpa using malformed
  by_cases refused : request.endpoint.checksCsrf ∧ ¬ passesCsrf hashToken publicOrigin principal.session request
  · refine .inl ⟨by simp [Request.isAdmitted, refused.1, refused.2], csrfFailed, fun other same => ?_⟩
    simp only [handle, if_neg malformed, signedInThere other same, if_pos refused]
  have verified : (!request.endpoint.checksCsrf || passesCsrf hashToken publicOrigin principal.session request) = true := by
    cases checks : request.endpoint.checksCsrf with
    | false => rfl
    | true => simpa [checks] using refused
  by_cases invalid : request.endpoint.isValid = true
  · refine .inr ⟨by simp [Request.isAdmitted, parsed, verified, invalid], fun other same => ?_⟩
    have valid : ¬ ¬ request.endpoint.isValid = true := not_not_intro invalid
    rw [handle, if_neg malformed, signedInThere other same]
    exact (if_neg refused).trans (if_neg valid)
  · refine .inl ⟨by simp [Request.isAdmitted, invalid], invalidRequest, fun other same => ?_⟩
    simp only [handle, if_neg malformed, signedInThere other same, if_neg refused, if_pos invalid]

/-- The answers of a request that names another account's record, and where the record does not
exist, are the same exactly when the request is refused before the lookup or the record is no
generation with a conversation. -/
theorem record_id_private_iff (signedIn : SignedIn hashToken s.accounts request now principal)
    (foreign : BelongsToAnother s.db principal.user.id request.endpoint.record)
    (differ : s' = { s with db := withoutRecord s.db request.endpoint.record }) :
    SameAnswer s s' (handle hashToken publicOrigin served s request now) (handle hashToken publicOrigin served s' request now) ↔
      ¬ (request.isAdmitted hashToken publicOrigin principal.session = true ∧ IsThreadGeneration s.db request.endpoint.record) := by
  have sameAccounts : s'.accounts = s.accounts := by rw [differ]
  rcases @handle_signedIn hashToken publicOrigin Payload served _ _ _ _ signedIn with
    ⟨refused, error, answer⟩ | ⟨admitted, answer⟩
  · rw [answer s rfl, answer s' sameAccounts, refused]
    simp [SameAnswer, sameAccounts]
  · obtain ⟨error, isError, same⟩ := requireRecord_foreign foreign
    have missing : requireRecord s'.db principal.user.id request.endpoint.record =
        .error (notFound request.endpoint.record) := by
      rw [differ]
      exact requireRecord_missing s.db principal.user.id request.endpoint.record
    rw [answer s rfl, answer s' sameAccounts, isError, missing]
    simp only [SameAnswer, Response.error.injEq, sameAccounts, and_true, admitted, true_and]
    exact same

end

/-! ## Another account's generation -/

/-- Account 1 has a conversation with one generation; account 2 is signed in. -/
def twoAccounts : ApiState :=
  { accounts :=
      { users := [
          { id := 2, username := str "charles", passwordHash := [], credentialVersion := 1,
            counters := { failedLoginCount := 0, loginWindowStartedAt := none, loginLockedUntil := none } }]
        sessions := [
          { id := 10, tokenHash := [7], csrfTokenHash := [8], userId := 2, credentialVersion := 1, expiresAt := 100 }] }
    db := { Db.empty with
      threads := [{ id := 3, ownerId := 1, mode := .translate }]
      generations := [
        { id := 4, threadId := some 3, requesterId := 1, sourceMessageId := none, resultMessageId := none,
          retryOfGenerationId := none, clientRequestId := 5, purpose := .chat, status := .completed, partialBlocks := [],
          streamRevision := 0, errorCode := none, createdAt := 0 }] } }

/-- Requests of account 2. -/
def requestTo (endpoint : Endpoint) : Request :=
  { token := some (str "t"), origin := none, csrfCookie := none, csrfHeader := none, endpoint }

/-- What an endpoint serves does not matter here. -/
def servesNothing (_ : Endpoint) (_ : SessionPrincipal) (s : ApiState) : ApiState × Response Unit := (s, .payload ())

/-- Account 2 asks for a generation of account 1, and for the same one where it does not exist. -/
theorem foreign_generation_told_apart :
    ∃ principal, SignedIn (fun _ => [7]) twoAccounts.accounts (requestTo (.generationSnapshot 4)) 50 principal ∧
      BelongsToAnother twoAccounts.db principal.user.id (.generation 4) ∧
      (handle (fun _ => [7]) [] servesNothing twoAccounts (requestTo (.generationSnapshot 4)) 50).2 =
        .error ⟨404, "thread_not_found", "Conversation not found."⟩ ∧
      (handle (fun _ => [7]) [] servesNothing { twoAccounts with db := withoutRecord twoAccounts.db (.generation 4) }
          (requestTo (.generationSnapshot 4)) 50).2 =
        .error ⟨404, "generation_not_found", "Generation not found."⟩ :=
  ⟨⟨_, _⟩, rfl, ⟨_, rfl, _, rfl, by decide⟩, rfl, rfl⟩

/-- Its conversation answers as a missing one. -/
theorem record_id_private_conversation :
    SameAnswer twoAccounts { twoAccounts with db := withoutRecord twoAccounts.db (.thread 3) }
      (handle (fun _ => [7]) [] servesNothing twoAccounts (requestTo (.threadDetail 3 none)) 50)
      (handle (fun _ => [7]) [] servesNothing { twoAccounts with db := withoutRecord twoAccounts.db (.thread 3) }
        (requestTo (.threadDetail 3 none)) 50) := by
  have signedIn : SignedIn (fun _ => [7]) twoAccounts.accounts (requestTo (.threadDetail 3 none)) 50
      ⟨twoAccounts.accounts.sessions.head (by decide), twoAccounts.accounts.users.head (by decide)⟩ := rfl
  exact (record_id_private_iff signedIn ⟨_, rfl, by decide⟩ rfl).mpr fun told => told.2

end Oveo.Api
