import Soteria.Foundation.Transition
import Soteria.Api.Authorization

/-
  What API tokens may do compared with their creators, over
  whole runs of requests.

  `createToken` checks that the requested scopes exist, not
  that the caller holds them, and `authorize` lets every web
  session reach it. A token therefore stays within its
  creator's scopes exactly as far as every creation request
  does.

  Main declarations:
    * `authMux_cases`
    * `noEscalation_of_run`
    * `anon_session_escalates`
    * `verify_of_created`
-/

------------------------------------------------------------
-- Runs of Requests
------------------------------------------------------------

namespace Soteria

namespace Api

open Transition

/- A served request, its caller and its response. -/
structure Event where
  request : Request
  caller : Option Identity
  response : Response

/- One request handled by the middleware. -/
def Server.Serves
    (s : Server)
    (toks : Token.Store)
    (event : Event)
    (toks' : Token.Store) : Prop :=
  s.authMux toks event.request =
    (event.caller, event.response, toks')

/- `creator` created a token of this grant in these events. -/
def CreatedBy
    (events : List Event)
    (creator : Identity)
    (tok : Token) : Prop :=
  ∃ event ∈ events, event.caller = some creator ∧
    ∃ secret created,
      event.response = .created secret created ∧
        created.SameGrant tok

/-
  Every token the file accepts was created in the run, and
  whatever route it is authorized for, each of its creators
  was an admin or held the scope of that route.
-/
def NoEscalation
    (s : Server)
    (events : List Event)
    (toks : Token.Store) : Prop :=
  ∀ secret unix pattern tok,
    (toks.verify s.hashSecret secret unix).1 = some tok →
    authorize (tokenIdentity tok) pattern = .ok () →
      (∃ creator, CreatedBy events creator tok) ∧
      ∀ creator, CreatedBy events creator tok →
        creator.role = "admin" ∨
          routeScope pattern ∈ creator.scopes

/-
  The caller of a token creation is an admin or holds every
  scope it asks for.
-/
def CreatesWithinScopes
    (_ : Token.Store)
    (event : Event) : Prop :=
  ∀ id body,
    event.caller = some id →
    event.request.pattern = "POST /api/tokens" →
    event.request.body = some body →
      id.role = "admin" ∨
        ∀ scope ∈ body.scopes, scope ∈ id.scopes

end Api

end Soteria

------------------------------------------------------------
-- What One Request Does to the Token File
------------------------------------------------------------

namespace Soteria

namespace Api

open Transition

variable {s : Server}
variable {toks toks' : Token.Store}
variable {r : Request}
variable {caller : Option Identity}
variable {response : Response}

/- Every record of `toks'` renews a record of `toks`. -/
def Renews (toks toks' : Token.Store) : Prop :=
  ∀ t ∈ toks', ∃ u ∈ toks, u.SameGrant t

theorem Renews.refl (toks : Token.Store) :
    Renews toks toks :=
  fun t ht => ⟨t, ht, .refl t⟩

theorem Renews.trans
    {toks'' : Token.Store}
    (hFirst : Renews toks toks')
    (hSecond : Renews toks' toks'') :
    Renews toks toks'' := by
  intro t ht
  rcases hSecond t ht with ⟨u, hu, hSame⟩
  rcases hFirst u hu with ⟨v, hv, hSame'⟩
  exact ⟨v, hv, hSame'.trans hSame⟩

/- The response reports a created token. -/
def Response.IsCreated : Response → Prop
| .created _ _ => True
| _ => False

/-
  A request either renews the records it found and creates
  nothing, or is a creation by its caller, which adds one
  record with the scopes of the request body.
-/
def TokenStep
    (toks : Token.Store)
    (r : Request)
    (caller : Option Identity)
    (response : Response)
    (toks' : Token.Store) : Prop :=
  (Renews toks toks' ∧ ¬ response.IsCreated) ∨
    ∃ id body secret tok,
      caller = some id ∧
      r.pattern = "POST /api/tokens" ∧
      r.body = some body ∧
      response = .created secret tok.toPublic ∧
      tok.scopes = body.scopes ∧
      (∀ t ∈ toks', t = tok ∨ ∃ u ∈ toks, u.SameGrant t)

theorem TokenStep.of_renews
    {toks'' : Token.Store}
    (hStep : TokenStep toks' r caller response toks'')
    (hRenews : Renews toks toks') :
    TokenStep toks r caller response toks'' := by
  rcases hStep with
    ⟨hKeep, hNone⟩ |
    ⟨id, body, secret, tok, hCaller, hPattern, hBody,
      hResponse, hScopes, hMembers⟩
  · exact Or.inl ⟨hRenews.trans hKeep, hNone⟩
  · refine Or.inr ⟨id, body, secret, tok, hCaller, hPattern,
      hBody, hResponse, hScopes, ?_⟩
    intro t ht
    rcases hMembers t ht with hNew | ⟨u, hu, hSame⟩
    · exact Or.inl hNew
    · rcases hRenews u hu with ⟨v, hv, hSame'⟩
      exact Or.inr ⟨v, hv, hSame'.trans hSame⟩

theorem requireUser_error
    (hError : requireUser caller = .error response) :
    ¬ response.IsCreated := by
  unfold requireUser at hError
  split at hError
  · split at hError
    · cases hError
    · cases hError
      exact id
  · cases hError
    exact id

theorem requireUser_ok
    {id : Identity}
    (hUser : requireUser caller = .ok id) :
    caller = some id := by
  unfold requireUser at hUser
  split at hUser
  · split at hUser
    · simpa using hUser
    · cases hUser
  · cases hUser

theorem createToken_cases
    (hPattern : r.pattern = "POST /api/tokens")
    (hCreate :
      s.createToken toks caller r = (response, toks')) :
    TokenStep toks r caller response toks' := by
  unfold Server.createToken at hCreate
  split at hCreate
  · rename_i hUser
    cases hCreate
    exact Or.inl ⟨.refl toks, requireUser_error hUser⟩
  · rename_i id hUser
    split at hCreate
    · cases hCreate
      exact Or.inl ⟨.refl toks, not_false⟩
    · rename_i body hBody
      split at hCreate
      · cases hCreate
        exact Or.inl ⟨.refl toks, not_false⟩
      · split at hCreate
        · cases hCreate
          exact Or.inl ⟨.refl toks, not_false⟩
        · rename_i secret pub toks'' hStore
          cases hCreate
          rcases Token.Store.create_ok hStore with
            ⟨_, hScopes, _, _, _, _, tok, rfl, rfl, _⟩
          refine Or.inr ⟨id, body, secret, tok,
            requireUser_ok hUser, hPattern, hBody, rfl,
            hScopes, ?_⟩
          intro t ht
          rcases List.mem_append.mp ht with hOld | hNew
          · exact Or.inr ⟨t, hOld, .refl t⟩
          · exact Or.inl (List.mem_singleton.mp hNew)

theorem revokeToken_cases
    (hRevoke :
      revokeToken toks caller r = (response, toks')) :
    Renews toks toks' ∧ ¬ response.IsCreated := by
  unfold revokeToken at hRevoke
  split at hRevoke
  · rename_i hUser
    cases hRevoke
    exact ⟨.refl toks, requireUser_error hUser⟩
  · split at hRevoke
    · cases hRevoke
      exact ⟨.refl toks, not_false⟩
    · rename_i hStore
      cases hRevoke
      refine ⟨fun t ht => ⟨t, ?_, .refl t⟩, not_false⟩
      exact Token.Store.mem_of_mem_revoke hStore ht

theorem listTokens_not_created :
    ¬ (listTokens toks caller).IsCreated := by
  unfold listTokens
  split
  · rename_i hUser
    exact requireUser_error hUser
  · exact id

theorem serve_cases
    (hServe : s.serve toks caller r = (response, toks')) :
    TokenStep toks r caller response toks' := by
  unfold Server.serve at hServe
  split at hServe
  · rename_i hPattern
    exact createToken_cases hPattern hServe
  · split at hServe
    · exact Or.inl (revokeToken_cases hServe)
    · split at hServe
      · cases hServe
        exact Or.inl ⟨.refl toks, listTokens_not_created⟩
      · cases hServe
        exact Or.inl ⟨.refl toks, not_false⟩

theorem authenticate_renews
    {bearer : Text}
    {unix : Int}
    {id : Option Identity}
    (hAuth : s.authenticate toks bearer unix = (id, toks')) :
    Renews toks toks' := by
  unfold Server.authenticate at hAuth
  split at hAuth
  · unfold Server.verifyToken at hAuth
    cases hAuth
    exact fun t ht =>
      Token.Store.exists_sameGrant_of_mem_verify ht
  · cases hAuth
    exact .refl toks

/- The middleware adds nothing to what the handler does. -/
theorem authMux_cases
    (hServes :
      s.authMux toks r = (caller, response, toks')) :
    TokenStep toks r caller response toks' := by
  unfold Server.authMux at hServes
  split at hServes
  · rcases Prod.mk.inj hServes with ⟨rfl, hServe⟩
    exact serve_cases hServe
  · split at hServes
    · rcases Prod.mk.inj hServes with ⟨rfl, hServe⟩
      exact serve_cases hServe
    · split at hServes
      · cases hServes
        exact Or.inl ⟨.refl toks, not_false⟩
      · split at hServes
        · rename_i hAuth
          cases hServes
          exact Or.inl ⟨authenticate_renews hAuth, not_false⟩
        · rename_i id toksAuth hAuth
          have hRenews := authenticate_renews hAuth
          split at hServes
          · cases hServes
            exact Or.inl ⟨hRenews, not_false⟩
          · rcases Prod.mk.inj hServes with ⟨rfl, hServe⟩
            exact (serve_cases hServe).of_renews hRenews

end Api

end Soteria

------------------------------------------------------------
-- Tokens Stay Within Their Creators' Scopes
------------------------------------------------------------

namespace Soteria

namespace Api

open Transition

variable {s : Server}
variable {events : List Event}
variable {toks : Token.Store}

/-
  The invariant of a guarded run: every record was created
  in it, and no creation went beyond its caller's scopes.
-/
def CreatedWithin
    (events : List Event)
    (toks : Token.Store) : Prop :=
  (∀ t ∈ toks, ∃ creator, CreatedBy events creator t) ∧
    ∀ creator tok, CreatedBy events creator tok →
      creator.role = "admin" ∨
        ∀ scope ∈ tok.scopes, scope ∈ creator.scopes

theorem createdWithin_step
    {event : Event}
    {toks' : Token.Store}
    (hWithin : CreatedWithin events toks)
    (hStep :
      Guarded CreatesWithinScopes s.Serves toks event toks') :
    CreatedWithin (events ++ [event]) toks' := by
  rcases hStep with ⟨hGuard, hServes⟩
  rcases hWithin with ⟨hOrigin, hScopes⟩
  have hRenewed :
      ∀ {t u : Token}, u ∈ toks → u.SameGrant t →
        ∃ creator,
          CreatedBy (events ++ [event]) creator t := by
    intro t u hu hSame
    rcases hOrigin u hu with ⟨creator, hCreated⟩
    rcases hCreated with
      ⟨earlier, hEarlier, hCaller, secret, created,
        hResponse, hSame'⟩
    exact ⟨creator, earlier, List.mem_append_left _ hEarlier,
      hCaller, secret, created, hResponse,
      hSame'.trans hSame⟩
  rcases authMux_cases hServes with
    ⟨hRenews, hNone⟩ |
    ⟨id, body, secret, tok, hCaller, hPattern, hBody,
      hResponse, hTokScopes, hMembers⟩
  · refine ⟨?_, ?_⟩
    · intro t ht
      rcases hRenews t ht with ⟨u, hu, hSame⟩
      exact hRenewed hu hSame
    · rintro creator t
        ⟨other, hOther, hBy, secret, created, hMade, hSame⟩
      rcases List.mem_append.mp hOther with hOld | hNew
      · exact hScopes creator t
          ⟨other, hOld, hBy, secret, created, hMade, hSame⟩
      · rw [List.mem_singleton.mp hNew] at hMade
        simp [hMade, Response.IsCreated] at hNone
  · refine ⟨?_, ?_⟩
    · intro t ht
      rcases hMembers t ht with rfl | ⟨u, hu, hSame⟩
      · exact ⟨id, event, by simp, hCaller, secret, _,
          hResponse, (Token.sameGrant_toPublic t).symm⟩
      · exact hRenewed hu hSame
    · rintro creator t
        ⟨other, hOther, hBy, secret', created, hMade, hSame⟩
      rcases List.mem_append.mp hOther with hOld | hNew
      · exact hScopes creator t
          ⟨other, hOld, hBy, secret', created, hMade, hSame⟩
      · rw [List.mem_singleton.mp hNew] at hBy hMade
        rw [hResponse] at hMade
        cases hMade
        have hId : id = creator := by
          simpa [hCaller] using hBy
        rw [← hSame.scopes_eq]
        have hWithinBody := hGuard id body hCaller hPattern hBody
        rw [← hTokScopes] at hWithinBody
        exact hId ▸ hWithinBody

theorem createdWithin_run
    (hRun :
      Run (Guarded CreatesWithinScopes s.Serves)
        [] events toks) :
    CreatedWithin events toks := by
  refine hRun.history_invariant
    (fun _ _ _ _ hWithin hStep =>
      createdWithin_step hWithin hStep) ?_
  refine ⟨by simp, ?_⟩
  rintro creator tok ⟨event, hEvent, _⟩
  cases hEvent

/- What an API token is authorized for is among its scopes. -/
theorem authorize_tokenIdentity
    {tok : Token}
    {pattern : Text}
    (hAuthorized :
      authorize (tokenIdentity tok) pattern = .ok ()) :
    routeScope pattern ∈ tok.scopes := by
  unfold authorize at hAuthorized
  generalize routeScope pattern = needed at hAuthorized ⊢
  have hRole : (tokenIdentity tok).role ≠ "admin" := by
    simp [tokenIdentity]
  rw [if_neg hRole] at hAuthorized
  by_contra hMissing
  have hHas : hasScope tok.scopes needed = false := by
    simpa [hasScope] using hMissing
  simp only [tokenIdentity, hHas, Bool.not_false, if_true]
    at hAuthorized
  split at hAuthorized <;> cases hAuthorized

/-
  In every run whose token creations stay within the scopes
  of their callers, no token reaches beyond its creator.
-/
theorem noEscalation_of_run
    (hRun :
      Run (Guarded CreatesWithinScopes s.Serves)
        [] events toks) :
    NoEscalation s events toks := by
  rcases createdWithin_run hRun with ⟨hOrigin, hScopes⟩
  intro secret unix pattern tok hVerify hAuthorized
  have hNeeded := authorize_tokenIdentity hAuthorized
  constructor
  · rcases Token.Store.exists_sameGrant_of_verify hVerify with
      ⟨u, hu, hSame, _⟩
    rcases hOrigin u hu with
      ⟨creator, event, hEvent, hCaller, secret', created,
        hResponse, hSame'⟩
    exact ⟨creator, event, hEvent, hCaller, secret', created,
      hResponse, hSame'.trans hSame⟩
  · intro creator hCreated
    rcases hScopes creator tok hCreated with hAdmin | hHeld
    · exact Or.inl hAdmin
    · exact Or.inr (hHeld _ hNeeded)

/- An administrator's session that creates one token. -/
def adminServer : Server :=
  { jwtSecret := "k"
    jwks := false
    signedClaims := fun token =>
      if token = "jwt" then some ⟨0, "root", "admin", []⟩
      else none
    hashSecret := id }

def adminRequest : Request :=
  { path := "/api/tokens"
    authorization := "Bearer jwt"
    pattern := "POST /api/tokens"
    body := some ⟨"ci", ["config:write"], 0, 0⟩
    pathId := ""
    entropy := ⟨"1", "abcdefgh"⟩
    now := 0 }

def adminEvent : Event :=
  { request := adminRequest
    caller := (adminServer.authMux [] adminRequest).1
    response := (adminServer.authMux [] adminRequest).2.1 }

theorem noEscalation_admin :
    NoEscalation adminServer [adminEvent]
      (adminServer.authMux [] adminRequest).2.2 := by
  refine noEscalation_of_run (.single ⟨?_, rfl⟩)
  intro id body hCaller _ _
  have hId : some id =
      some ⟨true, "root", "admin", []⟩ :=
    hCaller.symm.trans (by decide)
  exact Or.inl (by rw [Option.some.inj hId])

end Api

end Soteria

------------------------------------------------------------
-- A Session Without Scopes Mints Any Scope
------------------------------------------------------------

namespace Soteria

namespace Api

open Transition

variable {s : Server}
variable {toks toks' : Token.Store}

theorem authorize_of_mem_scopes
    {tok : Token}
    {pattern : Text}
    (hScope : routeScope pattern ∈ tok.scopes)
    (hNeeded : routeScope pattern ≠ "") :
    authorize (tokenIdentity tok) pattern = .ok () := by
  unfold authorize
  generalize routeScope pattern = needed at hScope hNeeded ⊢
  have hRole : (tokenIdentity tok).role ≠ "admin" := by
    simp [tokenIdentity]
  have hHas : hasScope tok.scopes needed = true := by
    simpa [hasScope] using hScope
  rw [if_neg hRole]
  simp only [if_neg hNeeded, tokenIdentity, hHas,
    Bool.not_false, Bool.not_true, if_true,
    Bool.false_eq_true, if_false]

/-
  Whatever its creator may do, a created token is authorized
  for every route whose scope it asked for, until it expires.
-/
theorem createToken_grants
    {r : Request}
    {caller : Option Identity}
    {secret pattern : Text}
    {tok : Token}
    {unix : Int}
    (hCreate :
      s.createToken toks caller r =
        (.created secret tok, toks'))
    (hFresh : ∀ t ∈ toks, t.hash ≠ s.hashSecret secret)
    (hLive : tok.expired unix = false)
    (hScope : routeScope pattern ∈ tok.scopes)
    (hNeeded : routeScope pattern ≠ "") :
    ∃ t, (toks'.verify s.hashSecret secret unix).1 = some t ∧
      authorize (tokenIdentity t) pattern = .ok () := by
  have hStored :
      ∃ stored, toks' = toks ++ [stored] ∧
        stored.toPublic = tok ∧
        stored.hash = s.hashSecret secret ∧
        tok.revoked = false := by
    unfold Server.createToken at hCreate
    split at hCreate
    · rename_i hUser
      cases hCreate
      exact (requireUser_error hUser trivial).elim
    · split at hCreate
      · cases hCreate
      · split at hCreate
        · cases hCreate
        · split at hCreate
          · cases hCreate
          · rename_i hStore
            cases hCreate
            rcases Token.Store.create_ok hStore with
              ⟨_, _, _, _, hRevoked, _, stored, hEq,
                hPublic, hHash⟩
            exact ⟨stored, hEq, hPublic, hHash, hRevoked⟩
  rcases hStored with ⟨stored, rfl, rfl, hHash, hRevoked⟩
  have hStoredLive : stored.expired unix = false := hLive
  rcases Token.Store.verify_append_fresh hFresh hHash
      hRevoked hStoredLive with
    ⟨t, hVerify, hSame⟩
  refine ⟨t, hVerify, ?_⟩
  refine authorize_of_mem_scopes ?_ hNeeded
  rw [← hSame.scopes_eq]
  exact hScope

/-
  The public anon key: a validly signed JWT with neither a
  role nor scopes.
-/
def anonServer : Server :=
  { adminServer with
    signedClaims := fun token =>
      if token = "anon" then some ⟨0, "", "", []⟩ else none }

def anonRequest : Request :=
  { adminRequest with authorization := "Bearer anon" }

def anonEvent : Event :=
  { request := anonRequest
    caller := (anonServer.authMux [] anonRequest).1
    response := (anonServer.authMux [] anonRequest).2.1 }

/- It mints a token that may signal a configuration reload. -/
theorem anon_session_escalates :
    ∃ s events toks,
      Run (Server.Serves s) [] events toks ∧
        ¬ NoEscalation s events toks := by
  refine ⟨anonServer, [anonEvent],
    (anonServer.authMux [] anonRequest).2.2, .single rfl, ?_⟩
  intro hNone
  have hCreator : anonEvent.caller = some ⟨true, "", "", []⟩ :=
    by decide
  have hScope : routeScope "POST /api/config/reload" ∉
      ([] : List Text) := by simp
  rcases (hNone "sot_abcdefgh" 0 "POST /api/config/reload"
      _ rfl (by decide)).2 ⟨true, "", "", []⟩
      ⟨anonEvent, by simp, hCreator, _, _, rfl, by decide⟩ with
    hAdmin | hHeld
  · revert hAdmin
    decide
  · exact hScope hHeld

end Api

end Soteria
