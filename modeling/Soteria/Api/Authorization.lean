import Soteria.Token.Store

/-
  Caller identities, the route table, and the middleware that
  authenticates and authorizes every API request.

  The request names the route pattern the multiplexer matched
  for it. Handlers other than token management do not touch
  the token file and are collapsed into one response.

  Key definitions include:
    * `Identity`
    * `routes`, `routeScope`
    * `authorize`
    * `createToken`, `revokeToken`
    * `authMux`
-/

------------------------------------------------------------
-- Callers and Requests
------------------------------------------------------------

namespace Soteria

namespace Api

/- The authenticated caller: a web user or an API token. -/
structure Identity where
  isUser : Bool
  email : Text
  role : Text
  scopes : List Text
deriving DecidableEq

/- The claims of a bearer JWT that the agent reads. -/
structure JwtClaims where
  exp : Int
  email : Text
  role : Text
  scopes : List Text
deriving DecidableEq

/- The body of `POST /api/tokens`. -/
structure CreateTokenBody where
  name : Text
  scopes : List Text
  expiresInDays : Int
  expiresAt : Int
deriving DecidableEq

/-
  One request. `now` is the clock in nanoseconds since 1970,
  `body` is `none` when it does not decode, and `pathId` is
  the `id` segment of the route.
-/
structure Request where
  path : Text
  authorization : Text
  pattern : Text
  body : Option CreateTokenBody
  pathId : Text
  entropy : Token.Entropy
  now : Int

/- The clock of a request in whole seconds. -/
def Request.unix (r : Request) : Int :=
  r.now / 1000000000

inductive Response where
  | failed (status : Nat) (message : Text)
  | created (secret : Text) (token : Token)
  | listed (tokens : List Token)
  | revoked
  | served

/-
  The server's authentication settings. `signedClaims` stands
  for the decoding and signature check of a JWT against
  whichever of the two methods is configured.
-/
structure Server where
  jwtSecret : Text
  jwks : Bool
  signedClaims : Text → Option JwtClaims
  hashSecret : Text → Text

end Api

end Soteria

------------------------------------------------------------
-- Routes and Scopes
------------------------------------------------------------

namespace Soteria

namespace Api

/- An endpoint with the scope it requires. -/
structure ApiRoute where
  method : Text
  path : Text
  scope : Text

/- The multiplexer pattern of a route. -/
def ApiRoute.pattern (rt : ApiRoute) : Text :=
  rt.method ++ " " ++ rt.path

/- The scoped endpoints of `Server.Handler`. -/
def routes : List ApiRoute := [
  ⟨"GET", "/api/status", "status:read"⟩,
  ⟨"GET", "/api/devices", "devices:read"⟩,
  ⟨"PUT", "/api/devices", "devices:write"⟩,
  ⟨"GET", "/api/device-groups", "device-groups:read"⟩,
  ⟨"PUT", "/api/device-groups", "device-groups:write"⟩,
  ⟨"GET", "/api/users", "users:read"⟩,
  ⟨"PUT", "/api/users", "users:write"⟩,
  ⟨"GET", "/api/groups", "groups:read"⟩,
  ⟨"PUT", "/api/groups", "groups:write"⟩,
  ⟨"GET", "/api/profiles", "profiles:read"⟩,
  ⟨"PUT", "/api/profiles", "profiles:write"⟩,
  ⟨"GET", "/api/rulesets", "rulesets:read"⟩,
  ⟨"PUT", "/api/rulesets", "rulesets:write"⟩,
  ⟨"GET", "/api/logs", "logs:read"⟩,
  ⟨"GET", "/api/dns/zones", "dns:read"⟩,
  ⟨"GET", "/api/dns/zones/{name}", "dns:read"⟩,
  ⟨"POST", "/api/dns/zones", "dns:write"⟩,
  ⟨"DELETE", "/api/dns/zones/{name}", "dns:write"⟩,
  ⟨"PUT", "/api/dns/zones/{name}/records", "dns:write"⟩,
  ⟨"POST", "/api/dns/sot/reverse-zones", "dns:write"⟩,
  ⟨"POST", "/api/dns/zones/{name}/sot-sync", "dns:write"⟩,
  ⟨"GET", "/api/config/logging", "logging:read"⟩,
  ⟨"PUT", "/api/config/logging", "logging:write"⟩,
  ⟨"GET", "/api/config/server-info", "settings:read"⟩,
  ⟨"GET", "/api/config/settings", "settings:read"⟩,
  ⟨"PUT", "/api/config/settings", "settings:write"⟩,
  ⟨"GET", "/api/auth/ldap/health", "settings:read"⟩,
  ⟨"GET", "/api/config/ldap/certs", "settings:read"⟩,
  ⟨"PUT", "/api/config/ldap/certs/{name}",
    "settings:write"⟩,
  ⟨"DELETE", "/api/config/ldap/certs/{name}",
    "settings:write"⟩,
  ⟨"POST", "/api/auth/ldap/mavis-test-connection",
    "settings:read"⟩,
  ⟨"POST", "/api/auth/ldap/mavis-test-user",
    "settings:read"⟩,
  ⟨"POST", "/api/tools/auth-test", "tools:auth-test"⟩,
  ⟨"POST", "/api/tools/authz-test", "tools:authz-test"⟩,
  ⟨"POST", "/api/tools/ping", "tools:ping"⟩,
  ⟨"POST", "/api/tools/trace", "tools:authz-test"⟩,
  ⟨"GET", "/api/staging", "staging:read"⟩,
  ⟨"POST", "/api/staging", "staging:write"⟩,
  ⟨"DELETE", "/api/staging", "staging:write"⟩,
  ⟨"POST", "/api/staging/commit", "staging:commit"⟩,
  ⟨"GET", "/api/staging/diff", "staging:read"⟩,
  ⟨"GET", "/api/config/files", "config:read"⟩,
  ⟨"GET", "/api/config/files/{name...}", "config:read"⟩,
  ⟨"GET", "/api/config/backups", "backups:read"⟩,
  ⟨"POST", "/api/config/backups/{id}/restore",
    "backups:restore"⟩,
  ⟨"GET", "/api/config/backups/{id}/diff", "backups:read"⟩,
  ⟨"PUT", "/api/config/retention", "backups:write"⟩,
  ⟨"GET", "/api/config/golden", "config:read"⟩,
  ⟨"POST", "/api/config/golden/restore", "config:write"⟩,
  ⟨"GET", "/api/config/golden/diff", "config:read"⟩,
  ⟨"POST", "/api/config/validate", "config:write"⟩,
  ⟨"POST", "/api/config/reload", "config:write"⟩]

/-
  `routeScopes[pattern]`: the scope of a route, empty for the
  routes registered outside the table.
-/
def routeScope (pattern : Text) : Text :=
  match routes.find? (fun rt => rt.pattern == pattern) with
  | some rt => rt.scope
  | none => ""

/- `validScopes`: the scopes of the catalog. -/
def validScope (scope : Text) : Bool :=
  routes.any fun rt => rt.scope == scope

end Api

end Soteria

------------------------------------------------------------
-- Authorization
------------------------------------------------------------

namespace Soteria

namespace Api

/- `hasScope`. -/
def hasScope (scopes : List Text) (needed : Text) : Bool :=
  scopes.contains needed

/-
  `authorize`: admins are unrestricted, API tokens and other
  web users are limited to their scopes.
-/
def authorize
    (id : Identity)
    (pattern : Text) : Except (Nat × Text) Unit :=
  if id.role = "admin" then .ok ()
  else
    let needed := routeScope pattern
    if !id.isUser then
      if needed = "" then
        .error (403, "this endpoint is not accessible with an API token")
      else if !hasScope id.scopes needed then
        .error (403, "API token is missing the required scope " ++
          needed.quoted)
      else .ok ()
    else if needed = "" || needed = "status:read" then .ok ()
    else if !hasScope id.scopes needed then
      .error (403, "your access group does not grant the " ++
        needed.quoted ++ " scope")
    else .ok ()

/- `authEnabled`. -/
def Server.authEnabled (s : Server) : Bool :=
  !s.jwtSecret.isEmpty || s.jwks

/- `verifyJWT` at clock reading `unix`. -/
def Server.verifyJWT
    (s : Server)
    (token : Text)
    (unix : Int) : Option JwtClaims :=
  match s.signedClaims token with
  | none => none
  | some claims =>
      if claims.exp ≠ 0 ∧ claims.exp ≤ unix then none
      else some claims

/- The identity `verifyToken` builds from a token record. -/
def tokenIdentity (tok : Token) : Identity :=
  { isUser := false
    email := tok.owner
    role := ""
    scopes := tok.scopes }

/- `verifyToken`, with the token file after it. -/
def Server.verifyToken
    (s : Server)
    (toks : Token.Store)
    (secret : Text)
    (unix : Int) : Option Identity × Token.Store :=
  let (found, toks') :=
    toks.verify s.hashSecret secret unix
  (found.map tokenIdentity, toks')

/- `bearerToken`. -/
def bearerToken (header : Text) : Option Text :=
  if header.hasPrefix "Bearer " then
    some (header.trimPrefix "Bearer ")
  else none

/- `requireUser`. -/
def requireUser
    (caller : Option Identity) : Except Response Identity :=
  match caller with
  | some id =>
      if id.isUser then .ok id
      else .error (.failed 403
        "token management requires a web session, not an API token")
  | none => .error (.failed 403
      "token management requires a web session, not an API token")

/-
  The expiry `createToken` stores. A day count is a 64-bit
  nanosecond duration when it is added to the clock.
-/
def tokenExpiry (body : CreateTokenBody) (now : Int) : Int :=
  if 0 < body.expiresAt then body.expiresAt
  else if 0 < body.expiresInDays then
    (now + Int.bmod (body.expiresInDays * 86400000000000)
      (2 ^ 64)) / 1000000000
  else 0

/- `createToken`. -/
def Server.createToken
    (s : Server)
    (toks : Token.Store)
    (caller : Option Identity)
    (r : Request) : Response × Token.Store :=
  match requireUser caller with
  | .error response => (response, toks)
  | .ok id =>
      match r.body with
      | none =>
          (.failed 400 "invalid request body", toks)
      | some body =>
          match body.scopes.find? (fun sc => !validScope sc) with
          | some sc =>
              (.failed 400 ("unknown scope " ++ sc.quoted), toks)
          | none =>
              match toks.create s.hashSecret r.entropy r.unix
                  body.name id.email body.scopes
                  (tokenExpiry body r.now) with
              | .error message => (.failed 400 message, toks)
              | .ok (secret, tok, toks') =>
                  (.created secret tok, toks')

/- `revokeToken`. -/
def revokeToken
    (toks : Token.Store)
    (caller : Option Identity)
    (r : Request) : Response × Token.Store :=
  match requireUser caller with
  | .error response => (response, toks)
  | .ok id =>
      match toks.revoke r.pathId id.email
          (id.role == ("admin" : Text)) with
      | .error message => (.failed 404 message, toks)
      | .ok toks' => (.revoked, toks')

/- `listTokens`. -/
def listTokens
    (toks : Token.Store)
    (caller : Option Identity) : Response :=
  match requireUser caller with
  | .error response => response
  | .ok id =>
      .listed (toks.list id.email (id.role == ("admin" : Text)))

/- The handler the multiplexer runs for the request. -/
def Server.serve
    (s : Server)
    (toks : Token.Store)
    (caller : Option Identity)
    (r : Request) : Response × Token.Store :=
  if r.pattern = "POST /api/tokens" then
    s.createToken toks caller r
  else if r.pattern = "DELETE /api/tokens/{id}" then
    revokeToken toks caller r
  else if r.pattern = "GET /api/tokens" then
    (listTokens toks caller, toks)
  else (.served, toks)

/-
  The identity of a bearer, and the token file after finding
  it: an API token by its marker, a web session otherwise.
-/
def Server.authenticate
    (s : Server)
    (toks : Token.Store)
    (bearer : Text)
    (unix : Int) : Option Identity × Token.Store :=
  if bearer.hasPrefix Token.tokenPrefix then
    s.verifyToken toks bearer unix
  else
    ((s.verifyJWT bearer unix).map fun claims =>
      { isUser := true
        email := claims.email
        role := claims.role
        scopes := claims.scopes }, toks)

/- The caller of lab mode. -/
def localAdmin : Identity :=
  { isUser := true
    email := "local"
    role := "admin"
    scopes := [] }

/-
  `authMux`: the identity the handler ran under (none where
  it did not run, or ran without one), the response and the
  token file after the request.
-/
def Server.authMux
    (s : Server)
    (toks : Token.Store)
    (r : Request) : Option Identity × Response × Token.Store :=
  if r.path = "/ready" || r.path = "/api/auth/ldap/login" then
    (none, s.serve toks none r)
  else if !s.authEnabled then
    (some localAdmin, s.serve toks (some localAdmin) r)
  else
    match bearerToken r.authorization with
    | none => (none, .failed 401 "missing bearer token", toks)
    | some bearer =>
        match s.authenticate toks bearer r.unix with
        | (none, toks') =>
            (none, .failed 401
              (if bearer.hasPrefix Token.tokenPrefix then
                "invalid or expired API token"
              else "invalid bearer token"), toks')
        | (some id, toks') =>
            match authorize id r.pattern with
            | .error (status, message) =>
                (none, .failed status message, toks')
            | .ok () => (some id, s.serve toks' (some id) r)

end Api

end Soteria
