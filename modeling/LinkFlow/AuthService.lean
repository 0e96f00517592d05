/-
Logins, refreshes and revocations (`auth/app/service/service.go`), the session
repository under them and the middleware that checks access tokens
(`pkg/middleware/auth/jwt_middleware.go`).

Three places know of a token: the session rows, the Redis keys `blacklist:` for access
tokens and the Redis keys `blacklist:refresh:` for refresh tokens that were used. Redis
and the database answer without errors, so a lookup fails only for want of a record. The
repository's queries for a session are by its token.

A call reads the clock several times. `Env` holds the readings of one call, in their
order, together with the UUIDs it draws and the order in which `range` goes through a
map of permissions. Events and logs are left out.
-/
import LinkFlow.JwtRuns
import LinkFlow.Lib.Expiring

set_option autoImplicit false

namespace LinkFlow.Auth

open Jwt (Library Manager Claims hour)

/-! ## Records -/

structure Permission where
  (resource action : String)
deriving DecidableEq, Repr

structure Role where
  name : String
  permissions : List Permission
deriving DecidableEq, Repr

/-- The `Status…` constants. -/
inductive Status
  | active | inactive | suspended | deleted
deriving DecidableEq, Repr

structure User where
  (id email password : String)
  emailVerified : Bool
  status : Status
  roles : List Role
  lastLoginAt : Option ℤ := none
deriving DecidableEq, Repr

structure Session (Tok : Type) where
  (id userID : String)
  (token refreshToken : Tok)
  (ipAddress userAgent : String)
  (expiresAt createdAt : ℤ)
deriving DecidableEq

structure Tokens (Tok : Type) where
  (accessToken refreshToken : Tok)
  expiresIn : ℕ
deriving DecidableEq

/-- The RBAC enforcer: what `GetRoles` and `GetPermissions` answer. -/
structure Rbac where
  getRoles : String → List String
  getPermissions : String → List (List String)

/-- The keys the service uses in Redis. -/
inductive RedisKey (Tok : Type)
  | blacklist (token : Tok)
  | blacklistRefresh (token : Tok)
  | lockout (email : String)
  | failedAttempts (email : String)
deriving DecidableEq

abbrev Redis (Tok : Type) := Expiring.Store (RedisKey Tok) ℕ ℤ

structure State (Tok : Type) where
  users : List User
  rbac : Option Rbac
  sessions : List (Session Tok)
  redis : Redis Tok

/-- What one call takes from its surroundings. -/
structure Env where
  now : ℕ → ℤ
  finish : ℤ
  mono : ∀ i j, i ≤ j → now i ≤ now j
  le_finish : ∀ i, now i ≤ finish
  uuid : ℕ → String
  range : List String → List String
  range_perm : ∀ l, (range l).Perm l

/-- The fixed parts of the service; `compareHash` is bcrypt's comparison. -/
structure Service (Tok Priv Pub : Type) where
  lib : Library Tok Priv Pub
  jwtManager : Manager Priv Pub
  compareHash : String → String → Bool

/-- A text of the service's own, or one that wraps an error of the token manager. -/
inductive Error
  | text (message : String)
  | wrapped (message : String) (err : Jwt.Error)
deriving DecidableEq, Repr

/-- Lifetimes of the service's records and Redis keys. -/
def day : ℤ := 24 * hour
def week : ℤ := 7 * day
def quarter : ℤ := 900 * Jwt.second

/-! ## Users -/

def User.getRoleNames (u : User) : List String := u.roles.map Role.name

/-- The keys of a map, in the order of its `range` -/
def User.getPermissions (u : User) (env : Env) : List String :=
  env.range <| List.dedup <|
    (u.roles.flatMap Role.permissions).map fun p => p.resource ++ ":" ++ p.action

/-- The roles of a user: from RBAC if it has any for them, from the database otherwise. -/
def rolesOf (rbac : Option Rbac) (u : User) : List String :=
  match rbac with
  | some rbac => if rbac.getRoles u.id = [] then u.getRoleNames else rbac.getRoles u.id
  | none => u.getRoleNames

/-- The permissions that `Login` asks RBAC for; an entry is a subject, a resource and an
action. -/
def rbacPermissions (rbac : Rbac) (roles : List String) : List String :=
  roles.flatMap fun role =>
    (rbac.getPermissions role).filterMap fun perm =>
      match perm with
      | _ :: resource :: action :: _ => some (resource ++ ":" ++ action)
      | _ => none

def permissionsOf (env : Env) (rbac : Option Rbac) (u : User) (roles : List String) : List String :=
  match rbac with
  | some rbac =>
    if rbacPermissions rbac roles = [] then u.getPermissions env else rbacPermissions rbac roles
  | none => u.getPermissions env

/-! ## The service -/

section Service

variable {Tok Priv Pub : Type} [DecidableEq Tok] (svc : Service Tok Priv Pub) (env : Env)

/-- `trackFailedLogin`, after the one clock reading of `Login` -/
def trackFailedLogin (s : State Tok) (email : String) : State Tok :=
  let (attempts, redis) := s.redis.incr (env.now 1) (.failedAttempts email)
  -- only the first attempt of a series sets the time to live
  let redis :=
    if attempts = 1 then redis.expire (env.now 2) (.failedAttempts email) (env.now 2 + quarter)
    else redis
  let redis := if attempts ≥ 5 then redis.set (.lockout email) 1 (env.now 3 + quarter) else redis
  { s with redis }

def updateUser (users : List User) (u : User) : List User :=
  users.map fun v => if v.id = u.id then u else v

/-- The two tokens that a login and a refresh make, from clock reading `i` on. -/
def makeTokens (i : ℕ) (u : User) (roles permissions : List String) : Except Error (Tokens Tok) :=
  match svc.jwtManager.generateToken svc.lib ⟨env.now i, env.now (i + 1), env.uuid 0⟩
      ⟨u.id, u.email, roles, permissions⟩ with
  | .error err => .error (.wrapped "failed to generate access token" err)
  | .ok accessToken =>
    match svc.jwtManager.generateRefreshToken svc.lib
        ⟨env.now (i + 2), env.now (i + 3), env.uuid 1⟩ u.id with
    | .error err => .error (.wrapped "failed to generate refresh token" err)
    | .ok refreshToken => .ok ⟨accessToken, refreshToken, 900⟩

def login (s : State Tok) (email password ipAddress userAgent : String) :
    Except Error (Tokens Tok × User) × State Tok :=
  if s.redis.has (env.now 0) (.lockout email) then
    (.error (.text "account is temporarily locked due to too many failed login attempts"), s)
  else
    match s.users.find? (·.email = email) with
    | none => (.error (.text "invalid credentials"), trackFailedLogin env s email)
    | some u =>
      if svc.compareHash u.password password = false then
        (.error (.text "invalid credentials"), trackFailedLogin env s email)
      else
        -- a right password clears the counter, also of an account that may not log in
        let s := { s with redis := s.redis.del (.failedAttempts email) }
        if u.emailVerified = false then (.error (.text "email not verified"), s)
        else if u.status ≠ .active then (.error (.text "account is not active"), s)
        else
          let roles := rolesOf s.rbac u
          match makeTokens svc env 1 u roles (permissionsOf env s.rbac u roles) with
          | .error err => (.error err, s)
          | .ok tokens =>
            -- a session lasts a week, whatever the life of its tokens
            let session : Session Tok :=
              { id := env.uuid 2, userID := u.id, token := tokens.accessToken,
                refreshToken := tokens.refreshToken, ipAddress, userAgent,
                expiresAt := env.now 5 + week, createdAt := env.now 6 }
            let u := { u with lastLoginAt := some (env.now 7) }
            (.ok (tokens, u),
              { s with sessions := s.sessions ++ [session], users := updateUser s.users u })

def refreshToken (s : State Tok) (token : Tok) : Except Error (Tokens Tok) × State Tok :=
  if s.redis.has (env.now 0) (.blacklistRefresh token) then
    (.error (.text "refresh token has already been used"), s)
  else
    match svc.jwtManager.validateRefreshToken svc.lib (env.now 1) token with
    | .error _ => (.error (.text "invalid refresh token"), s)
    | .ok userID =>
      match s.users.find? (·.id = userID) with
      | none => (.error (.text "user not found"), s)
      | some u =>
        if u.status ≠ .active then (.error (.text "account is not active"), s)
        else
          match makeTokens svc env 2 u (rolesOf s.rbac u) (u.getPermissions env) with
          | .error err => (.error err, s)
          | .ok tokens =>
            -- the old token's key is written; the new tokens get no session
            (.ok tokens,
              { s with redis :=
                  s.redis.set (.blacklistRefresh token) 1 (env.now 6 + week) })

def logout (s : State Tok) (token : Tok) : State Tok :=
  { s with
    sessions := s.sessions.filter (·.token ≠ token),
    redis := s.redis.set (.blacklist token) 1 (env.now 0 + day) }

/-- The Redis writes of `RevokeSession` and `RevokeAllSessions` for one session. -/
def blacklistSession (redis : Redis Tok) (session : Session Tok) (now : ℤ) : Redis Tok :=
  if svc.lib.isEmpty session.token then redis
  else redis.set (.blacklist session.token) 1 (now + day)

def revokeSession (s : State Tok) (userID sessionID : String) : Except Error Unit × State Tok :=
  match s.sessions.find? (·.id = sessionID) with
  | none => (.error (.text "session not found"), s)
  | some session =>
    if session.userID ≠ userID then
      (.error (.text "unauthorized: session does not belong to user"), s)
    else
      (.ok (), { s with
          redis := blacklistSession svc s.redis session (env.now 0),
          sessions := s.sessions.filter (·.id ≠ sessionID) })

/-- `GetUserSessions` of the repository -/
def getUserSessions (sessions : List (Session Tok)) (userID : String) (now : ℤ) :
    List (Session Tok) :=
  (sessions.filter fun row => row.userID = userID ∧ now < row.expiresAt).insertionSort
    fun a b => b.createdAt ≤ a.createdAt

/-- Each write of the loop has its own time. -/
def revokeAllSessions (s : State Tok) (userID : String) : Except Error Unit × State Tok :=
  let rows := getUserSessions s.sessions userID (env.now 0)
  (.ok (), { s with
      -- access tokens only: the rows' refresh tokens are not looked at
      redis := rows.zipIdx.foldl
        (fun redis (row, i) => blacklistSession svc redis row (env.now (i + 1))) s.redis
      sessions := s.sessions.filter (·.userID ≠ userID) })

def validateSession (s : State Tok) (token : Tok) : Except Error (Session Tok) × State Tok :=
  if s.redis.has (env.now 0) (.blacklist token) then (.error (.text "session has been revoked"), s)
  else
    match s.sessions.find? (·.token = token) with
    | none => (.error (.text "invalid session"), s)
    | some session =>
      -- the row's own week decides, not the expiry in the token
      if session.expiresAt < env.now 1 then
        (.error (.text "session expired"),
          { s with sessions := s.sessions.filter (·.token ≠ token) })
      else (.ok session, s)

/-! ## The middleware -/

/-- The `Authorization` header of a request. -/
inductive AuthHeader (Tok : Type)
  | absent
  | otherScheme
  | bearer (token : Tok)

/-- What the middleware does with a request: pass it on, with the claims it puts into the
context, or answer it. -/
inductive Verdict (Tok : Type)
  | next (context : Option (Claims × Tok))
  | unauthorized (message : String)
deriving DecidableEq

def skipPaths : List String :=
  ["/health", "/ready", "/metrics", "/api/v1/auth/login", "/api/v1/auth/register",
    "/api/v1/auth/refresh", "/api/v1/auth/verify-email", "/api/v1/auth/forgot-password",
    "/api/v1/auth/reset-password", "/api/v1/auth/oauth"]

/-- `redis` is nil when the middleware was made without one. -/
def handle (redis : Option (Redis Tok)) (path : String) (header : AuthHeader Tok) : Verdict Tok :=
  if skipPaths.any (·.toList.isPrefixOf path.toList) then .next none
  else
    match header with
    | .absent => .unauthorized "authorization header required"
    | .otherScheme => .unauthorized "invalid authorization header format"
    | .bearer token =>
      -- the access blacklist, under the very string; nothing is asked of the sessions
      if redis.any (·.has (env.now 0) (.blacklist token)) then
        .unauthorized "token has been revoked"
      else
        match svc.jwtManager.validateToken svc.lib (env.now 1) token with
        | .error _ => .unauthorized "invalid or expired token"
        | .ok claims => .next (some (claims, token))

end Service

/-! ## An access token in the place of a refresh token -/

/-- A call at one instant that draws its UUIDs from `id`. -/
def envAt (t : ℤ) (id : String) : Env where
  now _ := t
  finish := t
  mono _ _ _ := le_refl t
  le_finish _ := le_refl t
  uuid i := if i = 0 then id ++ "a" else if i = 1 then id ++ "r" else id ++ "s"
  range l := l
  range_perm l := List.Perm.refl l

/-- The service with the development manager; passwords are stored as they are. -/
def devService : Service Jwt.Symbol String String :=
  ⟨Jwt.symbols, Jwt.devManager, fun hash password => hash = password⟩

/-- One active user. -/
def devState : State Jwt.Symbol where
  users := [{ id := "u", email := "u@x", password := "pw", emailVerified := true,
              status := .active, roles := [] }]
  rbac := none
  sessions := []
  redis := ∅

/-- The tokens of a login at time 0. -/
def devTokens : Tokens Jwt.Symbol :=
  ⟨Jwt.devSigned (Jwt.devManager.claimsOf ⟨0, 0, "1a"⟩ ⟨"u", "u@x", [], []⟩).payload,
    Jwt.devSigned (Jwt.devManager.refreshClaimsOf ⟨0, 0, "1r"⟩ "u").payload, 900⟩

/-- The state after the user has logged in and out. -/
def loggedOut : State Jwt.Symbol :=
  logout (envAt 1 "2") (login devService (envAt 0 "1") devState "u@x" "pw" "" "").2
    devTokens.accessToken

/-- Each kind is accepted where the other is due: the middleware refuses the access token after a
logout, and it is exchanged for new ones. -/
theorem loggedOut_token_refreshes : ¬ Jwt.NotInterchangeable Jwt.symbols Jwt.devManager ∧
      ((login devService (envAt 0 "1") devState "u@x" "pw" "" "").1.toOption.map Prod.fst) =
        some devTokens ∧
      (Jwt.devManager.validateToken Jwt.symbols 2 devTokens.refreshToken).isOk = true ∧
      (Jwt.devManager.validateRefreshToken Jwt.symbols 2 devTokens.accessToken).isOk = true ∧
      handle devService (envAt 2 "3") (some loggedOut.redis) "/api/v1/workflows"
          (.bearer devTokens.accessToken) = .unauthorized "token has been revoked" ∧
      (refreshToken devService (envAt 2 "3") loggedOut devTokens.accessToken).1.isOk = true := by
  refine ⟨?_, by decide, by decide, by decide, by decide, by decide⟩
  intro h
  exact h.1 ⟨0, 0, "1r"⟩ "u" devTokens.refreshToken (by decide) 2 (by decide)
    (Jwt.devManager.refreshClaimsOf ⟨0, 0, "1r"⟩ "u").payload.claims (by decide)

end LinkFlow.Auth
