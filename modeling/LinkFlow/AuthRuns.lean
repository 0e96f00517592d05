/-
Runs of the authentication service, and what a revocation of all sessions leaves.

A world is the service's state with a clock and the tokens issued so far. Between two
calls other services may change the users and the RBAC policy in any way. The clock does
not go back (`Timely`).

Revoking everything reaches a user's access tokens through their session rows and does
not touch refresh tokens. So a token stays refused if it is barred (`Barred`): its life
has ended, or its Redis key is there until it has. Every call keeps what is barred
barred, because a key is only ever written again with a later deadline.
-/
import LinkFlow.AuthService

set_option autoImplicit false

namespace LinkFlow.Auth

open List

open Jwt (Library Manager Claims Payload)

variable {Tok Priv Pub : Type}

/-! ## Tokens of the service -/

/-- The token speaks for the user. -/
def IssuedTo (lib : Library Tok Priv Pub) (userID : String) (token : Tok) : Prop :=
  ∃ p method, lib.read .claims token = .token p method ∧ p.userID = userID

def lifeEnd (lib : Library Tok Priv Pub) (token : Tok) : Option ℤ :=
  match lib.read .claims token with
  | .token p _ => p.expiresAt.map (· * Jwt.second)
  | _ => none

section Tokens

variable (svc : Service Tok Priv Pub)

def Minted (userID : String) (token : Tok) : Prop :=
  ∃ p expiry, svc.jwtManager.Issued svc.lib p token ∧ p.userID = userID ∧
    p.expiresAt = some expiry

variable {svc} {userID : String} {token : Tok} {now : ℤ}

theorem Minted.issuedTo_iff {userID' : String} (h : Minted svc userID token) :
    IssuedTo svc.lib userID' token ↔ userID = userID' := by
  obtain ⟨p, expiry, hp, hid, -⟩ := h
  constructor
  · rintro ⟨q, method, hq, hid'⟩
    rw [hp.read .claims] at hq
    injection hq with hpq
    rw [← hid, ← hid', hpq]
  · rintro rfl
    exact ⟨p, _, hp.read .claims, hid⟩

theorem Minted.not_isEmpty (h : Minted svc userID token) : svc.lib.isEmpty token = false := by
  obtain ⟨p, expiry, hp, -, -⟩ := h
  by_contra hempty
  have hread := svc.lib.read_isEmpty .claims token (Bool.eq_true_of_not_eq_false hempty)
  rw [hp.read .claims] at hread
  cases hread

theorem Minted.expired (h : Minted svc userID token) (hend : ∀ d ∈ lifeEnd svc.lib token, d ≤ now) :
    ∃ p, svc.jwtManager.Issued svc.lib p token ∧
      Jwt.validate now p.toRegisteredClaims ≠ [] := by
  obtain ⟨p, expiry, hp, -, hexp⟩ := h
  refine ⟨p, hp, ?_⟩
  intro hvalid
  have hlive : now < expiry * Jwt.second := by
    simp only [Jwt.validate, hexp] at hvalid
    simpa using (append_eq_nil_iff.mp hvalid).1
  have := hend (expiry * Jwt.second) (by simp [lifeEnd, hp.read .claims, hexp])
  omega

variable (svc)

theorem makeTokens_spec (env : Env) (i : ℕ) (u : User) (roles permissions : List String) :
    ∃ tokens, makeTokens svc env i u roles permissions = .ok tokens ∧
      Minted svc u.id tokens.accessToken ∧ Minted svc u.id tokens.refreshToken := by
  obtain ⟨a, ha, hissued⟩ := svc.jwtManager.sign_spec svc.lib
    (svc.jwtManager.claimsOf ⟨env.now i, env.now (i + 1), env.uuid 0⟩
      ⟨u.id, u.email, roles, permissions⟩).payload
  obtain ⟨r, hr, hissued'⟩ := svc.jwtManager.sign_spec svc.lib
    (svc.jwtManager.refreshClaimsOf ⟨env.now (i + 2), env.now (i + 3), env.uuid 1⟩ u.id).payload
  refine ⟨⟨a, r, 900⟩, ?_, ⟨_, _, hissued, rfl, rfl⟩, ⟨_, _, hissued', rfl, rfl⟩⟩
  simp only [makeTokens, Manager.generateToken, Manager.generateRefreshToken, ha, hr]

end Tokens

variable [DecidableEq Tok]

/-! ## Runs -/

/-- A call of the service, or a change of users and policies from outside. -/
inductive Op (Tok : Type)
  | login (env : Env) (email password ipAddress userAgent : String)
  | refreshToken (env : Env) (token : Tok)
  | logout (env : Env) (token : Tok)
  | revokeSession (env : Env) (userID sessionID : String)
  | revokeAllSessions (env : Env) (userID : String)
  | validateSession (env : Env) (token : Tok)
  | outside (env : Env) (users : List User) (rbac : Option Rbac)

def Op.env : Op Tok → Env
  | .login env _ _ _ _ => env
  | .refreshToken env _ => env
  | .logout env _ => env
  | .revokeSession env _ _ => env
  | .revokeAllSessions env _ => env
  | .validateSession env _ => env
  | .outside env _ _ => env

structure World (Tok : Type) where
  state : State Tok
  clock : ℤ
  /-- the access tokens issued so far -/
  access : List Tok
  /-- the refresh tokens issued so far -/
  refresh : List Tok

section Runs

variable (svc : Service Tok Priv Pub)

/-- The tokens that a call issues, and the state after it. -/
def result (s : State Tok) : Op Tok → Option (Tokens Tok) × State Tok
  | .login env email password ip agent =>
    let (r, s) := login svc env s email password ip agent
    (r.toOption.map Prod.fst, s)
  | .refreshToken env token =>
    let (r, s) := refreshToken svc env s token
    (r.toOption, s)
  | .logout env token => (none, logout env s token)
  | .revokeSession env userID sessionID => (none, (revokeSession svc env s userID sessionID).2)
  | .revokeAllSessions env userID => (none, (revokeAllSessions svc env s userID).2)
  | .validateSession env token => (none, (validateSession env s token).2)
  | .outside _ users rbac => (none, { s with users, rbac })

/-- One call. -/
def serve (w : World Tok) (op : Op Tok) : World Tok :=
  let (tokens, state) := result svc w.state op
  { state
    clock := op.env.finish
    access := (tokens.map Tokens.accessToken).toList ++ w.access
    refresh := (tokens.map Tokens.refreshToken).toList ++ w.refresh }

/-- The world before the first login. -/
def World.start (users : List User) (rbac : Option Rbac) (t : ℤ) : World Tok where
  state := { users, rbac, sessions := [], redis := ∅ }
  clock := t
  access := []
  refresh := []

/-- The clock does not go back. -/
def Timely (w : World Tok) (op : Op Tok) : Prop := w.clock ≤ op.env.now 0

omit [DecidableEq Tok] in
instance (w : World Tok) (op : Op Tok) : Decidable (Timely w op) :=
  inferInstanceAs (Decidable (_ ≤ _))

/-- A call by which the user logs in. -/
def LogsIn (userID : String) (s : State Tok) : Op Tok → Prop
  | .login env email password ip agent =>
    ∃ tokens u, (login svc env s email password ip agent).1 = .ok (tokens, u) ∧ u.id = userID
  | _ => False

end Runs

/-! ## What a call changes

Every later result is a case analysis over `Change`: what a call does to the Redis keys
that bar tokens, to the session rows and to the tokens in circulation. -/

def RedisKey.ttl : RedisKey Tok → Option ℤ
  | .blacklist _ => some day
  | .blacklistRefresh _ => some week
  | .lockout _ => none
  | .failedAttempts _ => none

def Rewritten (env : Env) (redis redis' : Redis Tok) : Prop :=
  ∀ k ttl, RedisKey.ttl k = some ttl → redis'.lookup k = redis.lookup k ∨
    ∃ t, env.now 0 ≤ t ∧ t ≤ env.finish ∧ redis'.lookup k = some ⟨1, some (t + ttl)⟩

structure Change (svc : Service Tok Priv Pub) (s : State Tok) (op : Op Tok)
    (tokens : Option (Tokens Tok)) (s' : State Tok) : Prop where
  redis : Rewritten op.env s.redis s'.redis
  sessions : ∀ row ∈ s'.sessions, row ∈ s.sessions ∨
    LogsIn svc row.userID s op ∧ Minted svc row.userID row.token
  tokens : ∀ new, tokens = some new →
    ∃ userID, Minted svc userID new.accessToken ∧ Minted svc userID new.refreshToken

section Rewritten

variable {env : Env} {redis redis' : Redis Tok}

theorem Rewritten.refl : Rewritten env redis redis := fun _ _ _ => .inl rfl

theorem Rewritten.trans {redis'' : Redis Tok} (h : Rewritten env redis redis')
    (h' : Rewritten env redis' redis'') : Rewritten env redis redis'' := by
  intro k ttl hk
  rcases h' k ttl hk with heq | hset
  · rw [heq]
    exact h k ttl hk
  · exact .inr hset

theorem rewritten_set (redis : Redis Tok) {k : RedisKey Tok} {ttl : ℤ}
    (hk : k.ttl = some ttl) (i : ℕ) : Rewritten env redis (redis.set k 1 (env.now i + ttl)) := by
  intro k' ttl' hk'
  by_cases heq : k' = k
  · subst heq
    cases hk.symm.trans hk'
    exact .inr ⟨env.now i, env.mono 0 i (Nat.zero_le i), env.le_finish i,
      Expiring.Store.lookup_set redis 1 _⟩
  · exact .inl (Expiring.Store.lookup_set_ne heq redis 1 _)

theorem rewritten_trackFailedLogin (s : State Tok) (email : String) :
    Rewritten env s.redis (trackFailedLogin env s email).redis := by
  intro k ttl hk
  have hattempts : k ≠ .failedAttempts email := by
    rintro rfl
    cases hk
  have hlockout : k ≠ .lockout email := by
    rintro rfl
    cases hk
  refine .inl ?_
  have hincr := Expiring.Store.lookup_incr_ne hattempts s.redis (env.now 1)
  simp only [trackFailedLogin]
  split_ifs <;>
    simp only [Expiring.Store.lookup_set_ne hlockout, Expiring.Store.lookup_expire_ne hattempts,
      hincr]

theorem rewritten_del (redis : Redis Tok) (email : String) :
    Rewritten env redis (redis.del (.failedAttempts email)) := by
  intro k ttl hk
  refine .inl (Expiring.Store.lookup_del_ne ?_ redis)
  rintro rfl
  cases hk

end Rewritten

section Change

variable (svc : Service Tok Priv Pub) (env : Env) (s : State Tok)

theorem login_cases (email password ip agent : String) :
    (∃ err s', login svc env s email password ip agent = (.error err, s') ∧
        s'.sessions = s.sessions ∧ Rewritten env s.redis s'.redis) ∨
      ∃ tokens u row s', login svc env s email password ip agent = (.ok (tokens, u), s') ∧
        s'.sessions = s.sessions ++ [row] ∧ Rewritten env s.redis s'.redis ∧
        row.userID = u.id ∧ row.token = tokens.accessToken ∧
        Minted svc u.id tokens.accessToken ∧ Minted svc u.id tokens.refreshToken := by
  unfold login
  by_cases hlocked : s.redis.has (env.now 0) (.lockout email) = true
  · exact .inl ⟨_, _, if_pos hlocked, rfl, Rewritten.refl⟩
  rw [if_neg hlocked]
  cases s.users.find? (·.email = email) with
  | none => exact .inl ⟨_, _, rfl, rfl, rewritten_trackFailedLogin s email⟩
  | some u =>
    dsimp only
    by_cases hpassword : svc.compareHash u.password password = false
    · exact .inl ⟨_, _, if_pos hpassword, rfl, rewritten_trackFailedLogin s email⟩
    rw [if_neg hpassword]
    by_cases hverified : u.emailVerified = false
    · exact .inl ⟨_, _, if_pos hverified, rfl, rewritten_del s.redis email⟩
    rw [if_neg hverified]
    by_cases hactive : u.status ≠ .active
    · exact .inl ⟨_, _, if_pos hactive, rfl, rewritten_del s.redis email⟩
    rw [if_neg hactive]
    obtain ⟨tokens, htokens, haccess, hrefresh⟩ := makeTokens_spec svc env 1 u
      (rolesOf s.rbac u) (permissionsOf env s.rbac u (rolesOf s.rbac u))
    rw [htokens]
    exact .inr ⟨_, _, _, _, rfl, rfl, rewritten_del s.redis email, rfl, rfl, haccess, hrefresh⟩

/-- A refresh changes nothing, or blacklists the token it has exchanged. -/
theorem refreshToken_cases (token : Tok) : (∃ err, refreshToken svc env s token = (.error err, s)) ∨
      ∃ tokens userID, refreshToken svc env s token = (.ok tokens,
          { s with redis := s.redis.set (.blacklistRefresh token) 1 (env.now 6 + week) }) ∧
        Minted svc userID tokens.accessToken ∧ Minted svc userID tokens.refreshToken := by
  unfold refreshToken
  by_cases hused : s.redis.has (env.now 0) (.blacklistRefresh token) = true
  · exact .inl ⟨_, if_pos hused⟩
  rw [if_neg hused]
  cases svc.jwtManager.validateRefreshToken svc.lib (env.now 1) token with
  | error err => exact .inl ⟨_, rfl⟩
  | ok userID =>
    dsimp only
    cases s.users.find? (·.id = userID) with
    | none => exact .inl ⟨_, rfl⟩
    | some u =>
      dsimp only
      by_cases hactive : u.status ≠ .active
      · exact .inl ⟨_, if_pos hactive⟩
      rw [if_neg hactive]
      obtain ⟨tokens, htokens, haccess, hrefresh⟩ :=
        makeTokens_spec svc env 2 u (rolesOf s.rbac u) (u.getPermissions env)
      rw [htokens]
      exact .inr ⟨tokens, u.id, rfl, haccess, hrefresh⟩

theorem rewritten_blacklistSession (redis : Redis Tok) (row : Session Tok) (i : ℕ) :
    Rewritten env redis (blacklistSession svc redis row (env.now i)) := by
  unfold blacklistSession
  split
  · exact Rewritten.refl
  · exact rewritten_set redis rfl i

theorem rewritten_blacklistAll (rows : List (Session Tok × ℕ)) (redis : Redis Tok) :
    Rewritten env redis (rows.foldl
      (fun redis x => blacklistSession svc redis x.1 (env.now (x.2 + 1))) redis) := by
  induction rows generalizing redis with
  | nil => exact Rewritten.refl
  | cons x rows ih => exact (rewritten_blacklistSession svc env redis x.1 _).trans (ih _)

theorem revokeSession_cases (userID sessionID : String) :
    (revokeSession svc env s userID sessionID).2 = s ∨
      ∃ row, (revokeSession svc env s userID sessionID).2 = { s with
          redis := blacklistSession svc s.redis row (env.now 0),
          sessions := s.sessions.filter (·.id ≠ sessionID) } := by
  unfold revokeSession
  cases s.sessions.find? (·.id = sessionID) with
  | none => exact .inl rfl
  | some row =>
    by_cases howner : row.userID ≠ userID
    · simp only [if_pos howner, true_or]
    · simp only [if_neg howner]
      exact .inr ⟨row, rfl⟩

theorem validateSession_cases (token : Tok) : (validateSession env s token).2 = s ∨
      (validateSession env s token).2 =
        { s with sessions := s.sessions.filter (·.token ≠ token) } := by
  unfold validateSession
  by_cases hrevoked : s.redis.has (env.now 0) (.blacklist token) = true
  · simp only [if_pos hrevoked, true_or]
  simp only [if_neg hrevoked]
  cases s.sessions.find? (·.token = token) with
  | none => exact .inl rfl
  | some row =>
    by_cases hexpired : row.expiresAt < env.now 1
    · simp only [if_pos hexpired, or_true]
    · simp only [if_neg hexpired, true_or]

variable {svc s}

theorem change_of_subset {op : Op Tok} {s' : State Tok}
    (hredis : Rewritten op.env s.redis s'.redis) (hrows : s'.sessions ⊆ s.sessions) :
    Change svc s op none s' where
  redis := hredis
  sessions _ hrow := .inl (hrows hrow)
  tokens new hnew := by cases hnew

variable (svc s)

theorem result_change (op : Op Tok) : Change svc s op (result svc s op).1 (result svc s op).2 := by
  cases op with
  | login env email password ip agent =>
    rcases login_cases svc env s email password ip agent with
      ⟨err, s', h, hrows, hredis⟩ | ⟨tokens, u, row, s', h, hrows, hredis, hid, htok, ha, hr⟩
    · simp only [result, h]
      refine change_of_subset hredis ?_
      rw [hrows]
      exact List.Subset.refl _
    · simp only [result, h]
      refine ⟨hredis, ?_, ?_⟩
      · intro row' hrow'
        rw [hrows] at hrow'
        rcases mem_append.mp hrow' with hold | hnew
        · exact .inl hold
        -- the new row is the user's who logs in
        obtain rfl := mem_singleton.mp hnew
        refine .inr ⟨⟨tokens, u, by rw [h], hid.symm⟩, ?_⟩
        rw [hid, htok]
        exact ha
      · rintro new ⟨⟩
        exact ⟨u.id, ha, hr⟩
  | refreshToken env token =>
    rcases refreshToken_cases svc env s token with ⟨err, h⟩ | ⟨tokens, userID, h, ha, hr⟩
    · simp only [result, h]
      exact change_of_subset Rewritten.refl (List.Subset.refl _)
    simp only [result, h]
    -- no row is added for the new tokens
    refine ⟨rewritten_set s.redis rfl 6, fun row hrow => .inl hrow, ?_⟩
    rintro new ⟨⟩
    exact ⟨userID, ha, hr⟩
  | logout env token =>
    exact change_of_subset (rewritten_set s.redis rfl 0) (filter_subset_self _)
  | revokeSession env userID sessionID =>
    rcases revokeSession_cases svc env s userID sessionID with h | ⟨row, h⟩
    · simp only [result, h]
      exact change_of_subset Rewritten.refl (List.Subset.refl _)
    · simp only [result, h]
      exact change_of_subset (rewritten_blacklistSession svc env s.redis row 0)
        (filter_subset_self _)
  | revokeAllSessions env userID =>
    exact change_of_subset (rewritten_blacklistAll svc env _ s.redis) (filter_subset_self _)
  | validateSession env token =>
    rcases validateSession_cases env s token with h | h
    · simp only [result, h]
      exact change_of_subset Rewritten.refl (List.Subset.refl _)
    · simp only [result, h]
      exact change_of_subset Rewritten.refl (filter_subset_self _)
  | outside env users rbac => exact change_of_subset Rewritten.refl (List.Subset.refl _)

end Change

/-! ## Invariants of every run -/

/-- What holds in every world: rows and tokens are the manager's, and no barring key
outlives its lifetime from now. -/
structure Sound (svc : Service Tok Priv Pub) (w : World Tok) : Prop where
  rows : ∀ row ∈ w.state.sessions, Minted svc row.userID row.token
  access : ∀ token ∈ w.access, ∃ userID, Minted svc userID token
  refresh : ∀ token ∈ w.refresh, ∃ userID, Minted svc userID token
  redis : ∀ k ttl, RedisKey.ttl k = some ttl → w.state.redis.GoneBy k (w.clock + ttl)

section Invariants

variable {svc : Service Tok Priv Pub} {w : World Tok} {op : Op Tok}

theorem sound_start (users : List User) (rbac : Option Rbac) (t : ℤ) :
    Sound svc (World.start users rbac t) where
  rows _ hrow := by cases hrow
  access _ htoken := by cases htoken
  refresh _ htoken := by cases htoken
  redis k ttl _ e he := by cases he

/-- Every token of the store was minted for its user, after each call. -/
theorem Sound.step (h : Sound svc w) (htimely : Timely w op) : Sound svc (serve svc w op) := by
  have hchange := result_change svc w.state op
  have hclock : w.clock ≤ op.env.finish := le_trans htimely (op.env.le_finish 0)
  refine ⟨?_, ?_, ?_, ?_⟩
  · intro row hrow
    rcases hchange.sessions row hrow with hold | ⟨-, hnew⟩
    · exact h.rows row hold
    · exact hnew
  · intro token htoken
    rcases mem_append.mp htoken with hmem | hold
    · obtain ⟨new, hnew, rfl⟩ := Option.map_eq_some_iff.mp (Option.mem_toList.mp hmem)
      obtain ⟨userID, haccess, -⟩ := hchange.tokens new hnew
      exact ⟨userID, haccess⟩
    · exact h.access token hold
  · intro token htoken
    rcases mem_append.mp htoken with hmem | hold
    · obtain ⟨new, hnew, rfl⟩ := Option.map_eq_some_iff.mp (Option.mem_toList.mp hmem)
      obtain ⟨userID, -, hrefresh⟩ := hchange.tokens new hnew
      exact ⟨userID, hrefresh⟩
    · exact h.refresh token hold
  · intro k ttl hk
    rcases hchange.redis k ttl hk with heq | ⟨t, -, ht, hset⟩
    · refine ((h.redis k ttl hk).congr heq).mono ?_
      change w.clock + ttl ≤ op.env.finish + ttl
      omega
    · refine Expiring.Store.goneBy_of_lookup hset ?_
      change t + ttl ≤ op.env.finish + ttl
      omega

theorem Sound.holdsUntil_serve (h : Sound svc w) (htimely : Timely w op) {k : RedisKey Tok}
    {ttl d : ℤ} (hk : k.ttl = some ttl) (hd : w.state.redis.HoldsUntil k d) :
    (serve svc w op).state.redis.HoldsUntil k d := by
  rcases (result_change svc w.state op).redis k ttl hk with heq | ⟨t, ht, -, hset⟩
  · exact hd.congr heq
  -- written again, with a deadline no earlier than the old one
  have hle := hd.le_of_goneBy (h.redis k ttl hk)
  have htimely : w.clock ≤ op.env.now 0 := htimely
  exact Expiring.Store.holdsUntil_of_lookup hset (by omega)

end Invariants

/-! ## Tokens that are barred -/

def Barred (lib : Library Tok Priv Pub) (redis : Redis Tok) (now : ℤ) (k : RedisKey Tok)
    (token : Tok) : Prop :=
  ∀ d ∈ lifeEnd lib token, d ≤ now ∨ redis.HoldsUntil k d

section Refused

variable {svc : Service Tok Priv Pub} {s : State Tok} {env : Env} {userID : String}
  {token : Tok} {now : ℤ} {k : RedisKey Tok}

theorem Barred.has_or_ended (h : Barred svc.lib s.redis now k token) (hnow : now ≤ env.now 0) :
    s.redis.has (env.now 0) k = true ∨ ∀ d ∈ lifeEnd svc.lib token, d ≤ env.now 1 := by
  have hmono := env.mono 0 1 (Nat.zero_le 1)
  cases hend : lifeEnd svc.lib token with
  | none =>
    refine .inr ?_
    rintro d ⟨⟩
  | some d =>
    rcases h d hend with hended | hkey
    · refine .inr ?_
      rintro _ ⟨⟩
      omega
    · by_cases hd : env.now 0 < d
      · exact .inl (hkey.has hd)
      · refine .inr ?_
        rintro _ ⟨⟩
        omega

/-- A blacklisted refresh token is refused as long as it lives. -/
theorem Barred.refreshToken_refused
    (hbarred : Barred svc.lib s.redis now (.blacklistRefresh token) token)
    (hnow : now ≤ env.now 0) (hminted : Minted svc userID token) :
    ∃ err, (refreshToken svc env s token).1 = .error err := by
  unfold refreshToken
  by_cases hused : s.redis.has (env.now 0) (.blacklistRefresh token) = true
  · rw [if_pos hused]
    exact ⟨_, rfl⟩
  rw [if_neg hused]
  obtain ⟨p, hp, hdates⟩ :=
    hminted.expired ((hbarred.has_or_ended hnow).resolve_left hused)
  cases hvalid : svc.jwtManager.validateRefreshToken svc.lib (env.now 1) token with
  | error err => exact ⟨_, rfl⟩
  | ok id => exact absurd ((hp.validateRefreshToken_iff _ id).mp hvalid).2.1 hdates

/-- A path that the middleware does not skip. -/
def Guarded (path : String) : Prop := skipPaths.any (·.toList.isPrefixOf path.toList) = false

instance (path : String) : Decidable (Guarded path) := by
  unfold Guarded
  infer_instance

/-- A blacklisted access token is refused at every guarded path. -/
theorem Barred.handle_refused (hbarred : Barred svc.lib s.redis now (.blacklist token) token)
    (hnow : now ≤ env.now 0) (hminted : Minted svc userID token) {path : String}
    (hpath : Guarded path) :
    ∃ message, handle svc env (some s.redis) path (.bearer token) = .unauthorized message := by
  unfold handle
  rw [if_neg (by rw [hpath]; exact Bool.false_ne_true)]
  dsimp only
  by_cases hrevoked : (some s.redis).any (·.has (env.now 0) (.blacklist token)) = true
  · exact ⟨_, if_pos hrevoked⟩
  rw [if_neg hrevoked]
  obtain ⟨p, hp, hdates⟩ :=
    hminted.expired ((hbarred.has_or_ended hnow).resolve_left hrevoked)
  cases hvalid : svc.jwtManager.validateToken svc.lib (env.now 1) token with
  | error err => exact ⟨_, rfl⟩
  | ok claims => exact absurd ((hp.validateToken_iff _ claims).mp hvalid).2.1 hdates

theorem validateSession_refused (hrows : ∀ row ∈ s.sessions, row.token ≠ token) :
    ∃ err, (validateSession env s token).1 = .error err := by
  unfold validateSession
  by_cases hrevoked : s.redis.has (env.now 0) (.blacklist token) = true
  · rw [if_pos hrevoked]
    exact ⟨_, rfl⟩
  rw [if_neg hrevoked]
  have hnone : s.sessions.find? (·.token = token) = none := by
    rw [find?_eq_none]
    intro row hrow
    simpa using hrows row hrow
  rw [hnone]
  exact ⟨_, rfl⟩

end Refused

/-! ## After a revocation -/

section Revocation

variable (svc : Service Tok Priv Pub)

/-- When all sessions are revoked, every refresh token is barred, and every access token is barred
or has an unexpired session row and at most a day to live. -/
def Covered (userID : String) (env : Env) (w : World Tok) : Prop :=
  (∀ token ∈ w.refresh, IssuedTo svc.lib userID token →
      Barred svc.lib w.state.redis (env.now 0) (.blacklistRefresh token) token) ∧
    ∀ token ∈ w.access, IssuedTo svc.lib userID token →
      Barred svc.lib w.state.redis (env.now 0) (.blacklist token) token ∨
        ∃ row ∈ w.state.sessions, row.token = token ∧ env.now 0 < row.expiresAt ∧
          ∀ d ∈ lifeEnd svc.lib token, d ≤ env.now 0 + day

/-- The tokens issued in `past` are shut out of the world `w`. -/
structure ShutOut (userID : String) (past w : World Tok) : Prop where
  rows : ∀ row ∈ w.state.sessions, row.userID ≠ userID
  refresh : ∀ token ∈ past.refresh, IssuedTo svc.lib userID token →
    Barred svc.lib w.state.redis w.clock (.blacklistRefresh token) token
  access : ∀ token ∈ past.access, IssuedTo svc.lib userID token →
    Barred svc.lib w.state.redis w.clock (.blacklist token) token

variable {svc} {userID : String} {env : Env} {w : World Tok} {op : Op Tok}

variable (env) in
theorem lookup_blacklistAll {rows : List (Session Tok × ℕ)} (redis : Redis Tok)
    {x : Session Tok × ℕ} (hx : x ∈ rows) (hempty : svc.lib.isEmpty x.1.token = false) :
    ∃ t, env.now 0 ≤ t ∧ (rows.foldl
      (fun redis x => blacklistSession svc redis x.1 (env.now (x.2 + 1))) redis).lookup
        (.blacklist x.1.token) = some ⟨1, some (t + day)⟩ := by
  -- the last row written decides; the rows before it are the induction hypothesis
  induction rows using reverseRecOn with
  | nil => cases hx
  | append_singleton rows y ih =>
    rw [foldl_append]
    by_cases heq : x.1.token = y.1.token
    · refine ⟨env.now (y.2 + 1), env.mono 0 _ (Nat.zero_le _), ?_⟩
      rw [heq] at hempty ⊢
      simp only [foldl_cons, foldl_nil, blacklistSession, hempty]
      exact Expiring.Store.lookup_set _ 1 _
    · have hx : x ∈ rows := by
        rcases mem_append.mp hx with hx | hx
        · exact hx
        · rw [mem_singleton.mp hx] at heq
          exact absurd rfl heq
      obtain ⟨t, ht, hlookup⟩ := ih hx
      refine ⟨t, ht, ?_⟩
      rw [← hlookup]
      simp only [foldl_cons, foldl_nil]
      unfold blacklistSession
      split
      · rfl
      refine Expiring.Store.lookup_set_ne ?_ _ 1 _
      intro hkey
      injection hkey with hkey
      exact heq hkey

theorem Sound.barred_serve (h : Sound svc w) (op : Op Tok) (htimely : Timely w op)
    {k : RedisKey Tok} {ttl now : ℤ} {token : Tok} (hk : k.ttl = some ttl)
    (hnow : now ≤ op.env.finish) (hbarred : Barred svc.lib w.state.redis now k token) :
    Barred svc.lib (serve svc w op).state.redis (serve svc w op).clock k token := by
  intro d hd
  rcases hbarred d hd with hended | hkey
  · exact .inl (le_trans hended hnow)
  · exact .inr (h.holdsUntil_serve htimely hk hkey)

/-- After `RevokeAllSessions` no token of the user from before is accepted. -/
theorem Sound.shutOut_revoke (h : Sound svc w) (htimely : w.clock ≤ env.now 0)
    (hcovered : Covered svc userID env w) :
    ShutOut svc userID w (serve svc w (.revokeAllSessions env userID)) := by
  have hbar {k : RedisKey Tok} {ttl : ℤ} {token : Tok} (hk : k.ttl = some ttl)
      (hbarred : Barred svc.lib w.state.redis (env.now 0) k token) :
      Barred svc.lib (serve svc w (.revokeAllSessions env userID)).state.redis env.finish k
        token :=
    h.barred_serve (.revokeAllSessions env userID) htimely hk (env.le_finish 0) hbarred
  refine ⟨?_, ?_, ?_⟩
  · intro row hrow
    simpa using (mem_filter.mp hrow).2
  · intro token htoken hissued
    exact hbar rfl (hcovered.1 token htoken hissued)
  intro token htoken hissued
  rcases hcovered.2 token htoken hissued with hbarred | ⟨row, hrow, rfl, hexpires, hday⟩
  · exact hbar rfl hbarred
  -- the row is among those the loop goes through, and a day outlives the token
  have hminted := h.rows row hrow
  have hid : row.userID = userID := hminted.issuedTo_iff.mp hissued
  have hmem : row ∈ getUserSessions w.state.sessions userID (env.now 0) := by
    simp [getUserSessions, hrow, hid, hexpires]
  obtain ⟨i, hi⟩ := getElem?_of_mem hmem
  obtain ⟨t, ht, hlookup⟩ := lookup_blacklistAll env w.state.redis
    (mk_mem_zipIdx_iff_getElem?.mpr hi) hminted.not_isEmpty
  intro d hd
  have hdday := hday d hd
  exact .inr (Expiring.Store.holdsUntil_of_lookup hlookup (by omega))

/-- The user stays shut out until the next login. -/
theorem ShutOut.step {past : World Tok} (h : ShutOut svc userID past w) (hsound : Sound svc w)
    (htimely : Timely w op) (hquiet : ¬ LogsIn svc userID w.state op) :
    ShutOut svc userID past (serve svc w op) := by
  have hclock : w.clock ≤ op.env.finish := le_trans htimely (op.env.le_finish 0)
  refine ⟨?_, ?_, ?_⟩
  · intro row hrow hid
    rcases (result_change svc w.state op).sessions row hrow with hold | ⟨hlogin, -⟩
    · exact h.rows row hold hid
    · exact hquiet (hid ▸ hlogin)
  · intro token htoken hissued
    exact hsound.barred_serve op htimely rfl hclock (h.refresh token htoken hissued)
  · intro token htoken hissued
    exact hsound.barred_serve op htimely rfl hclock (h.access token htoken hissued)

variable (svc userID env)

/-- The calls after all sessions of the user have been revoked. -/
def afterRevocation (past : World Tok) (after : List (Op Tok)) : World Tok :=
  after.foldl (serve svc) (serve svc past (.revokeAllSessions env userID))

/-- **After a revocation** of covered tokens, in every run in which the user does not log in,
`ValidateSession` and the middleware refuse the earlier access tokens, and `RefreshToken` the
refresh tokens. -/
theorem revoked_tokens_refused (users : List User) (rbac : Option Rbac) (t : ℤ)
    (before after : List (Op Tok)) (past : World Tok)
    (hpast : before.foldl (serve svc) (World.start users rbac t) = past)
    (hbefore : Runs.Along (serve svc) Timely (World.start users rbac t) before)
    (hrevoke : past.clock ≤ env.now 0) (hcovered : Covered svc userID env past)
    (hafter : Runs.Along (serve svc) (fun w op => Timely w op ∧ ¬ LogsIn svc userID w.state op)
      (serve svc past (.revokeAllSessions env userID)) after)
    (req : Env) (hreq : (afterRevocation svc userID env past after).clock ≤ req.now 0) :
    (∀ token ∈ past.access, IssuedTo svc.lib userID token →
        (∃ err, (validateSession req (afterRevocation svc userID env past after).state
            token).1 = .error err) ∧
          ∀ path, Guarded path → ∃ message,
            handle svc req (some (afterRevocation svc userID env past after).state.redis) path
              (.bearer token) = .unauthorized message) ∧
      ∀ token ∈ past.refresh, IssuedTo svc.lib userID token →
        ∃ err, (refreshToken svc req (afterRevocation svc userID env past after).state
          token).1 = .error err := by
  have hold : Sound svc past := by
    rw [← hpast]
    exact (hbefore.always (P := Sound svc) (fun _ _ h htimely => h.step htimely)
      (sound_start users rbac t)).last
  -- the revocation shuts the tokens out, and the calls after it leave them shut out
  have hnow : ShutOut svc userID past (afterRevocation svc userID env past after) ∧
      Sound svc (afterRevocation svc userID env past after) :=
    (hafter.always (P := fun w => ShutOut svc userID past w ∧ Sound svc w)
      (fun _ _ h hok => ⟨h.1.step h.2 hok.1 hok.2, h.2.step hok.1⟩)
      ⟨hold.shutOut_revoke hrevoke hcovered, hold.step hrevoke⟩).last
  obtain ⟨hshut, hsound⟩ := hnow
  refine ⟨?_, ?_⟩
  · intro token htoken hissued
    obtain ⟨owner, hminted⟩ := hold.access token htoken
    refine ⟨validateSession_refused ?_, ?_⟩
    · -- a row with the token would be the user's
      rintro row hrow rfl
      exact hshut.rows row hrow ((hsound.rows row hrow).issuedTo_iff.mp hissued)
    · intro path hpath
      exact (hshut.access token htoken hissued).handle_refused hreq hminted hpath
  · intro token htoken hissued
    obtain ⟨owner, hminted⟩ := hold.refresh token htoken
    exact (hshut.refresh token htoken hissued).refreshToken_refused hreq hminted

end Revocation

/-- A configuration with `RefreshDays` 0, in which refresh tokens have no life. -/
def accessOnlyService : Service Jwt.Symbol String String :=
  { devService with jwtManager := { Jwt.devManager with refreshExpiry := 0 } }

/-- The user logs in at time 0. -/
def loggedIn (svc : Service Jwt.Symbol String String) : World Jwt.Symbol :=
  serve svc (World.start devState.users none 0) (.login (envAt 0 "1") "u@x" "pw" "" "")

theorem accessOnly_revoked : ∃ message, handle accessOnlyService (envAt 6 "3")
        (some (afterRevocation accessOnlyService "u" (envAt 5 "2") (loggedIn accessOnlyService)
          []).state.redis)
        "/api/v1/workflows" (.bearer devTokens.accessToken) = .unauthorized message := by
  have hcovered : Covered accessOnlyService "u" (envAt 5 "2") (loggedIn accessOnlyService) := by
    constructor
    · intro token htoken _ d hd
      -- the refresh token of the login ended as it was issued
      have hend : ∀ token ∈ (loggedIn accessOnlyService).refresh,
          lifeEnd accessOnlyService.lib token = some 0 := by decide
      cases (hend token htoken).symm.trans hd
      exact .inl (by decide)
    · intro token htoken _
      have htoken : token = devTokens.accessToken := by
        have hall : ∀ token ∈ (loggedIn accessOnlyService).access,
            token = devTokens.accessToken := by decide
        exact hall token htoken
      subst htoken
      exact .inr (by decide)
  have hrefused := revoked_tokens_refused accessOnlyService "u" (envAt 5 "2") devState.users
    none 0 [.login (envAt 0 "1") "u@x" "pw" "" ""] [] (loggedIn accessOnlyService) rfl
    ⟨by decide, trivial⟩ (by decide) hcovered trivial (envAt 6 "3") (by decide)
  exact (hrefused.1 devTokens.accessToken (by decide) ⟨_, _, rfl, rfl⟩).2 "/api/v1/workflows"
    (by decide)

def refreshedTokens : Tokens Jwt.Symbol :=
  ⟨Jwt.devSigned (Jwt.devManager.claimsOf ⟨1, 1, "2a"⟩ ⟨"u", "u@x", [], []⟩).payload,
    Jwt.devSigned (Jwt.devManager.refreshClaimsOf ⟨1, 1, "2r"⟩ "u").payload, 900⟩

/-- The world after a login and a refresh. -/
def refreshed : World Jwt.Symbol :=
  serve devService (loggedIn devService) (.refreshToken (envAt 1 "2") devTokens.refreshToken)

/-- After all sessions are revoked, the refresh token of the login still gives new tokens, and so do
those of an earlier refresh. -/
theorem refreshed_tokens_survive : (devTokens.refreshToken ∈ (loggedIn devService).refresh ∧
        (refreshToken devService (envAt 3 "4") (afterRevocation devService "u" (envAt 2 "3")
          (loggedIn devService) []).state devTokens.refreshToken).1.isOk = true) ∧
      (refreshedTokens.accessToken ∈ refreshed.access ∧
        handle devService (envAt 3 "4")
            (some (afterRevocation devService "u" (envAt 2 "3") refreshed []).state.redis)
            "/api/v1/workflows" (.bearer refreshedTokens.accessToken) =
          .next (some (((Jwt.devManager.claimsOf ⟨1, 1, "2a"⟩
            ⟨"u", "u@x", [], []⟩).payload).claims, refreshedTokens.accessToken))) ∧
      refreshedTokens.refreshToken ∈ refreshed.refresh ∧
        (refreshToken devService (envAt 3 "4") (afterRevocation devService "u" (envAt 2 "3")
          refreshed []).state refreshedTokens.refreshToken).1.isOk = true := by
  refine ⟨⟨by decide, by decide⟩, ⟨by decide, by decide⟩, by decide, by decide⟩

end LinkFlow.Auth
