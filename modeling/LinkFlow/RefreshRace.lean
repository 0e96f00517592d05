/-
Concurrent calls of `AuthService.RefreshToken`, one command at a time.

A call asks Redis whether the token was used, validates it, reads the user, makes the new
tokens and writes the token's key; other calls run in between, users change, and a command
to Redis or to the database may fail, which the code ignores for Redis. `advance` is one
command of one call; run without interruption it is the function `refreshToken`
(`refresh_alone`).

Nothing ties the question to the write. A call that has been answered "not used" will
succeed unless its token expires, so one call succeeds at most if no two calls are between
the question and the write at once, and the written key outlives the token. The key is
written for a week, the life of a token is configured.
-/
import LinkFlow.AuthRuns

set_option autoImplicit false

namespace LinkFlow.Auth

variable {Tok Priv Pub : Type} [DecidableEq Tok]

/-! ## One command -/

/-- Where a call stands: what it has learnt so far. -/
inductive Phase (Tok : Type)
  | idle
  | called (token : Tok)
  | checked (token : Tok)
  | validated (token : Tok) (userID : String)
  | fetched (token : Tok) (u : User)
  | signed (token : Tok) (tokens : Tokens Tok)
  | done (token : Tok) (result : Except Error (Tokens Tok))

/-- The next command of a call. If it fails (`fault`), the question is answered "not used", the user
is not found, nothing is written. -/
def advance (svc : Service Tok Priv Pub) (env : Env) (fault : Bool) (s : State Tok) :
    Phase Tok → Phase Tok × State Tok
  | .called token =>
    if fault = false ∧ s.redis.has (env.now 0) (.blacklistRefresh token) = true then
      (.done token (.error (.text "refresh token has already been used")), s)
    else (.checked token, s)
  | .checked token =>
    match svc.jwtManager.validateRefreshToken svc.lib (env.now 0) token with
    | .error _ => (.done token (.error (.text "invalid refresh token")), s)
    | .ok userID => (.validated token userID, s)
  | .validated token userID =>
    match if fault then none else s.users.find? (·.id = userID) with
    | none => (.done token (.error (.text "user not found")), s)
    | some u =>
      if u.status ≠ .active then (.done token (.error (.text "account is not active")), s)
      else (.fetched token u, s)
  | .fetched token u =>
    match makeTokens svc env 0 u (rolesOf s.rbac u) (u.getPermissions env) with
    | .error err => (.done token (.error err), s)
    | .ok tokens => (.signed token tokens, s)
  | .signed token tokens =>
    -- the call succeeds whether or not the write does
    (.done token (.ok tokens), if fault then s
      else { s with redis := s.redis.set (.blacklistRefresh token) 1 (env.now 0 + week) })
  | .idle => (.idle, s)
  | .done token result => (.done token result, s)

/-- The readings of a call from the `k`-th on. -/
def Env.from (env : Env) (k : ℕ) : Env where
  now i := env.now (k + i)
  finish := env.finish
  mono _ _ h := env.mono _ _ (Nat.add_le_add_left h k)
  le_finish _ := env.le_finish _
  uuid := env.uuid
  range := env.range
  range_perm := env.range_perm

/-- Without interruption the sections do what `RefreshToken` does. -/
theorem refresh_alone (svc : Service Tok Priv Pub) (env : Env) (s : State Tok) (token : Tok) :
    [env, env.from 1, env.from 1, env.from 2, env.from 6].foldl
        (fun (x : Phase Tok × State Tok) env => advance svc env false x.2 x.1) (.called token, s) =
      (.done token (refreshToken svc env s token).1, (refreshToken svc env s token).2) := by
  unfold refreshToken
  by_cases hused : s.redis.has (env.now 0) (.blacklistRefresh token) = true
  · simp [advance, hused]
  cases hvalid : svc.jwtManager.validateRefreshToken svc.lib (env.now 1) token with
  | error err => simp [advance, Env.from, hused, hvalid]
  | ok userID =>
    cases huser : s.users.find? (·.id = userID) with
    | none => simp [advance, Env.from, hused, hvalid, huser]
    | some u =>
      by_cases hactive : u.status = .active
      · obtain ⟨tokens, htokens, -, -⟩ :=
          makeTokens_spec svc env 2 u (rolesOf s.rbac u) (u.getPermissions env)
        have hmake : makeTokens svc (env.from 2) 0 u (rolesOf s.rbac u)
            (u.getPermissions (env.from 2)) = .ok tokens := htokens
        have hnow : (env.from 1).now 0 = env.now 1 := rfl
        have hlast : (env.from 6).now 0 = env.now 6 := rfl
        simp [advance, hnow, hlast, hused, hvalid, huser, hactive, hmake, htokens]
      · simp [advance, Env.from, hused, hvalid, huser, hactive]

/-! ## Interleavings -/

/-- The service with calls in flight, by number. -/
structure Race (Tok : Type) where
  state : State Tok
  clock : ℤ
  calls : ℕ → Phase Tok

/-- A new call, the next command of a call, or a change of users and policies. -/
inductive Action (Tok : Type)
  | call (i : ℕ) (token : Tok)
  | advance (i : ℕ) (env : Env) (fault : Bool)
  | outside (env : Env) (users : List User) (rbac : Option Rbac)

def Race.step (svc : Service Tok Priv Pub) (w : Race Tok) : Action Tok → Race Tok
  | .call i token =>
    match w.calls i with
    | .idle => { w with calls := Function.update w.calls i (.called token) }
    | _ => w
  | .advance i env fault =>
    let (phase, state) := advance svc env fault w.state (w.calls i)
    { state, clock := env.finish, calls := Function.update w.calls i phase }
  | .outside env users rbac => { w with state := { w.state with users, rbac }, clock := env.finish }

/-- No call yet; the token's clock reading is `t`. -/
def Race.start (s : State Tok) (t : ℤ) : Race Tok where
  state := s
  clock := t
  calls _ := .idle

/-- The clock does not go back. -/
def Race.Timely (w : Race Tok) : Action Tok → Prop
  | .call _ _ => True
  | .advance _ env _ => w.clock ≤ env.now 0
  | .outside env _ _ => w.clock ≤ env.now 0

omit [DecidableEq Tok] in
instance (w : Race Tok) : (a : Action Tok) → Decidable (w.Timely a)
  | .call _ _ => isTrue trivial
  | .advance _ env _ => inferInstanceAs (Decidable (w.clock ≤ env.now 0))
  | .outside env _ _ => inferInstanceAs (Decidable (w.clock ≤ env.now 0))

def Phase.pending (token : Tok) : Phase Tok → Bool
  | .checked t => t = token
  | .validated t _ => t = token
  | .fetched t _ => t = token
  | .signed t _ => t = token
  | _ => false

/-- The call has returned new tokens. -/
def Phase.succeeded (token : Tok) : Phase Tok → Bool
  | .done t (.ok _) => t = token
  | _ => false

/-- A question is answered, and no other call is between its question and its write; a write is
done. -/
def Race.Orderly (token : Tok) (w : Race Tok) : Action Tok → Prop
  | .advance i _ fault =>
    match w.calls i with
    -- this call's question, while no other call is on its way to a write
    | .called t => t = token → fault = false ∧ ∀ j, (w.calls j).pending token = false
    | .signed t _ => t = token → fault = false
    | _ => True
  | _ => True

/-! ## Single use -/

/-- The call has succeeded with the token, or can still: a call that has only been
answered needs the token to be valid from now on. -/
def Phase.Claims (token : Tok) (d clock : ℤ) : Phase Tok → Prop
  | .checked t => t = token ∧ clock < d
  | .validated t _ => t = token
  | .fetched t _ => t = token
  | .signed t _ => t = token
  | .done t (.ok _) => t = token
  | _ => False

section Phase

variable {token : Tok} {d clock clock' : ℤ} {p : Phase Tok}

omit [DecidableEq Tok] in
theorem Phase.Claims.mono (h : p.Claims token d clock') (hclock : clock ≤ clock') :
    p.Claims token d clock := by
  cases p with
  | checked t => exact ⟨h.1, lt_of_le_of_lt hclock h.2⟩
  | done t result =>
    cases result with
    | ok tokens => exact h
    | error err => exact h
  | idle | called t | validated t _ | fetched t _ | signed t _ => exact h

theorem Phase.Claims.pending_or_succeeded (h : p.Claims token d clock) :
    p.pending token = true ∨ p.succeeded token = true := by
  cases p with
  | idle => exact h.elim
  | called t => exact h.elim
  | checked t => exact .inl (decide_eq_true h.1)
  | validated t _ | fetched t _ | signed t _ => exact .inl (decide_eq_true h)
  | done t result =>
    cases result with
    | ok tokens => exact .inr (decide_eq_true h)
    | error err => exact h.elim

theorem Phase.claims_of_succeeded (h : p.succeeded token = true) : p.Claims token d clock := by
  cases p with
  | done t result =>
    cases result with
    | ok tokens =>
      have ht : t = token := of_decide_eq_true h
      exact ht
    | error err => cases h
  | idle | called t | checked t | validated t _ | fetched t _ | signed t _ => cases h

end Phase

/-- `RefreshToken` accepts the token only before `d`. -/
def EndsBy (svc : Service Tok Priv Pub) (token : Tok) (d : ℤ) : Prop :=
  ∀ now userID, svc.jwtManager.validateRefreshToken svc.lib now token = .ok userID → now < d

section Advance

variable {svc : Service Tok Priv Pub} {env : Env} {fault : Bool} {s : State Tok}
  {p : Phase Tok} {token : Tok} {d clock : ℤ}

/-- A call that can succeed after a command could before it, or its question has just been
answered "not used". -/
theorem advance_claims (hlife : EndsBy svc token d) (hclock : clock ≤ env.now 0)
    (h : (advance svc env fault s p).1.Claims token d env.finish) : p.Claims token d clock ∨
      (p = .called token ∧ env.finish < d ∧
        ¬ (fault = false ∧ s.redis.has (env.now 0) (.blacklistRefresh token) = true)) := by
  cases p with
  | idle => exact h.elim
  | called t =>
    simp only [advance] at h
    split at h
    · exact h.elim
    · rename_i hunused
      obtain ⟨rfl, hd⟩ := h
      exact .inr ⟨rfl, hd, hunused⟩
  | checked t =>
    simp only [advance] at h
    split at h
    · exact h.elim
    -- the token is valid now, so the call counted before
    rename_i userID hvalid
    have ht : t = token := h
    subst ht
    exact .inl ⟨rfl, lt_of_le_of_lt hclock (hlife _ _ hvalid)⟩
  | validated t userID =>
    simp only [advance] at h
    split at h
    · exact h.elim
    · split at h
      · exact h.elim
      · exact .inl h
  | fetched t u =>
    simp only [advance] at h
    split at h
    · exact h.elim
    · exact .inl h
  | signed t tokens => exact .inl h
  | done t result =>
    cases result with
    | ok tokens => exact .inl h
    | error err => exact h.elim

theorem advance_state_of_ne (h : ∀ t tokens, p ≠ .signed t tokens) :
    (advance svc env fault s p).2 = s := by
  cases p with
  | idle | done t result => rfl
  | called t | checked t | fetched t u =>
    simp only [advance]
    split <;> rfl
  | validated t userID =>
    simp only [advance]
    split
    · rfl
    · split <;> rfl
  | signed t tokens => exact absurd rfl (h t tokens)

theorem lookup_advance_signed (tokens : Tokens Tok) :
    (advance svc env false s (.signed token tokens)).2.redis.lookup (.blacklistRefresh token) =
      some ⟨1, some (env.now 0 + week)⟩ :=
  Expiring.Store.lookup_set _ 1 _

theorem holdsUntil_advance (h : s.redis.HoldsUntil (.blacklistRefresh token) d)
    (hd : d ≤ env.now 0 + week) :
    (advance svc env fault s p).2.redis.HoldsUntil (.blacklistRefresh token) d := by
  cases p with
  | signed t tokens =>
    cases fault with
    | true => exact h
    | false =>
      by_cases ht : t = token
      · subst ht
        exact Expiring.Store.holdsUntil_of_lookup (lookup_advance_signed tokens) hd
      refine h.congr (Expiring.Store.lookup_set_ne ?_ _ 1 _)
      intro hkey
      injection hkey with hkey
      exact ht hkey.symm
  | idle | called t | checked t | validated t userID | fetched t u | done t result =>
    rw [advance_state_of_ne (by simp)]
    exact h

theorem advance_succeeded (h : (advance svc env fault s p).1.succeeded token = true) :
    p.succeeded token = true ∨ ∃ tokens, p = .signed token tokens := by
  cases p with
  | idle => cases h
  | called t | checked t | fetched t u =>
    simp only [advance] at h
    split at h <;> cases h
  | validated t userID =>
    simp only [advance] at h
    split at h
    · cases h
    · split at h <;> cases h
  | signed t tokens =>
    have ht : t = token := of_decide_eq_true h
    exact .inr ⟨tokens, by rw [ht]⟩
  | done t result => exact .inl h

end Advance

/-- The invariant of orderly interleavings: one call at most has succeeded or can, and the
key of a call that has succeeded outlives the token. -/
structure Once (token : Tok) (issued d : ℤ) (w : Race Tok) : Prop where
  since : issued ≤ w.clock
  unique : ∀ i j, (w.calls i).Claims token d w.clock → (w.calls j).Claims token d w.clock → i = j
  written : ∀ i, (w.calls i).succeeded token = true →
    w.state.redis.HoldsUntil (.blacklistRefresh token) d

section Once

variable {svc : Service Tok Priv Pub} {token : Tok} {issued d : ℤ} {w : Race Tok}

theorem once_start (s : State Tok) : Once token issued d (Race.start s issued) where
  since := le_refl issued
  unique i j hi := hi.elim
  written i hi := by cases hi

/-- While a call has succeeded or can, no question about the token is answered "not used"
in an orderly step, unless its life has ended. -/
theorem Once.no_claim (h : Once token issued d w) {i : ℕ} {env : Env} {fault : Bool}
    (horderly : w.Orderly token (.advance i env fault)) (hcalled : w.calls i = .called token)
    (hunused : ¬ (fault = false ∧
      w.state.redis.has (env.now 0) (.blacklistRefresh token) = true))
    (hend : env.finish < d) (j : ℕ) : ¬ (w.calls j).Claims token d w.clock := by
  intro hj
  simp only [Race.Orderly, hcalled] at horderly
  obtain ⟨hfault, hpending⟩ := horderly trivial
  rcases hj.pending_or_succeeded with hp | hs
  · rw [hpending j] at hp
    cases hp
  · -- the key of the call that succeeded is still there
    have hnow : env.now 0 < d := lt_of_le_of_lt (env.le_finish 0) hend
    exact hunused ⟨hfault, (h.written j hs).has hnow⟩

/-- At most one call claims the token, and a success has blacklisted it. -/
theorem Once.advance (h : Once token issued d w) (hlife : EndsBy svc token d)
    (hweek : d ≤ issued + week) {i : ℕ} {env : Env} {fault : Bool}
    (htimely : w.Timely (.advance i env fault))
    (horderly : w.Orderly token (.advance i env fault)) :
    Once token issued d (w.step svc (.advance i env fault)) := by
  have hclock : w.clock ≤ env.now 0 := htimely
  have hfinish := env.le_finish 0
  have hsince := h.since
  -- a call that can succeed now could before, or nobody else could
  have hclaims (j : ℕ) (hj : ((w.step svc (.advance i env fault)).calls j).Claims token d
      env.finish) : (w.calls j).Claims token d w.clock ∨
        j = i ∧ ∀ k, ¬ (w.calls k).Claims token d w.clock := by
    by_cases hji : j = i
    · subst hji
      simp only [Race.step, Function.update_self] at hj
      rcases advance_claims hlife hclock hj with hold | ⟨hcalled, hend, hunused⟩
      · exact .inl hold
      · exact .inr ⟨rfl, h.no_claim horderly hcalled hunused hend⟩
    · simp only [Race.step, Function.update_of_ne hji] at hj
      exact .inl (hj.mono (le_trans hclock hfinish))
  refine ⟨?_, ?_, ?_⟩
  · exact le_trans hsince (le_trans hclock hfinish)
  · intro j k hj hk
    rcases hclaims j hj with hjold | ⟨hji, hnone⟩
    · rcases hclaims k hk with hkold | ⟨-, hnone⟩
      · exact h.unique j k hjold hkold
      · exact absurd hjold (hnone j)
    · rcases hclaims k hk with hkold | ⟨hki, -⟩
      · exact absurd hkold (hnone k)
      · rw [hji, hki]
  · intro j hj
    have hd : d ≤ env.now 0 + week := by omega
    by_cases hji : j = i
    · subst hji
      simp only [Race.step, Function.update_self] at hj
      rcases advance_succeeded hj with hold | ⟨tokens, hsigned⟩
      · exact holdsUntil_advance (h.written j hold) hd
      -- the call has just written, for a week that covers the rest of the token's life
      simp only [Race.Orderly, hsigned] at horderly
      obtain rfl := horderly trivial
      simp only [Race.step, hsigned]
      exact Expiring.Store.holdsUntil_of_lookup (lookup_advance_signed tokens) hd
    · simp only [Race.step, Function.update_of_ne hji] at hj
      exact holdsUntil_advance (h.written j hj) hd

theorem Once.call (h : Once token issued d w) (i : ℕ) (t : Tok) :
    Once token issued d { w with calls := Function.update w.calls i (.called t) } := by
  have hcalls (j : ℕ) : Function.update w.calls i (.called t) j = .called t ∨
      Function.update w.calls i (.called t) j = w.calls j := by
    by_cases hji : j = i
    · subst hji
      exact .inl (Function.update_self _ _ _)
    · exact .inr (Function.update_of_ne hji _ _)
  have hold (j : ℕ) (hj : (Function.update w.calls i (.called t) j).Claims token d w.clock) :
      (w.calls j).Claims token d w.clock := by
    rcases hcalls j with heq | heq
    · rw [heq] at hj
      exact hj.elim
    · rwa [heq] at hj
  refine ⟨h.since, fun j k hj hk => h.unique j k (hold j hj) (hold k hk), ?_⟩
  intro j hj
  rcases hcalls j with heq | heq
  · simp only [heq] at hj
    cases hj
  · simp only [heq] at hj
    exact h.written j hj

theorem Once.step (h : Once token issued d w) (hlife : EndsBy svc token d)
    (hweek : d ≤ issued + week) {a : Action Tok} (htimely : w.Timely a)
    (horderly : w.Orderly token a) : Once token issued d (w.step svc a) := by
  cases a with
  | call i t =>
    simp only [Race.step]
    split
    · exact h.call i t
    · exact h
  | advance i env fault => exact h.advance hlife hweek htimely horderly
  | outside env users rbac =>
    have hclock : w.clock ≤ env.finish := le_trans htimely (env.le_finish 0)
    exact ⟨le_trans h.since hclock,
      fun i j hi hj => h.unique i j (hi.mono hclock) (hj.mono hclock), h.written⟩

end Once

omit [DecidableEq Tok] in
theorem endsBy_refreshToken {svc : Service Tok Priv Pub} {stamp : Jwt.Stamp} {userID : String}
    {token : Tok} (htoken : svc.jwtManager.generateRefreshToken svc.lib stamp userID = .ok token) :
    EndsBy svc token
      (Jwt.newNumericDate (stamp.expiresFrom + svc.jwtManager.refreshExpiry) * Jwt.second) := by
  intro now id hvalid
  obtain ⟨-, hdates, -⟩ :=
    ((Jwt.Manager.issued_of_sign htoken).validateRefreshToken_iff now id).mp hvalid
  exact (Jwt.Manager.validate_registered now stamp userID _).mp hdates

/-- **Single use.** If refresh tokens live for a week at most, no two calls with the token are
between their question and their write at once, and these commands do not fail, one call with the
token succeeds at most. -/
theorem refreshToken_succeeds_once (svc : Service Tok Priv Pub) (stamp : Jwt.Stamp)
    (userID : String) (token : Tok)
    (htoken : svc.jwtManager.generateRefreshToken svc.lib stamp userID = .ok token)
    (hweek : svc.jwtManager.refreshExpiry ≤ week) (s : State Tok) (actions : List (Action Tok))
    (hactions : Runs.Along (Race.step svc) (fun w a => w.Timely a ∧ w.Orderly token a)
      (Race.start s stamp.expiresFrom) actions) (i j : ℕ)
    (hi : ((actions.foldl (Race.step svc) (Race.start s stamp.expiresFrom)).calls i).succeeded
      token = true)
    (hj : ((actions.foldl (Race.step svc) (Race.start s stamp.expiresFrom)).calls j).succeeded
      token = true) : i = j := by
  have hlife := endsBy_refreshToken htoken
  have hd : Jwt.newNumericDate (stamp.expiresFrom + svc.jwtManager.refreshExpiry) * Jwt.second ≤
      stamp.expiresFrom + week := by
    simp only [Jwt.newNumericDate, Jwt.second]
    omega
  generalize Jwt.newNumericDate (stamp.expiresFrom + svc.jwtManager.refreshExpiry) * Jwt.second =
    d at hlife hd
  have honce : Once token stamp.expiresFrom d
      (actions.foldl (Race.step svc) (Race.start s stamp.expiresFrom)) :=
    (hactions.always (P := Once token stamp.expiresFrom d)
      (fun _ _ h hok => h.step hlife hd hok.1 hok.2) (once_start s)).last
  exact honce.unique i j (Phase.claims_of_succeeded hi) (Phase.claims_of_succeeded hj)

/-! ## Two successes -/

/-- The commands of call `i`, all at time `t`. -/
def commands (i : ℕ) (t : ℤ) : List (Action Jwt.Symbol) :=
  List.replicate 5 (.advance i (envAt t "x") false)

/-- Two calls one after the other, as `refreshToken_succeeds_once` has them. -/
def inTurn : List (Action Jwt.Symbol) :=
  [.call 1 devTokens.refreshToken, .call 2 devTokens.refreshToken] ++ commands 1 1 ++ commands 2 2

/-- The same two calls, where both ask before either writes. -/
def overlapping : List (Action Jwt.Symbol) :=
  [.call 1 devTokens.refreshToken, .call 2 devTokens.refreshToken,
    .advance 1 (envAt 1 "x") false, .advance 2 (envAt 1 "x") false] ++ commands 1 2 ++ commands 2 2

/-- Which of the calls 1 and 2 have succeeded. -/
def successes (svc : Service Jwt.Symbol String String) (token : Jwt.Symbol)
    (actions : List (Action Jwt.Symbol)) : Bool × Bool :=
  let w := actions.foldl (Race.step svc) (Race.start devState 0)
  ((w.calls 1).succeeded token, (w.calls 2).succeeded token)

theorem inTurn_succeeds_once :
    successes devService devTokens.refreshToken inTurn ≠ (true, true) := by
  have halong : Runs.Along (Race.step devService)
      (fun w a => w.Timely a ∧ w.Orderly devTokens.refreshToken a) (Race.start devState 0)
      inTurn := by
    refine ⟨⟨by decide, trivial⟩, ⟨by decide, trivial⟩, ⟨by decide, fun _ => ⟨rfl, ?_⟩⟩,
      ⟨by decide, trivial⟩, ⟨by decide, trivial⟩, ⟨by decide, trivial⟩,
      ⟨by decide, fun _ => rfl⟩, ⟨by decide, fun _ => ⟨rfl, ?_⟩⟩, ⟨by decide, trivial⟩,
      ⟨by decide, trivial⟩, ⟨by decide, trivial⟩, ⟨by decide, trivial⟩, trivial⟩
    · intro j
      match j with
      | 0 => rfl
      | 1 => rfl
      | 2 => rfl
      | n + 3 => rfl
    · intro j
      match j with
      | 0 => rfl
      | 1 => rfl
      | 2 => rfl
      | n + 3 => rfl
  intro h
  have hone := refreshToken_succeeds_once devService ⟨0, 0, "1r"⟩ "u" devTokens.refreshToken
    (by decide) (by decide) devState inTurn halong 1 2 (congrArg Prod.fst h)
    (congrArg Prod.snd h)
  cases hone

/-- A configuration with `RefreshDays` 30. -/
def monthService : Service Jwt.Symbol String String :=
  { devService with jwtManager := { Jwt.devManager with refreshExpiry := 30 * day } }

/-- A refresh token of it. -/
def monthToken : Jwt.Symbol :=
  Jwt.devSigned (monthService.jwtManager.refreshClaimsOf ⟨0, 0, "1r"⟩ "u").payload

/-- Two calls with one token succeed when both ask before either writes, and when the second comes
after the week for which the first one's key is kept. -/
theorem refreshToken_succeeds_twice :
    (Runs.Along (Race.step devService) Race.Timely (Race.start devState 0) overlapping ∧
        devService.jwtManager.generateRefreshToken devService.lib ⟨0, 0, "1r"⟩ "u" =
          .ok devTokens.refreshToken ∧
        successes devService devTokens.refreshToken overlapping = (true, true)) ∧
      monthService.jwtManager.generateRefreshToken monthService.lib ⟨0, 0, "1r"⟩ "u" =
        .ok monthToken ∧
      successes monthService monthToken
        ([.call 1 monthToken] ++ commands 1 1 ++ [.call 2 monthToken] ++ commands 2 (8 * day)) =
        (true, true) := by
  refine ⟨⟨by decide, by decide, by decide⟩, by decide, by decide⟩

end LinkFlow.Auth
