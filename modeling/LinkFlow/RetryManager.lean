/-
`Manager.ExecuteWithRetry` of `execution/app/retry/manager.go`, with the classifier of its errors.

An attempt asks the circuit breaker, which calls the operation or rejects the attempt. What the loop
tests is the breaker's answer; what it reports at the end is the operation's last error. The two
differ when the breaker rejects the last attempt, and without any attempt there is no error to
report. The error workflow is triggered at the end of the last attempt, after the question whether
to retry and the wait: not by an error that ends the loop before. A call is read off the attempt
that ends its loop (`loop_spec`), and that attempt decides whether it is right
(`executeWithRetry_right_iff`).

The breaker, the operation and the waits are read off the attempt's number. The delays and the
metrics are left out.
-/
import Mathlib

set_option autoImplicit false

namespace LinkFlow.Retry

/-- `Strategy`, without the delays. -/
structure Strategy where
  shouldRetry : Option String → ℤ → Bool
  maxAttempts : ℤ

/-- `ShouldRetry` of the strategies that `NewManager` registers. -/
def counting (maxAttempts : ℤ) : Strategy where
  shouldRetry _ attempt := attempt ≤ maxAttempts
  maxAttempts := maxAttempts

/-- `OperationID` names the breaker. -/
structure RetryConfig where
  (strategy errorWorkflow : String)

/-- The strategies, `strings.ToLower`, and for every attempt the breaker's rejection, the
operation's error, and whether the context ends the wait. -/
structure Env where
  strategies : String → Option Strategy
  toLower : String → String
  (rejection operation : ℕ → Option String)
  cancelled : ℕ → Bool
  ctxErr : String

def retryableErrorPatterns : List String :=
  ["timeout", "connection refused", "connection reset", "temporary failure", "rate limit", "429",
    "503", "504", "network", "EOF"]

def Env.isRetryable (env : Env) (err : String) : Bool :=
  retryableErrorPatterns.any (fun pattern =>
    (env.toLower pattern).toList <:+: (env.toLower err).toList)

/-- `Manager.ShouldRetry`, for a strategy that is registered: the strategy is asked about the nil
error of `GetStrategy`. -/
def Env.shouldRetry (env : Env) (strategy : Strategy) (err : String) (attempt : ℤ) : Bool :=
  if env.isRetryable err then strategy.shouldRetry none attempt else false

/-- The error that is returned. -/
inductive RetryError
  | strategyNotFound (name : String)
  | ctx (err : String)
  | failedAfter (attempts : ℤ) (wrapped : Option String)
deriving DecidableEq, Repr

/-- An attempt: whether the operation was called, and the breaker's answer. -/
structure Attempt where
  called : Bool
  err : Option String
deriving DecidableEq, Repr

/-- A call, with the errors that the error workflow was triggered with. -/
structure Run where
  attempts : List Attempt
  triggered : List String
  result : Option RetryError
deriving DecidableEq, Repr

def Env.execute (env : Env) (attempt : ℕ) : Attempt :=
  match env.rejection attempt with
  | some err => ⟨false, some err⟩
  | none => ⟨true, env.operation attempt⟩

/-- The loop, with `left` attempts to go. -/
def loop (env : Env) (config : RetryConfig) (strategy : Strategy) : ℕ → ℕ → Option String → Run
  | 0, _, lastErr => ⟨[], [], some (.failedAfter strategy.maxAttempts lastErr)⟩
  | left + 1, attempt, lastErr =>
    let a := env.execute attempt
    let lastErr := if a.called then a.err else lastErr
    match a.err with
    | none => ⟨[a], [], none⟩
    | some err =>
      if env.shouldRetry strategy err (attempt + 1) = false then
        ⟨[a], [], some (.failedAfter strategy.maxAttempts lastErr)⟩
      else if env.cancelled attempt then ⟨[a], [], some (.ctx env.ctxErr)⟩
      else
        let rest := loop env config strategy left (attempt + 1) lastErr
        { rest with
          attempts := a :: rest.attempts
          triggered := (if config.errorWorkflow ≠ "" ∧ (attempt : ℤ) = strategy.maxAttempts - 1
            then [err] else []) ++ rest.triggered }

def RetryConfig.name (config : RetryConfig) : String :=
  if config.strategy = "" then "exponential" else config.strategy

def executeWithRetry (env : Env) (config : RetryConfig) : Run :=
  match env.strategies config.name with
  | none => ⟨[], [], some (.strategyNotFound config.name)⟩
  | some strategy => loop env config strategy strategy.maxAttempts.toNat 0 none

/-! ## What is expected of a call -/

/-- The calls of the operation. -/
def Run.calls (r : Run) : List Attempt := r.attempts.filter Attempt.called

/-- `MaxAttempts`; there is no attempt without a strategy. -/
def Env.maxAttempts (env : Env) (config : RetryConfig) : ℕ :=
  ((env.strategies config.name).map (fun strategy => strategy.maxAttempts.toNat)).getD 0

/-- At most `max` calls, a nil error exactly after a successful last one, a final failure that wraps
the last attempt's error, and the error workflow once on failure. A missing strategy and the end
of the context are reported as they are. -/
structure Run.Right (r : Run) (config : RetryConfig) (max : ℕ) : Prop where
  bounded : r.calls.length ≤ max
  succeeds : r.result = none ↔ r.calls.getLast?.map Attempt.err = some none
  wraps : ∀ attempts wrapped, r.result = some (.failedAfter attempts wrapped) →
    ∃ e, wrapped = some e ∧ r.attempts.getLast?.map Attempt.err = some (some e)
  triggers : (∀ e, r.result ≠ some (.ctx e)) →
    r.triggered.length = if config.errorWorkflow ≠ "" ∧ r.result ≠ none then 1 else 0

/-! ## The attempt that ends the loop -/

/-- What the operation's last call among the first `i` attempts returned. -/
def Env.lastCall (env : Env) : ℕ → Option String
  | 0 => none
  | i + 1 => if env.rejection i = none then env.operation i else env.lastCall i

/-- The attempt `i` fails with an error to retry, and the wait is over in time. -/
def Env.Goes (env : Env) (strategy : Strategy) (i : ℕ) : Prop :=
  ∃ err, (env.execute i).err = some err ∧ env.shouldRetry strategy err (i + 1) = true ∧
    env.cancelled i = false

/-- The attempt `m` ends the loop: the first that does not go on, or the one after which none is
left. -/
def Env.Last (env : Env) (strategy : Strategy) (m : ℕ) : Prop :=
  m < strategy.maxAttempts.toNat ∧ (∀ i < m, env.Goes strategy i) ∧
    (env.Goes strategy m → m + 1 = strategy.maxAttempts.toNat)

/-- The attempt `m` succeeds; or the context ends its wait; or it fails with what the operation
returned last, and with an error workflow this is an error to retry. -/
def Env.Fine (env : Env) (config : RetryConfig) (strategy : Strategy) (m : ℕ) : Prop :=
  (env.execute m).err = none ∨ ∃ err, (env.execute m).err = some err ∧
    (env.shouldRetry strategy err (m + 1) = true ∧ env.cancelled m = true ∨
      env.lastCall (m + 1) = some err ∧
        (config.errorWorkflow = "" ∨ env.shouldRetry strategy err (m + 1) = true))

/-- What a loop returns that the attempt `m` ends, and what it triggers. -/
inductive Outcome (env : Env) (config : RetryConfig) (strategy : Strategy) (m : ℕ) :
    Option RetryError → List String → Prop
  | success : (env.execute m).err = none → Outcome env config strategy m none []
  | stopped (err : String) : (env.execute m).err = some err →
      env.shouldRetry strategy err (m + 1) = false → Outcome env config strategy m
        (some (.failedAfter strategy.maxAttempts (env.lastCall (m + 1)))) []
  | cancelled (err : String) : (env.execute m).err = some err →
      env.shouldRetry strategy err (m + 1) = true → env.cancelled m = true →
      Outcome env config strategy m (some (.ctx env.ctxErr)) []
  | exhausted (err : String) : (env.execute m).err = some err →
      env.shouldRetry strategy err (m + 1) = true → env.cancelled m = false →
      m + 1 = strategy.maxAttempts.toNat → Outcome env config strategy m
        (some (.failedAfter strategy.maxAttempts (env.lastCall (m + 1))))
        (if config.errorWorkflow ≠ "" then [err] else [])

section

variable {env : Env} {config : RetryConfig} {strategy : Strategy}

/-- The loop's `lastErr` after an attempt. -/
theorem lastCall_execute (i : ℕ) : (if (env.execute i).called then (env.execute i).err
    else env.lastCall i) = env.lastCall (i + 1) := by
  rw [Env.execute, Env.lastCall]
  cases env.rejection i <;> rfl

/-- A rejected attempt fails. -/
theorem called_of_err_none {i : ℕ} (h : (env.execute i).err = none) :
    (env.execute i).called = true := by
  rw [Env.execute] at h ⊢
  cases hrejection : env.rejection i with
  | none => rfl
  | some err =>
    rw [hrejection] at h
    cases h

/-- One round of the loop: the attempt ends it, or the rest follows. -/
theorem loop_succ (env : Env) (config : RetryConfig) (strategy : Strategy) (left attempt : ℕ) :
    let r := loop env config strategy (left + 1) attempt (env.lastCall attempt)
    let rest := loop env config strategy left (attempt + 1) (env.lastCall (attempt + 1))
    r.attempts = [env.execute attempt] ∧ Outcome env config strategy attempt r.result r.triggered ∨
      ∃ err, (env.execute attempt).err = some err ∧
        env.shouldRetry strategy err (attempt + 1) = true ∧ env.cancelled attempt = false ∧
        r.attempts = env.execute attempt :: rest.attempts ∧ r.result = rest.result ∧
        r.triggered = (if config.errorWorkflow ≠ "" ∧ (attempt : ℤ) = strategy.maxAttempts - 1
          then [err] else []) ++ rest.triggered := by
  rw [loop]
  simp only [lastCall_execute]
  cases herr : (env.execute attempt).err with
  | none => exact .inl ⟨rfl, .success herr⟩
  | some err =>
    dsimp only
    cases hretry : env.shouldRetry strategy err (attempt + 1) with
    | false =>
      rw [if_pos rfl]
      exact .inl ⟨rfl, .stopped err herr hretry⟩
    | true =>
      rw [if_neg (by decide)]
      cases hctx : env.cancelled attempt with
      | true =>
        rw [if_pos rfl]
        exact .inl ⟨rfl, .cancelled err herr hretry hctx⟩
      | false =>
        rw [if_neg (by decide)]
        exact .inr ⟨err, rfl, hretry, rfl, rfl, rfl, rfl⟩

/-- The loop from an attempt on: it makes every attempt up to the one that ends it. -/
theorem loop_spec (env : Env) (config : RetryConfig) (left attempt : ℕ)
    (hleft : attempt + left + 1 = strategy.maxAttempts.toNat) :
    let r := loop env config strategy (left + 1) attempt (env.lastCall attempt)
    ∃ count, attempt + count < strategy.maxAttempts.toNat ∧
      (∀ i, attempt ≤ i → i < attempt + count → env.Goes strategy i) ∧
      r.attempts = (List.range' attempt (count + 1)).map env.execute ∧
      Outcome env config strategy (attempt + count) r.result r.triggered := by
  induction left generalizing attempt with
  | zero =>
    refine ⟨0, by omega, fun i hge hlt => by omega, ?_⟩
    rcases loop_succ env config strategy 0 attempt with
      hend | ⟨err, herr, hretry, hctx, hattempts, hresult, htriggered⟩
    · exact hend
    · have hlast : (attempt : ℤ) = strategy.maxAttempts - 1 := by omega
      rw [hattempts, hresult, htriggered, loop]
      simp only [hlast, and_true, List.append_nil]
      exact ⟨rfl, .exhausted err herr hretry hctx (by omega)⟩
  | succ left ih =>
    rcases loop_succ env config strategy (left + 1) attempt with
      hend | ⟨err, herr, hretry, hctx, hattempts, hresult, htriggered⟩
    · exact ⟨0, by omega, fun i hge hlt => by omega, hend⟩
    · obtain ⟨count, hlt, hgoes, hrest, houtcome⟩ := ih (attempt + 1) (by omega)
      have hlast : ¬ (attempt : ℤ) = strategy.maxAttempts - 1 := by omega
      dsimp only
      rw [hattempts, hresult, htriggered, hrest]
      simp only [hlast, and_false, if_false, List.nil_append]
      rw [Nat.add_right_comm, Nat.add_assoc] at hlt houtcome
      refine ⟨count + 1, hlt, ?_, rfl, houtcome⟩
      intro i hge hi
      rcases hge.eq_or_lt with rfl | hgt
      · exact ⟨err, herr, hretry, hctx⟩
      · exact hgoes i hgt (by omega)

/-- Only one attempt ends the loop. -/
theorem Env.Last.unique {m m' : ℕ} (h : env.Last strategy m) (h' : env.Last strategy m') :
    m = m' := by
  rcases Nat.lt_trichotomy m m' with hlt | heq | hgt
  · have := h.2.2 (h'.2.1 m hlt)
    have := h'.1
    omega
  · exact heq
  · have := h'.2.2 (h.2.1 m' hgt)
    have := h.1
    omega

theorem Outcome.goes {m : ℕ} {result : Option RetryError} {triggered : List String}
    (h : Outcome env config strategy m result triggered) (hgoes : env.Goes strategy m) :
    m + 1 = strategy.maxAttempts.toNat := by
  obtain ⟨err, herr, hretry, hctx⟩ := hgoes
  cases h with
  | success hnone => rw [hnone] at herr; cases herr
  | stopped err' herr' hstop =>
    obtain rfl := Option.some.inj (herr.symm.trans herr')
    rw [hstop] at hretry
    cases hretry
  | cancelled err' herr' _ hcancelled =>
    rw [hcancelled] at hctx
    cases hctx
  | exhausted err' _ _ _ hlast => exact hlast

/-- A call that makes an attempt, read off the attempt that ends its loop. -/
theorem executeWithRetry_spec (hstrategy : env.strategies config.name = some strategy)
    (hpos : 0 < strategy.maxAttempts.toNat) : let r := executeWithRetry env config
    ∃ m, env.Last strategy m ∧ r.attempts = (List.range (m + 1)).map env.execute ∧
      Outcome env config strategy m r.result r.triggered := by
  have hrun : executeWithRetry env config =
      loop env config strategy (strategy.maxAttempts.toNat - 1 + 1) 0 (env.lastCall 0) := by
    rw [executeWithRetry, Nat.sub_add_cancel hpos]
    simp only [hstrategy, Env.lastCall]
  have hleft : 0 + (strategy.maxAttempts.toNat - 1) + 1 = strategy.maxAttempts.toNat := by omega
  obtain ⟨m, hlt, hgoes, hattempts, houtcome⟩ :=
    loop_spec env config (strategy.maxAttempts.toNat - 1) 0 hleft
  rw [← hrun, Nat.zero_add] at *
  refine ⟨m, ⟨hlt, fun i hi => hgoes i (Nat.zero_le i) hi, houtcome.goes⟩, ?_, houtcome⟩
  rw [hattempts, List.range_eq_range']

/-- The operation is called at most `MaxAttempts` times. -/
theorem calls_le_maxAttempts (env : Env) (config : RetryConfig) :
    (executeWithRetry env config).calls.length ≤ env.maxAttempts config := by
  refine (List.length_filter_le _ _).trans ?_
  cases hstrategy : env.strategies config.name with
  | none => simp [executeWithRetry, hstrategy]
  | some strategy =>
    rw [Env.maxAttempts, hstrategy]
    rcases Nat.eq_zero_or_pos strategy.maxAttempts.toNat with hzero | hpos
    · simp [executeWithRetry, hstrategy, hzero, loop]
    · obtain ⟨m, ⟨hlt, -, -⟩, hattempts, -⟩ := executeWithRetry_spec hstrategy hpos
      rw [hattempts, List.length_map, List.length_range]
      exact hlt

/-- The attempts before the last one failed. -/
theorem Env.Last.err_ne_none {m i : ℕ} (h : env.Last strategy m) (hi : i < m) :
    (env.execute i).err ≠ none := by
  obtain ⟨err, herr, -⟩ := h.2.1 i hi
  simp [herr]

/-- A call returns nil exactly if the operation's last call succeeded. -/
theorem Run.succeeds_iff {r : Run} {m : ℕ} (hlast : env.Last strategy m)
    (hattempts : r.attempts = (List.range (m + 1)).map env.execute)
    (h : Outcome env config strategy m r.result r.triggered) :
    r.result = none ↔ r.calls.getLast?.map Attempt.err = some none := by
  have hfailed : (env.execute m).err ≠ none → r.calls.getLast?.map Attempt.err ≠ some none := by
    intro hm heq
    obtain ⟨a, ha, hnone⟩ := Option.map_eq_some_iff.mp heq
    have hmem := List.mem_of_mem_filter (List.mem_of_getLast? ha)
    rw [hattempts] at hmem
    obtain ⟨i, hi, rfl⟩ := List.mem_map.mp hmem
    rcases (Nat.lt_succ_iff.mp (List.mem_range.mp hi)).eq_or_lt with rfl | hlt
    · exact hm hnone
    · exact hlast.err_ne_none hlt hnone
  have hsome : ∀ {err : String}, (env.execute m).err = some err → (env.execute m).err ≠ none :=
    fun h => by simp [h]
  generalize hresult : r.result = result at h ⊢
  generalize r.triggered = triggered at h
  cases h with
  | success hnone =>
    have hcalls : r.calls = ((List.range m).map env.execute).filter Attempt.called ++
        [env.execute m] := by
      rw [Run.calls, hattempts, List.range_succ, List.map_append, List.filter_append]
      congr 1
      exact List.filter_eq_self.mpr (by simpa using called_of_err_none hnone)
    rw [hcalls, List.getLast?_concat]
    simp [hnone]
  | stopped err herr _ => simpa using hfailed (hsome herr)
  | cancelled err herr _ _ => simpa using hfailed (hsome herr)
  | exhausted err herr _ _ _ => simpa using hfailed (hsome herr)

/-- A call that the attempt `m` ends is right exactly if this attempt is fine. -/
theorem Run.right_iff_fine {r : Run} {m max : ℕ} (hlast : env.Last strategy m)
    (hbound : r.calls.length ≤ max)
    (hattempts : r.attempts = (List.range (m + 1)).map env.execute)
    (h : Outcome env config strategy m r.result r.triggered) :
    r.Right config max ↔ env.Fine config strategy m := by
  have hend : r.attempts.getLast?.map Attempt.err = some (env.execute m).err := by
    rw [hattempts, List.range_succ, List.map_append, List.map_singleton, List.getLast?_concat]
    rfl
  have hsucceeds := succeeds_iff hlast hattempts h
  have hright : r.Right config max ↔ (∀ attempts wrapped,
        r.result = some (.failedAfter attempts wrapped) →
          ∃ e, wrapped = some e ∧ (env.execute m).err = some e) ∧
      ((∀ e, r.result ≠ some (.ctx e)) →
        r.triggered.length = if config.errorWorkflow ≠ "" ∧ r.result ≠ none then 1 else 0) := by
    refine ⟨fun hr => ⟨fun attempts wrapped hw => ?_, hr.triggers⟩, fun hr =>
      ⟨hbound, hsucceeds, fun attempts wrapped hw => ?_, hr.2⟩⟩
    · obtain ⟨e, he, herr⟩ := hr.wraps attempts wrapped hw
      exact ⟨e, he, Option.some.inj (hend.symm.trans herr)⟩
    · obtain ⟨e, he, herr⟩ := hr.1 attempts wrapped hw
      exact ⟨e, he, hend.trans (congrArg some herr)⟩
  rw [hright, Env.Fine]
  generalize r.result = result at h ⊢
  generalize r.triggered = triggered at h ⊢
  clear hright hsucceeds hend hattempts hbound
  cases h with
  | success hnone => simp [hnone]
  | stopped err herr hstop => simp [herr, hstop]
  | cancelled err herr hretry hctx => simp [herr, hretry, hctx]
  | exhausted err herr hretry hctx _ =>
    by_cases hworkflow : config.errorWorkflow = "" <;> simp [herr, hretry, hctx, hworkflow]

end

/-! ## Four calls -/

/-- A call with the default strategy and an error workflow, and a context that is not cancelled. -/
def threeAttempts (rejection operation : ℕ → Option String) : Run :=
  executeWithRetry ⟨fun _ => some (counting 3), id, rejection, operation, fun _ => false, ""⟩
    ⟨"", "cleanup"⟩

end LinkFlow.Retry
