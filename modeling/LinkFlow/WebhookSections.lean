/-
Incoming requests, `handleWorkflowActivated` and `handleWorkflowDeactivated`
(`internal/webhook/app/service/service.go`), section by section.

A call is cut at its repository calls and at the sections in which it holds the lock of the cache;
what it computes in between belongs to the section before. Without interruption the sections of a
request are `handleWebhook` (`alone_find`). What a section can do to the table and to the cache is
said once (`effect_advance`): it saves one record, or it puts one into the cache.

A request keeps a copy of the record that it found. What requests that share a cached record see
of each other's call counts is not followed; no check reads them.
-/
import LinkFlow.Webhook
import LinkFlow.Lib.Sql

set_option autoImplicit false

namespace LinkFlow.Webhooks

/-! ## Sections -/

/-- What a section meets: beside what a call does, an error of a listing, and its order. -/
structure Turn extends Env where
  listFails : Bool := false
  rank : Webhook → ℕ := fun _ => 0

/-- The checks of `HandleWebhook` between the webhook and its body's payload. -/
def checkRequest (lib : Library) (env : Env) (path : String) (r : Request) (wh : Webhook)
    (s : State) : Except Outcome (String × GoMap String Field) × State :=
  match wh.canAccept env.now with
  | some e => (.error (.refused 403 e), s)
  | none =>
    if wh.method ≠ r.method ∧ wh.method ≠ "ANY" then (.error (.refused 405 "method not allowed"), s)
    else
      match s.checkRateLimit env wh with
      | (some e, s) => (.error (.refused 429 e), s)
      | (none, s) =>
        match requiredAuth lib wh r with
        | some e => (.error (.refused 401 e), s)
        | none =>
          match r.body with
          | .error e => (.error (.refused 400 ("failed to read body: " ++ e)), s)
          | .ok body =>
            let signature := r.header.get "X-Webhook-Signature"
            if wh.secret ≠ "" ∧ signature ≠ ""
                ∧ ¬ wh.verifySignature lib body signature then
              (.error (.refused 401 errInvalidSignature), s)
            else
              match parseBody lib (r.header.get "Content-Type") body with
              | none => (.error .panicked, s)
              | some payload =>
                (.ok (body, payload.insert "_webhook" (.webhook
                  { path := path, method := r.method, headers := firstValues r.header,
                    queryParams := firstValues r.query, remoteAddr := r.remoteAddr,
                    timestamp := env.now / 10 ^ 9 })), s)

/-- `HandleWebhook` from the webhook on. -/
def answer (lib : Library) (env : Env) (path : String) (r : Request) (wh : Webhook) (s : State) :
    Outcome × State :=
  match checkRequest lib env path r wh s with
  | (.error o, s) => (o, s)
  | (.ok (body, payload), s) => dispatch env path r wh body payload s

/-- `HandleWebhook` is its search, its checks and `dispatch`. -/
theorem handleWebhook_eq (lib : Library) (env : Env) (path : String) (r : Request) (s : State) :
    handleWebhook lib env path r s = match s.getWebhookByPath env path with
      | none => (.refused 404 errWebhookNotFound, s)
      | some wh => answer lib env path r wh s := by
  unfold handleWebhook answer checkRequest
  rcases s.getWebhookByPath env path with _ | wh
  · rfl
  dsimp only
  rcases wh.canAccept env.now with _ | e
  swap
  · rfl
  dsimp only
  split_ifs
  · rfl
  obtain ⟨_ | e, s'⟩ := s.checkRateLimit env wh
  swap
  · rfl
  dsimp only
  rcases requiredAuth lib wh r with _ | e
  swap
  · rfl
  dsimp only
  rcases r.body with e | body
  · rfl
  dsimp only
  split_ifs
  · rfl
  · cases parseBody lib (r.header.get "Content-Type") body <;> rfl

/-- Where a call stands: the call of the repository or the lock that comes next. -/
inductive Section
  /-- `HandleWebhook` up to the cache, then `GetByPath` if it is not there. -/
  | find (path : String) (r : Request)
  | getByPath (path : String) (r : Request)
  /-- `RecordExecution` and the event, then `Update`, and `UpdateExecution`. -/
  | record (path : String) (r : Request) (wh : Webhook) (body : String)
      (payload : GoMap String Field)
  | save (path : String) (wh : Webhook) (e : WebhookExecution)
  | processed (e : WebhookExecution)
  | failed (e : WebhookExecution)
  /-- `handleWorkflowActivated` and `handleWorkflowDeactivated` up to `ListByWorkflow`, then for
  every webhook `Update` and the cache. -/
  | list (on : Bool) (workflowID : String)
  | update (on : Bool) (workflowID : String) (todo : List Webhook)
  | cache (on : Bool) (workflowID : String) (wh : Webhook) (rest : List Webhook)

/-- How a section ends: the call goes on, or it returns. -/
inductive Next
  | next (p : Section)
  | reply (o : Outcome)
  | handled

namespace State

/-- The record that `HandleWebhook` writes first. -/
def execution (env : Env) (path : String) (r : Request) (wh : Webhook) (body : String) :
    WebhookExecution where
  id := env.uuid
  webhookID := wh.id
  workflowID := wh.workflowID
  method := r.method
  path := path
  headers := firstValues r.header
  queryParams := firstValues r.query
  body := body
  contentType := r.header.get "Content-Type"
  ipAddress := r.remoteAddr
  userAgent := r.header.get "User-Agent"
  status := .received
  createdAt := env.createdAt

/-- `RecordCall` on the cached record of the webhook, and the time that `Update` writes there. -/
def touch (env : Env) (path : String) (wh : Webhook) (s : State) : State :=
  match s.webhooks.lookup path with
  | some o =>
    if o.id = wh.id then
      { s with
        webhooks := s.webhooks.insert path
          { o.recordCall env.calledAt with updatedAt := env.savedAt } }
    else s
  | none => s

def listByWorkflow (s : State) (rank : Webhook → ℕ) (workflowID : String) : List Webhook :=
  Sql.orderBy (fun _ => 0) rank
    ((s.rows.entries.map Sigma.snd).filter (fun wh => wh.workflowID = workflowID))

def loadWebhooks (s : State) (rank : Webhook → ℕ) : State :=
  { s with
    webhooks := GoMap.index Webhook.path s.webhooks
      (Sql.orderBy (fun _ => 0) rank ((s.rows.entries.map Sigma.snd).filter Webhook.isActive)) }

end State

/-- A request that has found its webhook. -/
def found (lib : Library) (env : Env) (path : String) (r : Request) (wh : Webhook) (s : State) :
    State × Next :=
  match checkRequest lib env path r wh s with
  | (.error o, s) => (s, .reply o)
  | (.ok (body, payload), s) => (s, .next (.record path r wh body payload))

def advance (lib : Library) (t : Turn) (s : State) : Section → State × Next
  | .find path r => match s.webhooks.lookup path with
      | some wh => found lib t.toEnv path r wh s
      | none => (s, .next (.getByPath path r))
  | .getByPath path r =>
    match if t.getByPathFails then none
      else (s.rows.entries.map Sigma.snd).find? (fun wh => wh.path = path) with
    | none => (s, .reply (.refused 404 errWebhookNotFound))
    | some wh => found lib t.toEnv path r wh s
  | .record path r wh body payload =>
    let e := State.execution t.toEnv path r wh body
    let s := s.recordExecution t.toEnv e
    let event : Received :=
      { webhookID := wh.id, workflowID := wh.workflowID, nodeID := wh.nodeID, executionID := e.id,
        data := payload }
    let s := { s with published := s.published ++ [event] }
    match t.publishError with
    | some err => (s, .next (.failed { e with status := .failed, error := err }))
    | none => (s, .next (.save path wh e))
  | .save path wh e =>
    ((s.touch t.toEnv path wh).updateWebhook t.toEnv (wh.recordCall t.calledAt),
      .next (.processed e))
  | .processed e =>
    (s.updateExecution t.toEnv
      { e with
        status := .processed, processedAt := some t.processedAt,
        duration := (t.processedAt - e.createdAt).tdiv (10 ^ 6) },
      .reply (.answered (some ⟨true, e.id, "Webhook received and workflow triggered"⟩) 200 none))
  | .failed e => (s.updateExecution t.toEnv e, .reply (.refused 500 e.error))
  | .list on workflowID =>
    -- the error of the listing is dropped
    (s, .next (.update on workflowID
      (if t.listFails then [] else s.listByWorkflow t.rank workflowID)))
  | .update _ _ [] => (s, .handled)
  | .update on workflowID (wh :: rest) =>
    let wh := { wh with isActive := on }
    (s.updateWebhook t.toEnv wh,
      .next (.cache on workflowID { wh with updatedAt := t.savedAt } rest))
  | .cache on workflowID wh rest =>
    ({ s with webhooks := if on then s.webhooks.insert wh.path wh else s.webhooks.erase wh.path },
      .next (.update on workflowID rest))

/-- The first `k` sections of a call that runs alone. -/
def alone (lib : Library) (t : Turn) : ℕ → State × Next → State × Next
  | k + 1, (s, .next p) => alone lib t k (advance lib t s p)
  | _, r => r

section Alone

variable (lib : Library) (t : Turn) (path : String) (r : Request) (wh : Webhook) (s : State)

omit path r wh in
@[simp] theorem alone_reply (k : ℕ) (o : Outcome) :
    alone lib t k (s, .reply o) = (s, .reply o) := by
  cases k <;> rfl

omit lib t r in
/-- The record that `touch` looks for is the one that the request has found. -/
theorem touch_eq_recache (env : Env) (hwh : ∀ o, s.webhooks.lookup path = some o → o = wh) :
    s.touch env path wh =
      s.recache path { wh.recordCall env.calledAt with updatedAt := env.savedAt } := by
  unfold State.touch State.recache
  cases hcached : s.webhooks.lookup path with
  | none => rw [if_neg (AList.lookup_eq_none.mp hcached)]
  | some o =>
    have hmem : path ∈ s.webhooks := AList.lookup_isSome.mp (by rw [hcached]; rfl)
    rw [if_pos hmem, hwh o hcached]
    simp

/-- From the event on, the sections are `dispatch`. -/
theorem alone_record (k : ℕ) (body : String) (payload : GoMap String Field)
    (hwh : ∀ o, s.webhooks.lookup path = some o → o = wh) :
    alone lib t (k + 3) (s, .next (.record path r wh body payload)) =
      ((dispatch t.toEnv path r wh body payload s).2,
        .reply (dispatch t.toEnv path r wh body payload s).1) := by
  cases hpublish : t.publishError with
  | some err => simp [alone, advance, dispatch, hpublish, State.execution]
  | none =>
    have hwebhooks : ∀ e, (s.recordExecution t.toEnv e).webhooks = s.webhooks := by
      intro e
      unfold State.recordExecution
      split_ifs <;> rfl
    simp only [alone, advance, dispatch, hpublish, alone_reply]
    rw [touch_eq_recache]
    · rfl
    · intro o ho
      rw [hwebhooks] at ho
      exact hwh o ho

omit t in
theorem checkRequest_spec (env : Env) :
    (∃ redis, (checkRequest lib env path r wh s).2 = { s with redis }) ∧
      ∀ x, (checkRequest lib env path r wh s).1 = .ok x → wh.isActive = true := by
  have hlimit : ∃ redis, (s.checkRateLimit env wh).2 = { s with redis } := by
    unfold State.checkRateLimit
    split_ifs
    · exact ⟨_, rfl⟩
    · dsimp only
      split_ifs <;> exact ⟨_, rfl⟩
  have hactive : wh.canAccept env.now = none → wh.isActive = true := by
    intro h
    by_contra hoff
    rw [Webhook.canAccept, if_pos hoff] at h
    cases h
  unfold checkRequest
  cases haccept : wh.canAccept env.now with
  | some e => exact ⟨⟨_, rfl⟩, fun x hx => nomatch hx⟩
  | none =>
    refine ⟨?_, fun _ _ => hactive haccept⟩
    dsimp only
    split_ifs
    · exact ⟨_, rfl⟩
    rcases hrate : s.checkRateLimit env wh with ⟨_ | e, s'⟩
    all_goals rw [hrate] at hlimit
    swap
    · exact hlimit
    dsimp only
    cases requiredAuth lib wh r with
    | some e => exact hlimit
    | none =>
      dsimp only
      cases r.body with
      | error e => exact hlimit
      | ok body =>
        dsimp only
        split_ifs
        · exact hlimit
        · cases parseBody lib (r.header.get "Content-Type") body <;> exact hlimit

/-- A request that has found its webhook, up to its end. -/
theorem alone_found (k : ℕ) (hwh : ∀ o, s.webhooks.lookup path = some o → o = wh) :
    alone lib t (k + 3) (found lib t.toEnv path r wh s) =
      ((answer lib t.toEnv path r wh s).2, .reply (answer lib t.toEnv path r wh s).1) := by
  obtain ⟨redis, hredis⟩ := (checkRequest_spec lib path r wh s t.toEnv).1
  unfold found answer
  rcases hchecked : checkRequest lib t.toEnv path r wh s with ⟨o | ⟨body, payload⟩, s'⟩
  · exact alone_reply lib t s' (k + 3) o
  rw [hchecked] at hredis
  have hwebhooks : s'.webhooks = s.webhooks := by
    change s' = _ at hredis
    rw [hredis]
  refine alone_record lib t path r wh s' k body payload (fun o ho => hwh o ?_)
  rw [← hwebhooks]
  exact ho

/-- Without interruption the sections of a request are `HandleWebhook`. -/
theorem alone_find : alone lib t 5 (s, .next (.find path r)) =
      ((handleWebhook lib t.toEnv path r s).2, .reply (handleWebhook lib t.toEnv path r s).1) := by
  rw [handleWebhook_eq]
  unfold State.getWebhookByPath
  cases hcached : s.webhooks.lookup path with
  | some wh =>
    have hfind : advance lib t s (.find path r) = found lib t.toEnv path r wh s := by
      rw [advance, hcached]
    rw [alone, hfind]
    refine alone_found lib t path r wh s 1 (fun o ho => ?_)
    rw [hcached] at ho
    exact (Option.some.inj ho).symm
  | none =>
    have hfind : advance lib t s (.find path r) = (s, .next (.getByPath path r)) := by
      rw [advance, hcached]
    rw [alone, hfind, alone, advance]
    cases if t.getByPathFails then none
      else (s.rows.entries.map Sigma.snd).find? (fun wh => wh.path = path) with
    | none => rfl
    | some wh =>
      refine alone_found lib t path r wh s 0 (fun o ho => ?_)
      rw [hcached] at ho
      cases ho

end Alone

/-! ## What a section does to the table and to the cache -/

namespace Section

def saved (t : Turn) : Section → Option Webhook
  | .save _ wh _ => if t.updateFails then none else some (wh.recordCall t.calledAt)
  | .update on _ (wh :: _) => if t.updateFails then none else some { wh with isActive := on }
  | _ => none

def put : Section → Option Webhook
  | .cache true _ wh _ => some wh
  | _ => none

end Section

/-- Two records of one webhook that agree in what never changes. -/
structure Webhook.Same (a b : Webhook) : Prop where
  id : a.id = b.id
  workflowID : a.workflowID = b.workflowID
  path : a.path = b.path

/-- Rows change at the saved record only. -/
structure RowsEffect (rows rows' : GoMap String Webhook) (saved : Option Webhook) : Prop where
  changed : ∀ id row, rows'.lookup id = some row → rows.lookup id = some row ∨
    ∃ wh, saved = some wh ∧ id = wh.id ∧ row.Same wh ∧ row.isActive = wh.isActive
  kept : ∀ id row, rows.lookup id = some row → rows'.lookup id = some row ∨
    ∃ wh, saved = some wh ∧ id = wh.id
  written : ∀ wh, saved = some wh →
    ∃ row, rows'.lookup wh.id = some row ∧ row.Same wh ∧ row.isActive = wh.isActive

/-- The cache gains the record put there only; others may change in their counts and times. -/
def CacheEffect (cache cache' : GoMap String Webhook) (put : Option Webhook) : Prop :=
  ∀ path o, cache'.lookup path = some o →
    (∃ o', cache.lookup path = some o' ∧ o'.Same o) ∨ put = some o ∧ path = o.path

theorem Webhook.Same.refl (wh : Webhook) : wh.Same wh := ⟨rfl, rfl, rfl⟩

theorem RowsEffect.refl (rows : GoMap String Webhook) : RowsEffect rows rows none :=
  ⟨fun _ _ h => .inl h, fun _ _ h => .inl h, fun _ h => nomatch h⟩

theorem CacheEffect.refl (cache : GoMap String Webhook) (put : Option Webhook) :
    CacheEffect cache cache put :=
  fun _ o h => .inl ⟨o, h, .refl o⟩

theorem RowsEffect.update (env : Env) (s : State) (wh : Webhook) :
    RowsEffect s.rows (s.updateWebhook env wh).rows
      (if env.updateFails then none else some wh) := by
  unfold State.updateWebhook
  split_ifs
  · exact .refl _
  constructor
  · intro id row h
    rw [GoMap.lookup_insert] at h
    split_ifs at h with hid
    · cases h
      exact .inr ⟨wh, rfl, hid, ⟨rfl, rfl, rfl⟩, rfl⟩
    · exact .inl h
  · intro id row h
    rw [GoMap.lookup_insert]
    split_ifs with hid
    · exact .inr ⟨wh, rfl, hid⟩
    · exact .inl h
  · intro x hx
    cases hx
    exact ⟨_, AList.lookup_insert s.rows, ⟨rfl, rfl, rfl⟩, rfl⟩

theorem CacheEffect.touch (env : Env) (s : State) (path : String) (wh : Webhook) :
    CacheEffect s.webhooks (s.touch env path wh).webhooks none := by
  unfold State.touch
  cases hcached : s.webhooks.lookup path with
  | none => exact .refl _ _
  | some o =>
    dsimp only
    split_ifs
    · intro path' o' h
      rw [GoMap.lookup_insert] at h
      split_ifs at h with hpath
      · cases h
        exact .inl ⟨o, hpath ▸ hcached, rfl, rfl, rfl⟩
      · exact .inl ⟨o', h, .refl o'⟩
    · exact .refl _ _

section Frame

variable (env : Env) (s : State)

theorem rows_touch (path : String) (wh : Webhook) : (s.touch env path wh).rows = s.rows := by
  unfold State.touch
  split
  · split_ifs <;> rfl
  · rfl

theorem webhooks_updateWebhook (wh : Webhook) : (s.updateWebhook env wh).webhooks = s.webhooks := by
  unfold State.updateWebhook
  split_ifs <;> rfl

theorem updateExecution_eq (e : WebhookExecution) :
    ∃ executions, s.updateExecution env e = { s with executions } := by
  unfold State.updateExecution
  split_ifs
  · exact ⟨_, rfl⟩
  · exact ⟨_, rfl⟩

theorem recordExecution_eq (e : WebhookExecution) :
    ∃ executions, s.recordExecution env e = { s with executions } := by
  unfold State.recordExecution
  split_ifs
  · exact ⟨_, rfl⟩
  · exact ⟨_, rfl⟩

theorem found_eq (lib : Library) (path : String) (r : Request) (wh : Webhook) :
    ∃ redis, (found lib env path r wh s).1 = { s with redis } := by
  obtain ⟨redis, hredis⟩ := (checkRequest_spec lib path r wh s env).1
  refine ⟨redis, ?_⟩
  unfold found
  rcases hchecked : checkRequest lib env path r wh s with ⟨o | ⟨body, payload⟩, s'⟩
  all_goals
    rw [hchecked] at hredis
    exact hredis

end Frame

/-- What the section `p` does to the rows and to the cache. -/
structure Effect (s s' : State) (saved put : Option Webhook) : Prop where
  rows : RowsEffect s.rows s'.rows saved
  cache : CacheEffect s.webhooks s'.webhooks put

theorem Effect.refl_of_eq {s s' : State} {put : Option Webhook} (hrows : s'.rows = s.rows)
    (hcache : s'.webhooks = s.webhooks) : Effect s s' none put :=
  ⟨hrows ▸ .refl _, hcache ▸ .refl _ _⟩

theorem effect_found (lib : Library) (env : Env) (path : String) (r : Request) (wh : Webhook)
    (s : State) : Effect s (found lib env path r wh s).1 none none := by
  obtain ⟨redis, hredis⟩ := found_eq env s lib path r wh
  rw [hredis]
  exact .refl_of_eq rfl rfl

/-- What a section saves and caches, once for all of them. -/
theorem effect_advance (lib : Library) (t : Turn) (s : State) (p : Section) :
    Effect s (advance lib t s p).1 (p.saved t) p.put := by
  cases p with
  | find path r =>
    rw [advance]
    split
    · exact effect_found lib t.toEnv path r _ s
    · exact .refl_of_eq rfl rfl
  | getByPath path r =>
    rw [advance]
    split
    · exact .refl_of_eq rfl rfl
    · exact effect_found lib t.toEnv path r _ s
  | record path r wh body payload =>
    obtain ⟨executions, hs⟩ :=
      recordExecution_eq t.toEnv s (State.execution t.toEnv path r wh body)
    rw [advance, hs]
    split <;> exact .refl_of_eq rfl rfl
  | save path wh e =>
    refine ⟨?_, ?_⟩
    · have hrows := RowsEffect.update t.toEnv (s.touch t.toEnv path wh) (wh.recordCall t.calledAt)
      rw [rows_touch] at hrows
      exact hrows
    · rw [advance, webhooks_updateWebhook]
      exact .touch t.toEnv s path wh
  | processed e =>
    obtain ⟨executions, hs⟩ := updateExecution_eq t.toEnv s
      { e with
        status := .processed, processedAt := some t.processedAt,
        duration := (t.processedAt - e.createdAt).tdiv (10 ^ 6) }
    rw [advance, hs]
    exact .refl_of_eq rfl rfl
  | failed e =>
    obtain ⟨executions, hs⟩ := updateExecution_eq t.toEnv s e
    rw [advance, hs]
    exact .refl_of_eq rfl rfl
  | list on w => exact .refl_of_eq rfl rfl
  | update on w todo =>
    cases todo with
    | nil => exact .refl_of_eq rfl rfl
    | cons wh rest =>
      refine ⟨.update t.toEnv s { wh with isActive := on }, ?_⟩
      rw [advance, webhooks_updateWebhook]
      exact .refl _ _
  | cache on w wh rest =>
    refine ⟨.refl _, ?_⟩
    rw [advance]
    intro path o h
    cases on with
    | true =>
      change (s.webhooks.insert wh.path wh).lookup path = some o at h
      rw [GoMap.lookup_insert] at h
      split_ifs at h with hpath
      · cases h
        exact .inr ⟨rfl, hpath⟩
      · exact .inl ⟨o, h, .refl o⟩
    | false =>
      change (s.webhooks.erase wh.path).lookup path = some o at h
      rw [GoMap.lookup_erase] at h
      split_ifs at h
      exact .inl ⟨o, h, .refl o⟩

end LinkFlow.Webhooks
