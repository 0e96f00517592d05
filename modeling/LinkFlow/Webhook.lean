/-
Incoming webhooks: `WebhookService.HandleWebhook` of `internal/webhook/app/service/service.go`
with the contract of `pkg/contracts/webhook/webhook.go`.

A request goes through a row of checks and is then recorded and published as
`webhook.received`. Each check has its own condition for being made at all, taken from the
stored webhook or from the request, so what a published event says about its request has
to be read off the whole row (`publishes_cases`).

The library functions are parameters (`Library`): HMAC-SHA256 in hexadecimal, the parsing of
a basic `Authorization` header, and `json.Unmarshal` into a map. Headers are found under
their canonical names as `net/http` stores them. Instants are in nanoseconds. What may go
wrong around a call (an error of the database, of Redis or of the bus, a clock reading, a
UUID) is in `Env`.

A map a JSON body of `null` or an empty JSON body leaves behind is nil, and writing the
request metadata into it panics; the request then ends without an event.
-/
import LinkFlow.Lib.Expiring
import LinkFlow.Lib.GoMap

set_option autoImplicit false

namespace LinkFlow.Webhooks

/-! ## Strings and headers -/

def contains (s sub : String) : Bool := sub.toList <:+: s.toList

def trimPrefix (s pre : String) : String :=
  if pre.toList <+: s.toList then String.ofList (s.toList.drop pre.toList.length) else s

theorem trimPrefix_eq {s pre rest : String} (h : trimPrefix s pre = rest) :
    s = pre ++ rest ∨ s = rest := by
  unfold trimPrefix at h
  split at h
  · rename_i hpre
    left
    obtain ⟨tail, htail⟩ := hpre
    rw [← htail, List.drop_left] at h
    rw [← String.toList_inj, String.toList_append, ← htail, ← h, String.toList_ofList]
  · exact .inr h

/-- The characters of a header name (`validHeaderFieldByte`). -/
def validHeaderFieldByte (c : Char) : Bool := c.isAlphanum || c ∈ "!#$%&'*+-.^_`|~".toList

def canonicalChars : Bool → List Char → List Char
  | _, [] => []
  | upper, c :: cs =>
    let c := if upper then c.toUpper else c.toLower
    c :: canonicalChars (c = '-') cs

/-- A name with a character that is not allowed stays as it is. -/
def canonicalMIMEHeaderKey (s : String) : String :=
  if s.toList.all validHeaderFieldByte then String.ofList (canonicalChars true s.toList) else s

abbrev Header := GoMap String (List String)

def Header.get (h : Header) (key : String) : String :=
  (GoMap.get [] h (canonicalMIMEHeaderKey key)).headD ""

/-- `headerToMap` and `queryToMap`: the first value under each key that has one. -/
def firstValues (m : GoMap String (List String)) : GoMap String String :=
  m.entries.foldl (fun result e =>
    match e.2 with
    | [] => result
    | v :: _ => result.insert e.1 v) ∅

/-- The parts of `http.Request` the service reads; reading the body may fail. -/
structure Request where
  method : String
  header : Header := ∅
  query : GoMap String (List String) := ∅
  remoteAddr : String := ""
  body : Except String String := .ok ""

/-- What the libraries compute. -/
structure Library where
  /-- `hex.EncodeToString` of the HMAC-SHA256 of the payload under the secret -/
  hmac : String → String → String
  hmac_length : ∀ secret payload, (hmac secret payload).length = 64
  /-- what `Request.BasicAuth` makes of an `Authorization` header -/
  parseBasicAuth : String → Option (String × String)
  /-- `json.Unmarshal` into a map of values (here their JSON texts); `none` is a nil map -/
  unmarshal : String → Except String (Option (GoMap String String))

/-! ## The webhook -/

def errWebhookNotFound : String := "webhook not found"
def errWebhookDisabled : String := "webhook is disabled"
def errInvalidSignature : String := "invalid webhook signature"
def errWebhookExpired : String := "webhook has expired"
def errRateLimitExceeded : String := "rate limit exceeded"

structure Webhook where
  id : String
  (workflowID nodeID : String := "")
  path : String
  method : String := "POST"
  secret : String := ""
  isActive : Bool := true
  requireAuth : Bool := false
  authType : String := ""
  authConfig : GoMap String String := ∅
  rateLimit : ℤ := 100
  (expiresAt lastCalledAt : Option ℤ := none)
  (callCount updatedAt : ℤ := 0)

namespace Webhook

/-- `wh.AuthConfig[key]` -/
def config (wh : Webhook) (key : String) : String := GoMap.get "" wh.authConfig key

def isExpired (now : ℤ) (wh : Webhook) : Bool := wh.expiresAt.any (· < now)

/-- The answer is the error, if any. -/
def canAccept (now : ℤ) (wh : Webhook) : Option String :=
  if ¬ wh.isActive then some errWebhookDisabled
  else if wh.isExpired now then some errWebhookExpired
  else none

def verifySignature (lib : Library) (wh : Webhook) (payload signature : String) : Bool :=
  if wh.secret = "" then true else signature = lib.hmac wh.secret payload

def recordCall (now : ℤ) (wh : Webhook) : Webhook :=
  { wh with lastCalledAt := some now, callCount := wh.callCount + 1, updatedAt := now }

end Webhook

/-! ## The service -/

/-- `payload["_webhook"]` -/
structure Metadata where
  (path method : String)
  (headers queryParams : GoMap String String)
  remoteAddr : String
  timestamp : ℤ

/-- A value of the payload. -/
inductive Field
  | raw (body : String)
  | json (text : String)
  | webhook (m : Metadata)

/-- The states of a `WebhookExecution`. -/
inductive ExecutionStatus
  | received | processed | failed
deriving DecidableEq, Repr

structure WebhookExecution where
  (id webhookID workflowID method path : String)
  (headers queryParams : GoMap String String)
  (body contentType ipAddress userAgent : String)
  status : ExecutionStatus
  error : String := ""
  createdAt : ℤ
  processedAt : Option ℤ := none
  duration : ℤ := 0

/-- The `webhook.received` event. -/
structure Received where
  (webhookID workflowID nodeID executionID : String)
  data : GoMap String Field

/-- The cache, the two tables, Redis, and the events handed to the bus. -/
structure State where
  (webhooks rows : GoMap String Webhook := ∅)
  executions : GoMap String WebhookExecution := ∅
  redis : Expiring.Store String ℕ ℤ := ∅
  published : List Received := []

/-- What a call meets: clock readings, the UUID it draws, and errors. -/
structure Env where
  /-- the reading of `CanAccept`, of Redis and of the metadata -/
  (now createdAt calledAt savedAt processedAt : ℤ := 0)
  uuid : String := ""
  (getByPathFails incrFails expireFails recordFails : Bool := false)
  publishError : Option String := none
  (updateFails updateExecutionFails : Bool := false)

structure WebhookResponse where
  success : Bool
  (executionID message : String)
deriving DecidableEq, Repr

/-- How a call ends. -/
inductive Outcome
  | answered (response : Option WebhookResponse) (status : ℕ) (err : Option String)
  | panicked
deriving DecidableEq, Repr

def Outcome.refused (status : ℕ) (err : String) : Outcome := .answered none status (some err)

namespace State

/-- The cache first, then the table (`GetByPath`). -/
def getWebhookByPath (env : Env) (path : String) (s : State) : Option Webhook :=
  match s.webhooks.lookup path with
  | some wh => some wh
  | none =>
    if env.getByPathFails then none
    else (s.rows.entries.map Sigma.snd).find? (fun wh => wh.path = path)

/-- A minute, in nanoseconds. -/
def minute : ℤ := 60 * 10 ^ 9

def checkRateLimit (env : Env) (wh : Webhook) (s : State) : Option String × State :=
  let key := "webhook:ratelimit:" ++ wh.id
  if env.incrFails then (none, s)
  else
    let (count, redis) := s.redis.incr env.now key
    let redis := if count = 1 ∧ ¬ env.expireFails then
      redis.expire env.now key (env.now + minute) else redis
    if (count : ℤ) > wh.rateLimit then (some errRateLimitExceeded, { s with redis := redis })
    else (none, { s with redis := redis })

/-- `repo.Update`, which saves the row; its error is dropped. -/
def updateWebhook (env : Env) (wh : Webhook) (s : State) : State :=
  if env.updateFails then s
  else { s with rows := s.rows.insert wh.id { wh with updatedAt := env.savedAt } }

/-- Its error is dropped. -/
def updateExecution (env : Env) (e : WebhookExecution) (s : State) : State :=
  if env.updateExecutionFails then s else { s with executions := s.executions.insert e.id e }

/-- Its error is logged. -/
def recordExecution (env : Env) (e : WebhookExecution) (s : State) : State :=
  if env.recordFails then s else { s with executions := s.executions.insert e.id e }

/-- The cached object is the one `RecordCall` writes to, if the webhook came from there. -/
def recache (path : String) (wh : Webhook) (s : State) : State :=
  if path ∈ s.webhooks then { s with webhooks := s.webhooks.insert path wh } else s

end State

/-- The answer is the error, if any. -/
def verifyAuth (lib : Library) (wh : Webhook) (r : Request) : Option String :=
  if wh.authType = "header" then
    if r.header.get (wh.config "headerName") ≠ wh.config "headerValue" then
      some "invalid auth header"
    else none
  else if wh.authType = "basic" then
    match lib.parseBasicAuth (r.header.get "Authorization") with
    | none => some "basic auth required"
    | some (username, password) =>
      if username ≠ wh.config "username" ∨ password ≠ wh.config "password" then
        some "invalid credentials"
      else none
  else if wh.authType = "bearer" then
    if trimPrefix (r.header.get "Authorization") "Bearer " ≠ wh.config "token" then
      some "invalid bearer token"
    else none
  else none

/-- The authentication step of `HandleWebhook`. -/
def requiredAuth (lib : Library) (wh : Webhook) (r : Request) : Option String :=
  if wh.requireAuth then verifyAuth lib wh r else none

/-- The payload before the metadata is added; `none` is a nil map. -/
def parseBody (lib : Library) (contentType body : String) : Option (GoMap String Field) :=
  let raw : GoMap String Field := AList.singleton "raw" (.raw body)
  if contains contentType "application/json" then
    if 0 < body.length then
      match lib.unmarshal body with
      | .error _ => some raw
      | .ok m => m.map (fun m => m.entries.foldl (fun p e => p.insert e.1 (.json e.2)) ∅)
    else none
  else some raw

/-- The rest of `HandleWebhook` once the payload is complete: record, publish, update. -/
def dispatch (env : Env) (path : String) (r : Request) (wh : Webhook) (body : String)
    (payload : GoMap String Field) (s : State) : Outcome × State :=
  let execution : WebhookExecution :=
    { id := env.uuid, webhookID := wh.id, workflowID := wh.workflowID, method := r.method,
      path := path, headers := firstValues r.header, queryParams := firstValues r.query,
      body := body, contentType := r.header.get "Content-Type", ipAddress := r.remoteAddr,
      userAgent := r.header.get "User-Agent", status := .received, createdAt := env.createdAt }
  let s := s.recordExecution env execution
  let event : Received :=
    { webhookID := wh.id, workflowID := wh.workflowID, nodeID := wh.nodeID,
      executionID := execution.id, data := payload }
  let s := { s with published := s.published ++ [event] }
  match env.publishError with
  | some e =>
    (.refused 500 e, s.updateExecution env { execution with status := .failed, error := e })
  | none =>
    let wh := wh.recordCall env.calledAt
    let s := (s.recache path { wh with updatedAt := env.savedAt }).updateWebhook env wh
    let s := s.updateExecution env
      { execution with
        status := .processed, processedAt := some env.processedAt,
        duration := (env.processedAt - execution.createdAt).tdiv (10 ^ 6) }
    (.answered (some ⟨true, execution.id, "Webhook received and workflow triggered"⟩) 200 none, s)

def handleWebhook (lib : Library) (env : Env) (path : String) (r : Request) (s : State) :
    Outcome × State :=
  match s.getWebhookByPath env path with
  | none => (.refused 404 errWebhookNotFound, s)
  | some wh =>
    match wh.canAccept env.now with
    | some e => (.refused 403 e, s)
    | none =>
      if wh.method ≠ r.method ∧ wh.method ≠ "ANY" then (.refused 405 "method not allowed", s)
      else
        match s.checkRateLimit env wh with
        | (some e, s) => (.refused 429 e, s)
        | (none, s) =>
          match requiredAuth lib wh r with
          | some e => (.refused 401 e, s)
          | none =>
            match r.body with
            | .error e => (.refused 400 ("failed to read body: " ++ e), s)
            | .ok body =>
              let signature := r.header.get "X-Webhook-Signature"
              if wh.secret ≠ "" ∧ signature ≠ ""
                  ∧ ¬ wh.verifySignature lib body signature then
                (.refused 401 errInvalidSignature, s)
              else
                match parseBody lib (r.header.get "Content-Type") body with
                | none => (.panicked, s)
                | some payload =>
                  dispatch env path r wh body
                    (payload.insert "_webhook" (.webhook
                      { path := path, method := r.method, headers := firstValues r.header,
                        queryParams := firstValues r.query, remoteAddr := r.remoteAddr,
                        timestamp := env.now / 10 ^ 9 })) s

/-! ## What a published event went through -/

section Frame

variable (env : Env) (s : State)

@[simp] theorem published_checkRateLimit (wh : Webhook) :
    (s.checkRateLimit env wh).2.published = s.published := by
  unfold State.checkRateLimit
  split_ifs
  · rfl
  · dsimp only
    split_ifs <;> rfl

@[simp] theorem published_updateWebhook (wh : Webhook) :
    (s.updateWebhook env wh).published = s.published := by
  unfold State.updateWebhook
  split_ifs <;> rfl

@[simp] theorem published_updateExecution (e : WebhookExecution) :
    (s.updateExecution env e).published = s.published := by
  unfold State.updateExecution
  split_ifs <;> rfl

@[simp] theorem published_recordExecution (e : WebhookExecution) :
    (s.recordExecution env e).published = s.published := by
  unfold State.recordExecution
  split_ifs <;> rfl

@[simp] theorem published_recache (path : String) (wh : Webhook) :
    (s.recache path wh).published = s.published := by
  unfold State.recache
  split_ifs <;> rfl

end Frame

theorem published_dispatch (env : Env) (path : String) (r : Request) (wh : Webhook)
    (body : String) (payload : GoMap String Field) (s : State) :
    ∃ event : Received, event.webhookID = wh.id ∧ event.data = payload ∧
      (dispatch env path r wh body payload s).2.published = s.published ++ [event] := by
  refine ⟨⟨wh.id, wh.workflowID, wh.nodeID, env.uuid, payload⟩, rfl, rfl, ?_⟩
  unfold dispatch
  cases env.publishError with
  | none => simp
  | some e => simp

/-- **The row of checks.** A call that publishes has found a webhook for the path that accepts
requests and allows the method, the credential passed `verifyAuth` if one is asked for, the body was
read, and its signature was right if there were a secret and a signature; it publishes one event, of
that webhook. -/
theorem publishes_cases (lib : Library) (env : Env) (path : String) (r : Request) (s : State) :
    (handleWebhook lib env path r s).2.published = s.published ∨
      ∃ wh body event, s.getWebhookByPath env path = some wh ∧
        wh.canAccept env.now = none ∧
        (wh.method = r.method ∨ wh.method = "ANY") ∧
        (wh.requireAuth = true → verifyAuth lib wh r = none) ∧
        r.body = .ok body ∧
        (wh.secret ≠ "" → r.header.get "X-Webhook-Signature" ≠ "" →
          wh.verifySignature lib body (r.header.get "X-Webhook-Signature") = true) ∧
        event.webhookID = wh.id ∧
        (handleWebhook lib env path r s).2.published = s.published ++ [event] := by
  unfold handleWebhook
  split
  · exact .inl rfl
  rename_i wh hfind
  split
  · exact .inl rfl
  rename_i haccept
  split
  · exact .inl rfl
  rename_i hmethod
  have hrate := published_checkRateLimit env s wh
  split
  · rename_i e s' hlimited
    rw [hlimited] at hrate
    exact .inl hrate
  rename_i s' hlimited
  rw [hlimited] at hrate
  split
  · exact .inl hrate
  rename_i hauth
  split
  · exact .inl hrate
  rename_i body hbody
  dsimp only
  split
  · exact .inl hrate
  rename_i hsig
  split
  · exact .inl hrate
  rename_i payload hpayload
  obtain ⟨event, hid, -, hpub⟩ := published_dispatch env path r wh body
    (payload.insert "_webhook" (.webhook
      { path := path, method := r.method, headers := firstValues r.header,
        queryParams := firstValues r.query, remoteAddr := r.remoteAddr,
        timestamp := env.now / 10 ^ 9 })) s'
  refine .inr ⟨wh, body, event, hfind, haccept, ?_, ?_, hbody, ?_, hid, ?_⟩
  · by_contra hne
    rw [not_or] at hne
    exact hmethod hne
  · intro hreq
    rwa [requiredAuth, if_pos hreq] at hauth
  · intro hsecret hpresent
    by_contra hbad
    exact hsig ⟨hsecret, hpresent, hbad⟩
  · rw [hpub]
    exact congrArg (· ++ [event]) hrate

/-! ## Authentic requests -/

/-- The webhook names a way to authenticate and what the caller has to show. -/
def Webhook.Configured (wh : Webhook) : Prop :=
  (wh.authType = "header" ∧ wh.config "headerName" ≠ "" ∧ wh.config "headerValue" ≠ "") ∨
  (wh.authType = "basic" ∧ (wh.config "username" ≠ "" ∨ wh.config "password" ≠ "")) ∨
  (wh.authType = "bearer" ∧ wh.config "token" ≠ "")

/-- The request shows what the webhook's configuration asks for. A bearer token may stand
alone in the header or after its scheme. -/
def CarriesCredential (lib : Library) (wh : Webhook) (r : Request) : Prop :=
  wh.Configured ∧
    ((wh.authType = "header" ∧ r.header.get (wh.config "headerName") = wh.config "headerValue") ∨
    (wh.authType = "basic" ∧ lib.parseBasicAuth (r.header.get "Authorization")
      = some (wh.config "username", wh.config "password")) ∨
    (wh.authType = "bearer" ∧ (r.header.get "Authorization" = "Bearer " ++ wh.config "token" ∨
      r.header.get "Authorization" = wh.config "token")))

def CarriesSignature (lib : Library) (wh : Webhook) (r : Request) : Prop :=
  ∃ body, r.body = .ok body ∧ r.header.get "X-Webhook-Signature" = lib.hmac wh.secret body

/-- The request has every proof the webhook calls for. -/
def Authentic (lib : Library) (wh : Webhook) (r : Request) : Prop :=
  (wh.requireAuth = true → CarriesCredential lib wh r) ∧
    (wh.secret ≠ "" → CarriesSignature lib wh r)

theorem carriesCredential_of_verifyAuth {lib : Library} {wh : Webhook} {r : Request}
    (hconf : wh.Configured) (h : verifyAuth lib wh r = none) : CarriesCredential lib wh r := by
  refine ⟨hconf, ?_⟩
  unfold verifyAuth at h
  obtain ⟨ht, -⟩ | ⟨ht, -⟩ | ⟨ht, -⟩ := hconf
  · rw [if_pos ht] at h
    left
    refine ⟨ht, ?_⟩
    by_contra hne
    rw [if_pos hne] at h
    exact absurd h (by simp)
  · rw [if_neg (by rw [ht]; decide), if_pos ht] at h
    right; left
    refine ⟨ht, ?_⟩
    split at h
    · exact absurd h (by simp)
    rename_i username password hparse
    split_ifs at h with hbad
    rw [not_or, not_not, not_not] at hbad
    rw [hparse, hbad.1, hbad.2]
  · rw [if_neg (by rw [ht]; decide), if_neg (by rw [ht]; decide), if_pos ht] at h
    right; right
    refine ⟨ht, ?_⟩
    split_ifs at h with hbad
    rw [not_not] at hbad
    exact trimPrefix_eq hbad

/-- **A published request is authentic exactly when the webhook's authentication is configured
and the signature was not left out.** -/
theorem published_authentic_iff (lib : Library) (env : Env) (path : String) (r : Request)
    (s : State) (hpub : (handleWebhook lib env path r s).2.published ≠ s.published) :
    ∃ wh, s.getWebhookByPath env path = some wh ∧
      (Authentic lib wh r ↔
        (wh.requireAuth = true → wh.Configured) ∧
          (wh.secret ≠ "" → r.header.get "X-Webhook-Signature" ≠ "")) := by
  obtain hnone | ⟨wh, body, event, hfind, -, -, hauth, hbody, hsig, -, -⟩ :=
    publishes_cases lib env path r s
  · exact absurd hnone hpub
  refine ⟨wh, hfind, ?_, ?_⟩
  · rintro ⟨hcred, hsigned⟩
    refine ⟨fun hreq => (hcred hreq).1, fun hsecret hempty => ?_⟩
    -- a digest is never the empty string
    obtain ⟨body', -, hmac⟩ := hsigned hsecret
    have hlen := lib.hmac_length wh.secret body'
    rw [← hmac, hempty] at hlen
    exact absurd hlen (by decide)
  · rintro ⟨hconf, hpresent⟩
    refine ⟨fun hreq => carriesCredential_of_verifyAuth (hconf hreq) (hauth hreq), ?_⟩
    intro hsecret
    have hverified := hsig hsecret (hpresent hsecret)
    rw [Webhook.verifySignature, if_neg hsecret, decide_eq_true_eq] at hverified
    exact ⟨body, hbody, hverified⟩

/-- A library whose digests are all zeros and which parses nothing. -/
def zeroLibrary : Library where
  hmac := fun _ _ => String.ofList (List.replicate 64 '0')
  hmac_length := fun _ _ => by rw [String.length_ofList, List.length_replicate]
  parseBasicAuth := fun _ => none
  unmarshal := fun _ => .error "invalid character"

/-- A webhook with a secret, or with an authentication that is not configured. -/
def looseWebhook (secret authType : String) (requireAuth : Bool) : Webhook where
  id := "h"
  path := "p"
  secret := secret
  requireAuth := requireAuth
  authType := authType

/-- The service with one webhook in its cache. -/
def serviceWith (wh : Webhook) : State where
  webhooks := AList.singleton wh.path wh

/-- A request without any header. -/
def bareRequest : Request where
  method := "POST"

/-- A webhook that asks for a header, and a request with it. -/
def keyedWebhook : Webhook where
  id := "h"
  path := "p"
  requireAuth := true
  authType := "header"
  authConfig := (AList.singleton "headerName" "x-key").insert "headerValue" "k"

def keyedRequest : Request where
  method := "POST"
  header := AList.singleton "X-Key" ["k"]

theorem keyedRequest_authentic :
    (handleWebhook zeroLibrary {} "p" keyedRequest (serviceWith keyedWebhook)).2.published
      ≠ (serviceWith keyedWebhook).published ∧
    ∃ wh, (serviceWith keyedWebhook).getWebhookByPath {} "p" = some wh ∧
      (Authentic zeroLibrary wh keyedRequest ↔
        (wh.requireAuth = true → wh.Configured) ∧
          (wh.secret ≠ "" → keyedRequest.header.get "X-Webhook-Signature" ≠ "")) := by
  have hpub : (handleWebhook zeroLibrary {} "p" keyedRequest (serviceWith keyedWebhook)).2.published
      ≠ (serviceWith keyedWebhook).published := by
    have hlen : (handleWebhook zeroLibrary {} "p" keyedRequest
        (serviceWith keyedWebhook)).2.published.length = 1 := by decide
    intro heq
    rw [heq] at hlen
    exact absurd hlen (by decide)
  exact ⟨hpub, published_authentic_iff zeroLibrary {} "p" keyedRequest (serviceWith keyedWebhook)
    hpub⟩

/-- A request without any header is published by a webhook with a secret, by one that requires
authentication of no known type, and by one that requires a bearer token without having one. -/
theorem bareRequest_published : (∀ lib, (handleWebhook lib {} "p" bareRequest
        (serviceWith (looseWebhook "secret" "" false))).2.published.length = 1 ∧
      ¬ Authentic lib (looseWebhook "secret" "" false) bareRequest) ∧
    (∀ lib, (handleWebhook lib {} "p" bareRequest
        (serviceWith (looseWebhook "" "" true))).2.published.length = 1 ∧
      ¬ Authentic lib (looseWebhook "" "" true) bareRequest) ∧
    (∀ lib, (handleWebhook lib {} "p" bareRequest
        (serviceWith (looseWebhook "" "bearer" true))).2.published.length = 1 ∧
      ¬ Authentic lib (looseWebhook "" "bearer" true) bareRequest) := by
  refine ⟨fun lib => ⟨rfl, fun h => ?_⟩, fun lib => ⟨rfl, fun h => ?_⟩,
    fun lib => ⟨rfl, fun h => ?_⟩⟩
  · obtain ⟨body, -, hmac⟩ := h.2 (by decide)
    have hlen := lib.hmac_length "secret" body
    have hmac' : ("" : String) = lib.hmac "secret" body := hmac
    rw [← hmac'] at hlen
    exact absurd hlen (by decide)
  · obtain ⟨ht, -⟩ | ⟨ht, -⟩ | ⟨ht, -⟩ := (h.1 rfl).1
    · exact absurd ht (by decide)
    · exact absurd ht (by decide)
    · exact absurd ht (by decide)
  · obtain ⟨ht, -⟩ | ⟨ht, -⟩ | ⟨-, htoken⟩ := (h.1 rfl).1
    · exact absurd ht (by decide)
    · exact absurd ht (by decide)
    · exact htoken rfl

end LinkFlow.Webhooks
