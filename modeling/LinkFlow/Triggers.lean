/-
The triggers of a workflow (`pkg/contracts/workflow/trigger.go`): what `Validate` accepts and
writes into the configuration, when a trigger fires, and what `TriggerFactory.CreateTrigger`
makes of a configuration.

Only an event trigger can fail to decide: it compares interface values in a loop over a map, and
a comparison of slices or maps panics. That it fires does not depend on the order of the loop
(`EventTrigger.shouldFire_eq_true_iff`), and whether some event makes it fire can be read off
its filters (`EventTrigger.Satisfiable`).
-/
import LinkFlow.Lib.GoValue

set_option autoImplicit false

namespace LinkFlow

/-! ## The types -/

inductive TriggerType
  | webhook | schedule | event | manual | email | api
deriving DecidableEq, Repr

inductive TriggerStatus
  | active | inactive | paused
deriving DecidableEq, Repr

def TriggerType.name : TriggerType → String
  | .webhook => "webhook"
  | .schedule => "schedule"
  | .event => "event"
  | .manual => "manual"
  | .email => "email"
  | .api => "api"

abbrev Config := GoMap String GoValue

/-- The errors of the cron parser with five fields, of the engine's own parser, which takes
descriptors as well, and of `time.LoadLocation`, and the texts of times in a configuration and in
JSON. -/
structure TriggerEnv where
  (parseCron parseStandard : String → Option String)
  standard_of_cron : ∀ e, parseCron e = none → parseStandard e = none
  loadLocation : String → Option String
  (rfc3339 jsonTime : ℤ → String)

/-- Libraries that accept every expression and every time zone. -/
def plainEnv : TriggerEnv where
  parseCron _ := none
  parseStandard _ := none
  standard_of_cron _ _ := rfl
  loadLocation _ := none
  rfc3339 _ := "1970-01-01T00:00:00Z"
  jsonTime _ := "1970-01-01T00:00:00Z"

/-- `BaseTrigger`, without its ID, times and counters. -/
structure BaseTrigger where
  (workflowID name : String)
  status : TriggerStatus
  config : Config

structure WebhookTrigger extends BaseTrigger where
  (path method secret : String)

structure ScheduleTrigger extends BaseTrigger where
  (cronExpression timezone : String)
  (startDate endDate : Option ℤ)

structure EventTrigger extends BaseTrigger where
  (eventType eventSource : String)
  filters : GoMap String GoValue

structure ManualTrigger extends BaseTrigger where
  requireConfirmation : Bool
  allowedUsers : List String

structure EmailTrigger extends BaseTrigger where
  (emailAddress subject : String)
  (fromFilter keywords : List String)

inductive Trigger
  | webhook (t : WebhookTrigger)
  | schedule (t : ScheduleTrigger)
  | event (t : EventTrigger)
  | manual (t : ManualTrigger)
  | email (t : EmailTrigger)

def BaseTrigger.isActive (t : BaseTrigger) : Bool := t.status = .active

def newBase (workflowID name : String) (status : TriggerStatus) : BaseTrigger where
  workflowID := workflowID
  name := name
  status := status
  config := ∅

/-! ## Webhooks -/

def newWebhookTrigger (workflowID name path : String) : WebhookTrigger where
  toBaseTrigger := newBase workflowID name .inactive
  path := path
  method := "POST"
  secret := ""

namespace WebhookTrigger

def validMethods : List String := ["GET", "POST", "PUT", "DELETE", "PATCH"]

/-- The configuration that `Validate` writes. -/
def written (t : WebhookTrigger) : Config :=
  ((t.config.insert "path" (.string t.path)).insert "method" (.string t.method)).insert "secret"
    (.string t.secret)

/-- The error, or the trigger with its configuration written. -/
def validate (t : WebhookTrigger) : Except String WebhookTrigger :=
  if t.path = "" then .error "webhook path is required"
  else if t.method ∉ validMethods then .error ("invalid HTTP method: " ++ t.method)
  else .ok { t with config := t.written }

/-- Path and method are only compared if the event has them. -/
def shouldFire (t : WebhookTrigger) : GoValue → Bool
  | .map m =>
    let webhookEvent := m.toMap
    t.isActive &&
      (webhookEvent.lookup "path").asString.all (· = t.path) &&
      (webhookEvent.lookup "method").asString.all (· = t.method) &&
      (t.secret = "" || (webhookEvent.lookup "secret").asString = some t.secret)
  | _ => false

end WebhookTrigger

/-! ## Schedules -/

def newScheduleTrigger (workflowID name cronExpression : String) : ScheduleTrigger where
  toBaseTrigger := newBase workflowID name .inactive
  cronExpression := cronExpression
  timezone := "UTC"
  startDate := none
  endDate := none

namespace ScheduleTrigger

def written (env : TriggerEnv) (t : ScheduleTrigger) : Config :=
  let config := (t.config.insert "cronExpression" (.string t.cronExpression)).insert "timezone"
    (.string t.timezone)
  let config := match t.startDate with
    | some d => config.insert "startDate" (.string (env.rfc3339 d))
    | none => config
  match t.endDate with
  | some d => config.insert "endDate" (.string (env.rfc3339 d))
  | none => config

def validate (env : TriggerEnv) (t : ScheduleTrigger) : Except String ScheduleTrigger :=
  if t.cronExpression = "" then .error "cron expression is required"
  else match env.parseCron t.cronExpression with
    | some err => .error ("invalid cron expression: " ++ err)
    | none => match env.loadLocation t.timezone with
        | some err => .error ("invalid timezone: " ++ err)
        | none =>
          if t.startDate.any (fun startDate => t.endDate.any (· < startDate)) = true then
            .error "start date must be before end date"
          else .ok { t with config := t.written env }

/-- Whether the expression matches the time is not asked. -/
def shouldFire (env : TriggerEnv) (t : ScheduleTrigger) : GoValue → Bool
  | .time now =>
    t.isActive &&
      !t.startDate.any (now < ·) &&
      !t.endDate.any (· < now) &&
      (env.parseCron t.cronExpression).isNone
  | _ => false

end ScheduleTrigger

/-! ## Events -/

def newEventTrigger (workflowID name eventType : String) : EventTrigger where
  toBaseTrigger := newBase workflowID name .inactive
  eventType := eventType
  eventSource := ""
  filters := ∅

namespace EventTrigger

def written (t : EventTrigger) : Config :=
  ((t.config.insert "eventType" (.string t.eventType)).insert "eventSource"
    (.string t.eventSource)).insert "filters" (.map (GoEntries.ofMap t.filters))

def validate (t : EventTrigger) : Except String EventTrigger :=
  if t.eventType = "" then .error "event type is required"
  else .ok { t with config := t.written }

def matchFilters (eventData : GoMap String GoValue) :
    List ((_ : String) × GoValue) → Except Uncomparable Bool
  | [] => .ok true
  | ⟨key, expectedValue⟩ :: rest =>
    match eventData.lookup key with
    | none => .ok false
    | some actualValue => match actualValue.equal expectedValue with
        | .error err => .error err
        | .ok false => .ok false
        | .ok true => matchFilters eventData rest

/-- `ShouldFire`, which panics where a filter and the event have slices or maps to compare. -/
def shouldFire (ρ : RangeOrder) (t : EventTrigger) : GoValue → Except Uncomparable Bool
  | .map m =>
    let eventData := m.toMap
    if (t.isActive && decide ((eventData.lookup "type").asString = some t.eventType) &&
        (t.eventSource = "" || (eventData.lookup "source").asString = some t.eventSource)) = true
    then matchFilters eventData (ρ.run 383 t.filters.entries)
    else .ok false
  | _ => .ok false

end EventTrigger

/-! ## Manual triggers -/

/-- Manual triggers are always active. -/
def newManualTrigger (workflowID name : String) : ManualTrigger where
  toBaseTrigger := newBase workflowID name .active
  requireConfirmation := false
  allowedUsers := []

namespace ManualTrigger

def written (t : ManualTrigger) : Config :=
  (t.config.insert "requireConfirmation" (.bool t.requireConfirmation)).insert "allowedUsers"
    (.strings t.allowedUsers)

def validate (t : ManualTrigger) : Except String ManualTrigger := .ok { t with config := t.written }

/-- `ShouldFire`, which does not ask for the status. -/
def shouldFire (t : ManualTrigger) : GoValue → Bool
  | .map m =>
    let manualEvent := m.toMap
    (t.allowedUsers = [] || (manualEvent.lookup "userId").asString.any (· ∈ t.allowedUsers)) &&
      (!t.requireConfirmation || (manualEvent.lookup "confirmed").asBool = some true)
  | _ => false

end ManualTrigger

/-! ## E-mails -/

def newEmailTrigger (workflowID name emailAddress : String) : EmailTrigger where
  toBaseTrigger := newBase workflowID name .inactive
  emailAddress := emailAddress
  subject := ""
  fromFilter := []
  keywords := []

/-- `str` begins with `substr`. -/
def containsString (str substr : String) : Bool := substr.toList.isPrefixOf str.toList

namespace EmailTrigger

def written (t : EmailTrigger) : Config :=
  (((t.config.insert "emailAddress" (.string t.emailAddress)).insert "subject"
    (.string t.subject)).insert "fromFilter" (.strings t.fromFilter)).insert "keywords"
    (.strings t.keywords)

def validate (t : EmailTrigger) : Except String EmailTrigger :=
  if t.emailAddress = "" then .error "email address is required"
  else if t.emailAddress.utf8ByteSize < 3 ∨ 254 < t.emailAddress.utf8ByteSize then
    .error "invalid email address"
  else .ok { t with config := t.written }

/-- The subject is only looked at if the event has one. -/
def shouldFire (t : EmailTrigger) : GoValue → Bool
  | .map m =>
    let emailEvent := m.toMap
    t.isActive &&
      decide ((emailEvent.lookup "to").asString = some t.emailAddress) &&
      (t.subject = "" ||
        (emailEvent.lookup "subject").asString.all (containsString · t.subject)) &&
      (t.fromFilter = [] || (emailEvent.lookup "from").asString.any (· ∈ t.fromFilter)) &&
      (t.keywords = [] || (emailEvent.lookup "body").asString.any
        (fun body => t.keywords.all (containsString body)))
  | _ => false

end EmailTrigger

/-! ## The interface and the factory -/

namespace Trigger

def type : Trigger → TriggerType
  | .webhook _ => .webhook
  | .schedule _ => .schedule
  | .event _ => .event
  | .manual _ => .manual
  | .email _ => .email

def base : Trigger → BaseTrigger
  | .webhook t => t.toBaseTrigger
  | .schedule t => t.toBaseTrigger
  | .event t => t.toBaseTrigger
  | .manual t => t.toBaseTrigger
  | .email t => t.toBaseTrigger

def getConfig (t : Trigger) : Config := t.base.config

def withStatus (status : TriggerStatus) : Trigger → Trigger
  | .webhook t => .webhook { t with status }
  | .schedule t => .schedule { t with status }
  | .event t => .event { t with status }
  | .manual t => .manual { t with status }
  | .email t => .email { t with status }

def validate (env : TriggerEnv) : Trigger → Except String Trigger
  | .webhook t => t.validate.map .webhook
  | .schedule t => (t.validate env).map .schedule
  | .event t => t.validate.map .event
  | .manual t => t.validate.map .manual
  | .email t => t.validate.map .email

def shouldFire (env : TriggerEnv) (ρ : RangeOrder) : Trigger → GoValue → Except Uncomparable Bool
  | .webhook t, e => .ok (t.shouldFire e)
  | .schedule t, e => .ok (t.shouldFire env e)
  | .event t, e => t.shouldFire ρ e
  | .manual t, e => .ok (t.shouldFire e)
  | .email t, e => .ok (t.shouldFire e)

def Fires (env : TriggerEnv) (ρ : RangeOrder) (t : Trigger) (e : GoValue) : Prop :=
  t.shouldFire env ρ e = .ok true

end Trigger

/-- The configuration that `json.Unmarshal` finds in the JSON of `config`. -/
def decodeConfig (env : TriggerEnv) (config : Config) : Config :=
  ((GoEntries.ofMap config).json env.jsonTime).toMap

def TriggerFactory.createTrigger (triggerType : TriggerType) (config : Config) :
    Except String Trigger :=
  let workflowID := (config.lookup "workflowId").asString.getD ""
  let name := (config.lookup "name").asString.getD ""
  match triggerType with
  | .webhook =>
    let trigger := newWebhookTrigger workflowID name ((config.lookup "path").asString.getD "")
    .ok (.webhook { trigger with
      method := (config.lookup "method").asString.getD trigger.method,
      secret := (config.lookup "secret").asString.getD trigger.secret })
  | .schedule =>
    let trigger := newScheduleTrigger workflowID name
      ((config.lookup "cronExpression").asString.getD "")
    .ok (.schedule { trigger with
      timezone := (config.lookup "timezone").asString.getD trigger.timezone })
  | .event =>
    let trigger := newEventTrigger workflowID name
      ((config.lookup "eventType").asString.getD "")
    .ok (.event { trigger with
      eventSource := (config.lookup "eventSource").asString.getD trigger.eventSource,
      filters := (config.lookup "filters").asMap.getD trigger.filters })
  | .manual =>
    let trigger := newManualTrigger workflowID name
    .ok (.manual { trigger with
      requireConfirmation :=
        (config.lookup "requireConfirmation").asBool.getD trigger.requireConfirmation
      allowedUsers := (config.lookup "allowedUsers").asStrings.getD trigger.allowedUsers })
  | .email =>
    let trigger := newEmailTrigger workflowID name
      ((config.lookup "emailAddress").asString.getD "")
    .ok (.email { trigger with
      subject := (config.lookup "subject").asString.getD trigger.subject,
      fromFilter := (config.lookup "fromFilter").asStrings.getD trigger.fromFilter,
      keywords := (config.lookup "keywords").asStrings.getD trigger.keywords })
  | .api => .error ("unsupported trigger type: " ++ triggerType.name)

def Trigger.rebuild (env : TriggerEnv) (t : Trigger) : Except String Trigger :=
  TriggerFactory.createTrigger t.type (decodeConfig env t.getConfig)

/-! ## When an event trigger fires -/

namespace EventTrigger

theorem matchFilters_eq_true_iff (eventData : GoMap String GoValue)
    (filters : List ((_ : String) × GoValue)) : matchFilters eventData filters = .ok true ↔
      ∀ f ∈ filters, eventData.lookup f.1 = some f.2 ∧ f.2.comparable = true := by
  induction filters with
  | nil => simp [matchFilters]
  | cons f rest ih =>
    obtain ⟨key, expected⟩ := f
    rw [matchFilters, List.forall_mem_cons]
    cases hlookup : eventData.lookup key with
    | none => simp
    | some actual =>
      have heq := actual.equal_eq_true_iff expected
      rcases hequal : actual.equal expected with err | (_ | _)
      · simp [← heq, hequal]
      · simp [← heq, hequal]
      · rw [Option.some.injEq, ← heq, ← ih]
        simp only [hequal, true_and]

def Matches (eventType eventSource : String) (filters eventData : GoMap String GoValue) : Prop :=
  eventData.lookup "type" = some (.string eventType) ∧
    (eventSource ≠ "" → eventData.lookup "source" = some (.string eventSource)) ∧
    ∀ k v, filters.lookup k = some v → eventData.lookup k = some v ∧ v.comparable = true

theorem shouldFire_eq_true_iff (ρ : RangeOrder) (t : EventTrigger) (m : GoEntries) :
    t.shouldFire ρ (.map m) = .ok true ↔
      t.status = .active ∧ Matches t.eventType t.eventSource t.filters m.toMap := by
  have hloop : matchFilters m.toMap (ρ.run 383 t.filters.entries) = .ok true ↔
      ∀ k v, t.filters.lookup k = some v → m.toMap.lookup k = some v ∧ v.comparable = true := by
    rw [matchFilters_eq_true_iff]
    constructor
    · intro h k v hv
      exact h ⟨k, v⟩ ((RangeOrder.mem_run ρ 383 _ _).mpr (AList.mem_lookup_iff.mp hv))
    · intro h f hf
      exact h f.1 f.2 (GoMap.lookup_of_entry ((RangeOrder.mem_run ρ 383 _ _).mp hf))
  rw [shouldFire, Matches, ← hloop]
  split_ifs with hcheck
  · simp only [Bool.and_eq_true, Bool.or_eq_true, decide_eq_true_iff, BaseTrigger.isActive,
      Option.asString_eq_some] at hcheck
    exact (and_iff_right hcheck.1.1).trans ((and_iff_right hcheck.1.2).trans
      (and_iff_right (fun hne => hcheck.2.resolve_left hne)) ) |>.symm
  · refine iff_of_false (by simp) ?_
    rintro ⟨hactive, htype, hsource, -⟩
    simp only [Bool.and_eq_true, Bool.or_eq_true, decide_eq_true_iff, BaseTrigger.isActive,
      Option.asString_eq_some] at hcheck
    exact hcheck ⟨⟨hactive, htype⟩, or_iff_not_imp_left.mpr hsource⟩

/-- Some event matches: no filter has a value that cannot be compared, or contradicts the event
type or the event source. -/
def Satisfiable (eventType eventSource : String) (filters : GoMap String GoValue) : Prop :=
  ∀ k v, filters.lookup k = some v → v.comparable = true ∧
    (k = "type" → v = .string eventType) ∧
    (k = "source" → eventSource ≠ "" → v = .string eventSource)

theorem Matches.satisfiable {eventType eventSource : String}
    {filters eventData : GoMap String GoValue}
    (h : Matches eventType eventSource filters eventData) :
    Satisfiable eventType eventSource filters := by
  obtain ⟨htype, hsource, hfilters⟩ := h
  intro k v hv
  obtain ⟨hk, hcomparable⟩ := hfilters k v hv
  refine ⟨hcomparable, ?_, ?_⟩
  · rintro rfl
    exact Option.some.inj (hk.symm.trans htype)
  · rintro rfl hne
    exact Option.some.inj (hk.symm.trans (hsource hne))

theorem Satisfiable.exists_matches {eventType eventSource : String}
    {filters : GoMap String GoValue} (h : Satisfiable eventType eventSource filters) :
    ∃ m : GoEntries, Matches eventType eventSource filters m.toMap := by
  -- the event says what the filters say, and the type and the source besides
  let data : GoMap String GoValue :=
    if eventSource = "" then filters.insert "type" (.string eventType)
    else (filters.insert "source" (.string eventSource)).insert "type" (.string eventType)
  refine ⟨GoEntries.ofMap data, ?_⟩
  have hlookup : ∀ k, (GoEntries.ofMap data).toMap.lookup k = data.lookup k :=
    GoEntries.lookup_toMap_ofMap data
  have htype : data.lookup "type" = some (.string eventType) := by
    simp only [data]
    split_ifs <;> exact AList.lookup_insert _
  refine ⟨(hlookup _).trans htype, fun hne => ?_, fun k v hv => ?_⟩
  · rw [hlookup]
    simp only [data, if_neg hne]
    rw [GoMap.lookup_insert, if_neg (by decide), AList.lookup_insert]
  · obtain ⟨hcomparable, ht, hs⟩ := h k v hv
    refine ⟨(hlookup k).trans ?_, hcomparable⟩
    by_cases hk : k = "type"
    · rw [hk, htype, ht hk]
    simp only [data]
    split_ifs with hne
    · rw [GoMap.lookup_insert, if_neg hk, hv]
    rw [GoMap.lookup_insert, if_neg hk, GoMap.lookup_insert]
    split_ifs with hk'
    · rw [hs hk' hne]
    · exact hv

end EventTrigger

end LinkFlow
