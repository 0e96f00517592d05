/-
Rebuilding a trigger from its configuration.

The trigger manager stores the configuration that `Validate` wrote as JSON and gives the decoded
one to `TriggerFactory.CreateTrigger`. The factory asks for `[]string` where JSON decodes a
`[]interface{}`, and does not ask for the dates of a schedule at all. What a trigger that was
rebuilt in this way still does is stated exactly, type by type (`preserved_iff`).
-/
import LinkFlow.Triggers

set_option autoImplicit false

namespace LinkFlow

open Option

/-! ## What the factory reads -/

def configBase (config : Config) (status : TriggerStatus) : BaseTrigger :=
  newBase ((config.lookup "workflowId").asString.getD "")
    ((config.lookup "name").asString.getD "") status

section Factory

variable {config : Config}

theorem createTrigger_webhook {path method secret : String}
    (hpath : config.lookup "path" = some (.string path))
    (hmethod : config.lookup "method" = some (.string method))
    (hsecret : config.lookup "secret" = some (.string secret)) :
    TriggerFactory.createTrigger .webhook config = .ok (.webhook
      { toBaseTrigger := configBase config .inactive, path, method, secret }) := by
  simp only [TriggerFactory.createTrigger, hpath, hmethod, hsecret]
  rfl

theorem createTrigger_schedule {cronExpression timezone : String}
    (hcron : config.lookup "cronExpression" = some (.string cronExpression))
    (hzone : config.lookup "timezone" = some (.string timezone)) :
    TriggerFactory.createTrigger .schedule config = .ok (.schedule
      { toBaseTrigger := configBase config .inactive, cronExpression, timezone,
        startDate := none, endDate := none }) := by
  simp only [TriggerFactory.createTrigger, hcron, hzone]
  rfl

theorem createTrigger_event {eventType eventSource : String} {filters : GoEntries}
    (htype : config.lookup "eventType" = some (.string eventType))
    (hsource : config.lookup "eventSource" = some (.string eventSource))
    (hfilters : config.lookup "filters" = some (.map filters)) :
    TriggerFactory.createTrigger .event config = .ok (.event
      { toBaseTrigger := configBase config .inactive, eventType, eventSource,
        filters := filters.toMap }) := by
  simp only [TriggerFactory.createTrigger, htype, hsource, hfilters]
  rfl

theorem createTrigger_manual {requireConfirmation : Bool}
    (hconfirm : config.lookup "requireConfirmation" = some (.bool requireConfirmation))
    (husers : (config.lookup "allowedUsers").asStrings = none) :
    TriggerFactory.createTrigger .manual config = .ok (.manual
      { toBaseTrigger := configBase config .active, requireConfirmation, allowedUsers := [] }) := by
  simp only [TriggerFactory.createTrigger, hconfirm, husers]
  rfl

theorem createTrigger_email {emailAddress subject : String}
    (haddress : config.lookup "emailAddress" = some (.string emailAddress))
    (hsubject : config.lookup "subject" = some (.string subject))
    (hfrom : (config.lookup "fromFilter").asStrings = none)
    (hkeywords : (config.lookup "keywords").asStrings = none) :
    TriggerFactory.createTrigger .email config = .ok (.email
      { toBaseTrigger := configBase config .inactive, emailAddress, subject,
        fromFilter := [], keywords := [] }) := by
  simp only [TriggerFactory.createTrigger, haddress, hsubject, hfrom, hkeywords]
  rfl

end Factory

/-! ## What `Validate` accepts -/

section Accepted

variable {env : TriggerEnv}

theorem validate_webhook_iff {t : WebhookTrigger} {v : Trigger} :
    (Trigger.webhook t).validate env = .ok v ↔
      (t.path ≠ "" ∧ t.method ∈ WebhookTrigger.validMethods) ∧
        v = .webhook { t with config := t.written } := by
  rw [Trigger.validate, WebhookTrigger.validate]
  split_ifs with hpath hmethod
  · simp [Except.map, hpath]
  · rw [Except.map, Except.ok.injEq, eq_comm]
    exact (and_iff_right ⟨hpath, hmethod⟩).symm
  · simp [Except.map, hmethod]

theorem validate_schedule_iff {t : ScheduleTrigger} {v : Trigger} :
    (Trigger.schedule t).validate env = .ok v ↔
      (t.cronExpression ≠ "" ∧ env.parseCron t.cronExpression = none ∧
        env.loadLocation t.timezone = none ∧
        t.startDate.any (fun startDate => t.endDate.any (· < startDate)) = false) ∧
      v = .schedule { t with config := t.written env } := by
  rw [Trigger.validate, ScheduleTrigger.validate]
  by_cases hempty : t.cronExpression = ""
  · simp [Except.map, hempty]
  rw [if_neg hempty]
  cases hparse : env.parseCron t.cronExpression with
  | some err => simp [Except.map]
  | none => cases hzone : env.loadLocation t.timezone with
    | some err => simp [Except.map]
    | none =>
      simp only
      split_ifs with hdates
      · simp [Except.map, hdates]
      · rw [Except.map, Except.ok.injEq, eq_comm]
        exact (and_iff_right ⟨hempty, trivial, trivial, Bool.eq_false_iff.mpr hdates⟩).symm

theorem validate_event_iff {t : EventTrigger} {v : Trigger} :
    (Trigger.event t).validate env = .ok v ↔
      t.eventType ≠ "" ∧ v = .event { t with config := t.written } := by
  rw [Trigger.validate, EventTrigger.validate]
  split_ifs with htype
  · simp [Except.map, htype]
  · rw [Except.map, Except.ok.injEq, eq_comm]
    exact (and_iff_right htype).symm

theorem validate_email_iff {t : EmailTrigger} {v : Trigger} :
    (Trigger.email t).validate env = .ok v ↔
      (t.emailAddress ≠ "" ∧
        ¬ (t.emailAddress.utf8ByteSize < 3 ∨ 254 < t.emailAddress.utf8ByteSize)) ∧
      v = .email { t with config := t.written } := by
  rw [Trigger.validate, EmailTrigger.validate]
  split_ifs with hempty hlen
  · simp [Except.map, hempty]
  · simp [Except.map, hlen]
  · rw [Except.map, Except.ok.injEq, eq_comm]
    exact (and_iff_right ⟨hempty, hlen⟩).symm

theorem exists_validate_email (base : BaseTrigger) {emailAddress : String} (subject : String)
    (fromFilter keywords : List String) (h : emailAddress ≠ "" ∧
      ¬ (emailAddress.utf8ByteSize < 3 ∨ 254 < emailAddress.utf8ByteSize)) :
    ∃ v, (Trigger.email ⟨base, emailAddress, subject, fromFilter, keywords⟩).validate env = .ok v :=
  ⟨_, validate_email_iff.mpr ⟨h, rfl⟩⟩

end Accepted

/-! ## Rebuilding -/

section Rebuild

variable {env : TriggerEnv}

@[simp] theorem lookup_decodeConfig (config : Config) (k : String) :
    (decodeConfig env config).lookup k = (config.lookup k).map (GoValue.json env.jsonTime) :=
  GoEntries.lookup_toMap_json env.jsonTime config k

theorem asStrings_decodeConfig (config : Config) (k : String) :
    ((decodeConfig env config).lookup k).asStrings = none := by
  rw [lookup_decodeConfig]
  exact asStrings_json _ _

theorem rebuild_webhook (t : WebhookTrigger) :
    (Trigger.webhook { t with config := t.written }).rebuild env = .ok (.webhook
      { toBaseTrigger := configBase (decodeConfig env t.written) .inactive,
        path := t.path, method := t.method, secret := t.secret }) := by
  refine createTrigger_webhook ?_ ?_ ?_ <;>
    simp [Trigger.getConfig, Trigger.base, WebhookTrigger.written, GoValue.json]

theorem lookup_written (t : ScheduleTrigger) :
    (t.written env).lookup "cronExpression" = some (.string t.cronExpression) ∧
      (t.written env).lookup "timezone" = some (.string t.timezone) := by
  unfold ScheduleTrigger.written
  cases t.startDate <;> cases t.endDate <;> simp [AList.lookup_insert_ne]

theorem rebuild_schedule (t : ScheduleTrigger) :
    (Trigger.schedule { t with config := t.written env }).rebuild env = .ok (.schedule
      { toBaseTrigger := configBase (decodeConfig env (t.written env)) .inactive,
        cronExpression := t.cronExpression, timezone := t.timezone,
        startDate := none, endDate := none }) := by
  refine createTrigger_schedule ?_ ?_ <;>
    simp [Trigger.getConfig, Trigger.base, GoValue.json, lookup_written]

theorem rebuild_event (t : EventTrigger) :
    (Trigger.event { t with config := t.written }).rebuild env = .ok (.event
      { toBaseTrigger := configBase (decodeConfig env t.written) .inactive,
        eventType := t.eventType, eventSource := t.eventSource,
        filters := decodeConfig env t.filters }) := by
  refine createTrigger_event ?_ ?_ ?_ <;>
    simp [Trigger.getConfig, Trigger.base, EventTrigger.written, GoValue.json]

theorem rebuild_manual (t : ManualTrigger) :
    (Trigger.manual { t with config := t.written }).rebuild env = .ok (.manual
      { toBaseTrigger := configBase (decodeConfig env t.written) .active,
        requireConfirmation := t.requireConfirmation, allowedUsers := [] }) := by
  refine createTrigger_manual ?_ (asStrings_decodeConfig _ _)
  simp [Trigger.getConfig, Trigger.base, ManualTrigger.written, GoValue.json]

theorem rebuild_email (t : EmailTrigger) :
    (Trigger.email { t with config := t.written }).rebuild env = .ok (.email
      { toBaseTrigger := configBase (decodeConfig env t.written) .inactive,
        emailAddress := t.emailAddress, subject := t.subject,
        fromFilter := [], keywords := [] }) := by
  refine createTrigger_email ?_ ?_ (asStrings_decodeConfig _ _) (asStrings_decodeConfig _ _) <;>
    simp [Trigger.getConfig, Trigger.base, EmailTrigger.written, GoValue.json]

end Rebuild

/-! ## What is kept -/

section Kept

variable {env : TriggerEnv}

/-- The rebuilt trigger passes `Validate`, and with the same status it fires on the same
events. -/
def Trigger.Preserved (env : TriggerEnv) (t : Trigger) : Prop :=
  ∃ t', t.rebuild env = .ok t' ∧ (∃ v, t'.validate env = .ok v) ∧
    ∀ status e ρ ρ', (t.withStatus status).Fires env ρ e ↔ (t'.withStatus status).Fires env ρ' e

/-- A schedule uses no dates, a manual trigger no users, an e-mail trigger neither senders nor
keywords; and an event trigger no filter value whose type JSON changes, unless no event can match it
before or after. -/
def Trigger.Kept (env : TriggerEnv) : Trigger → Prop
  | .webhook _ => True
  | .schedule t => t.startDate = none ∧ t.endDate = none
  | .event t =>
    (∀ k v, t.filters.lookup k = some v → v.json env.jsonTime = v) ∨
      (¬ EventTrigger.Satisfiable t.eventType t.eventSource t.filters ∧
        ¬ EventTrigger.Satisfiable t.eventType t.eventSource (decodeConfig env t.filters))
  | .manual t => t.allowedUsers = []
  | .email t => t.fromFilter = [] ∧ t.keywords = []

theorem Trigger.preserved_iff_of_rebuild {t t' : Trigger} (h : t.rebuild env = .ok t')
    (hvalid : ∃ v, t'.validate env = .ok v) : t.Preserved env ↔ ∀ status e ρ ρ',
      (t.withStatus status).Fires env ρ e ↔ (t'.withStatus status).Fires env ρ' e := by
  constructor
  · rintro ⟨u, hu, -, hsame⟩
    rw [h] at hu
    cases hu
    exact hsame
  · intro hsame
    exact ⟨t', h, hvalid, hsame⟩

/-! What a trigger decides does not depend on its configuration. -/

theorem fires_webhook_congr {t t' : WebhookTrigger} (hstatus : t.status = t'.status)
    (hpath : t.path = t'.path) (hmethod : t.method = t'.method) (hsecret : t.secret = t'.secret)
    (ρ ρ' : RangeOrder) (e : GoValue) :
    (Trigger.webhook t).Fires env ρ e ↔ (Trigger.webhook t').Fires env ρ' e := by
  have hsame : t.shouldFire e = t'.shouldFire e := by
    cases e with
    | map m =>
      rw [WebhookTrigger.shouldFire, WebhookTrigger.shouldFire, BaseTrigger.isActive,
        BaseTrigger.isActive, hstatus, hpath, hmethod, hsecret]
    | _ => rfl
  rw [Trigger.Fires, Trigger.Fires, Trigger.shouldFire, Trigger.shouldFire, hsame]

theorem fires_manual_congr {t t' : ManualTrigger}
    (hconfirm : t.requireConfirmation = t'.requireConfirmation)
    (husers : t.allowedUsers = t'.allowedUsers) (ρ ρ' : RangeOrder) (e : GoValue) :
    (Trigger.manual t).Fires env ρ e ↔ (Trigger.manual t').Fires env ρ' e := by
  have hsame : t.shouldFire e = t'.shouldFire e := by
    cases e with
    | map m => rw [ManualTrigger.shouldFire, ManualTrigger.shouldFire, hconfirm, husers]
    | _ => rfl
  rw [Trigger.Fires, Trigger.Fires, Trigger.shouldFire, Trigger.shouldFire, hsame]

theorem fires_email_congr {t t' : EmailTrigger} (hstatus : t.status = t'.status)
    (haddress : t.emailAddress = t'.emailAddress) (hsubject : t.subject = t'.subject)
    (hfrom : t.fromFilter = t'.fromFilter) (hkeywords : t.keywords = t'.keywords)
    (ρ ρ' : RangeOrder) (e : GoValue) :
    (Trigger.email t).Fires env ρ e ↔ (Trigger.email t').Fires env ρ' e := by
  have hsame : t.shouldFire e = t'.shouldFire e := by
    cases e with
    | map m =>
      rw [EmailTrigger.shouldFire, EmailTrigger.shouldFire, BaseTrigger.isActive,
        BaseTrigger.isActive, hstatus, haddress, hsubject, hfrom, hkeywords]
    | _ => rfl
  rw [Trigger.Fires, Trigger.Fires, Trigger.shouldFire, Trigger.shouldFire, hsame]

theorem preserved_webhook {t : WebhookTrigger}
    (h : t.path ≠ "" ∧ t.method ∈ WebhookTrigger.validMethods) :
    (Trigger.webhook { t with config := t.written }).Preserved env := by
  refine ⟨_, rebuild_webhook t, ⟨_, validate_webhook_iff.mpr ⟨h, rfl⟩⟩, fun status e ρ ρ' => ?_⟩
  exact fires_webhook_congr rfl rfl rfl rfl ρ ρ' e

/-- A schedule trigger loses its dates. -/
theorem preserved_schedule_iff {t : ScheduleTrigger}
    (h : t.cronExpression ≠ "" ∧ env.parseCron t.cronExpression = none ∧
      env.loadLocation t.timezone = none) :
    (Trigger.schedule { t with config := t.written env }).Preserved env ↔
      t.startDate = none ∧ t.endDate = none := by
  obtain ⟨hempty, hparse, hzone⟩ := h
  rw [Trigger.preserved_iff_of_rebuild (rebuild_schedule t)
    ⟨_, validate_schedule_iff.mpr ⟨⟨hempty, hparse, hzone, rfl⟩, rfl⟩⟩]
  constructor
  · intro hsame
    -- without dates the trigger fires at every time
    have hfires := fun now => (hsame .active (.time now) .stored .stored).mpr
      (by simp [Trigger.Fires, Trigger.withStatus, Trigger.shouldFire,
        ScheduleTrigger.shouldFire, BaseTrigger.isActive, hparse])
    simp only [Trigger.Fires, Trigger.withStatus, Trigger.shouldFire, ScheduleTrigger.shouldFire,
      Except.ok.injEq, Bool.and_eq_true, Bool.not_eq_true'] at hfires
    constructor
    · cases hstart : t.startDate with
      | none => rfl
      | some d => simpa [hstart] using (hfires (d - 1)).1.1.2
    · cases hend : t.endDate with
      | none => rfl
      | some d => simpa [hend] using (hfires (d + 1)).1.2
  · rintro ⟨hstart, hend⟩ status e ρ ρ'
    rw [Trigger.withStatus, Trigger.withStatus, hstart, hend]
    cases e <;> exact Iff.rfl

/-- A manual trigger loses its list of users. -/
theorem preserved_manual_iff (t : ManualTrigger) :
    (Trigger.manual { t with config := t.written }).Preserved env ↔ t.allowedUsers = [] := by
  rw [Trigger.preserved_iff_of_rebuild (rebuild_manual t) ⟨_, rfl⟩]
  constructor
  · intro hsame
    -- an event of no user, confirmed
    let m : GoEntries := .cons "confirmed" (.bool true) .nil
    have hconfirmed : m.toMap.lookup "confirmed" = some (.bool true) := rfl
    have huser : m.toMap.lookup "userId" = none := rfl
    have hfires := (hsame .active (.map m) .stored .stored).mpr
      (by simp [Trigger.Fires, Trigger.withStatus, Trigger.shouldFire, ManualTrigger.shouldFire,
        hconfirmed, asBool])
    simpa [Trigger.Fires, Trigger.withStatus, Trigger.shouldFire, ManualTrigger.shouldFire,
      huser, hconfirmed, asString, asBool] using hfires
  · intro husers status e ρ ρ'
    refine fires_manual_congr ?_ ?_ ρ ρ' e
    · rfl
    · exact husers

/-- An email trigger loses its senders and keywords. -/
theorem preserved_email_iff {t : EmailTrigger} (h : t.emailAddress ≠ "" ∧
      ¬ (t.emailAddress.utf8ByteSize < 3 ∨ 254 < t.emailAddress.utf8ByteSize)) :
    (Trigger.email { t with config := t.written }).Preserved env ↔
      t.fromFilter = [] ∧ t.keywords = [] := by
  rw [Trigger.preserved_iff_of_rebuild (rebuild_email t) (exists_validate_email _ _ _ _ h)]
  constructor
  · intro hsame
    -- an e-mail of which only the addressee is known
    let m : GoEntries := .cons "to" (.string t.emailAddress) .nil
    have hto : m.toMap.lookup "to" = some (.string t.emailAddress) := rfl
    have hsubject : m.toMap.lookup "subject" = none := rfl
    have hfrom : m.toMap.lookup "from" = none := rfl
    have hbody : m.toMap.lookup "body" = none := rfl
    have hfires := (hsame .active (.map m) .stored .stored).mpr
      (by simp [Trigger.Fires, Trigger.withStatus, Trigger.shouldFire, EmailTrigger.shouldFire,
        BaseTrigger.isActive, hto, hsubject, asString])
    simpa [Trigger.Fires, Trigger.withStatus, Trigger.shouldFire, EmailTrigger.shouldFire,
      BaseTrigger.isActive, hto, hsubject, hfrom, hbody, asString] using hfires
  · rintro ⟨hfrom, hkeywords⟩ status e ρ ρ'
    refine fires_email_congr ?_ ?_ ?_ ?_ ?_ ρ ρ' e
    · rfl
    · rfl
    · rfl
    · exact hfrom
    · exact hkeywords

theorem fires_event_iff (t : EventTrigger) (ρ : RangeOrder) (e : GoValue) :
    (Trigger.event t).Fires env ρ e ↔ t.status = .active ∧
      ∃ m, e = .map m ∧ EventTrigger.Matches t.eventType t.eventSource t.filters m.toMap := by
  cases e with
  | map m =>
    rw [Trigger.Fires, Trigger.shouldFire, EventTrigger.shouldFire_eq_true_iff]
    simp
  | _ => simp [Trigger.Fires, Trigger.shouldFire, EventTrigger.shouldFire]

/-- An event trigger keeps the filters that JSON keeps. -/
theorem preserved_event_iff {t : EventTrigger} (h : t.eventType ≠ "") :
    (Trigger.event { t with config := t.written }).Preserved env ↔ (Trigger.event t).Kept env := by
  have hdecoded : ∀ k v, (decodeConfig env t.filters).lookup k = some v ↔
      ∃ u, t.filters.lookup k = some u ∧ u.json env.jsonTime = v := by
    intro k v
    rw [lookup_decodeConfig, map_eq_some_iff]
  rw [Trigger.preserved_iff_of_rebuild (rebuild_event t) ⟨_, validate_event_iff.mpr ⟨h, rfl⟩⟩]
  simp only [Trigger.withStatus, fires_event_iff, Trigger.Kept]
  constructor
  · intro hsame
    -- an event that matches before and after says of every filter that its value is kept
    have hboth : ∀ m : GoEntries, EventTrigger.Matches t.eventType t.eventSource t.filters m.toMap →
        EventTrigger.Matches t.eventType t.eventSource (decodeConfig env t.filters) m.toMap →
        ∀ k v, t.filters.lookup k = some v → v.json env.jsonTime = v := by
      intro m hm hm' k v hv
      have hbefore := (hm.2.2 k v hv).1
      have hafter := (hm'.2.2 k _ ((hdecoded k _).mpr ⟨v, hv, rfl⟩)).1
      exact some.inj (hafter.symm.trans hbefore)
    have hiff : ∀ m : GoEntries, EventTrigger.Matches t.eventType t.eventSource t.filters m.toMap ↔
        EventTrigger.Matches t.eventType t.eventSource (decodeConfig env t.filters) m.toMap := by
      intro m
      simpa using hsame .active (.map m) .stored .stored
    by_cases hkept : ∀ k v, t.filters.lookup k = some v → v.json env.jsonTime = v
    · exact .inl hkept
    refine .inr ⟨fun hsat => ?_, fun hsat => ?_⟩
    · obtain ⟨m, hm⟩ := hsat.exists_matches
      exact hkept (hboth m hm ((hiff m).mp hm))
    · obtain ⟨m, hm⟩ := hsat.exists_matches
      exact hkept (hboth m ((hiff m).mpr hm) hm)
  · rintro (hkept | ⟨hbefore, hafter⟩) status e ρ ρ'
    · have hfilters : ∀ k v, (decodeConfig env t.filters).lookup k = some v ↔
          t.filters.lookup k = some v := by
        intro k v
        rw [hdecoded]
        constructor
        · rintro ⟨u, hu, rfl⟩
          rw [hkept k u hu]
          exact hu
        · intro hv
          exact ⟨v, hv, hkept k v hv⟩
      simp only [EventTrigger.Matches, hfilters]
    · refine and_congr_right (fun _ => iff_of_false ?_ ?_)
      · rintro ⟨m, -, hm⟩
        exact hbefore hm.satisfiable
      · rintro ⟨m, -, hm⟩
        exact hafter hm.satisfiable

/-- **Rebuilding a trigger.** A trigger that passed `Validate`, rebuilt from its configuration after
JSON, passes again and fires on the same events exactly if it uses nothing that is lost. -/
theorem preserved_iff {t v : Trigger} (h : t.validate env = .ok v) :
    v.Preserved env ↔ t.Kept env := by
  cases t with
  | webhook t =>
    obtain ⟨hvalid, rfl⟩ := validate_webhook_iff.mp h
    exact iff_of_true (preserved_webhook hvalid) trivial
  | schedule t =>
    obtain ⟨⟨hempty, hparse, hzone, -⟩, rfl⟩ := validate_schedule_iff.mp h
    exact preserved_schedule_iff ⟨hempty, hparse, hzone⟩
  | event t =>
    obtain ⟨hvalid, rfl⟩ := validate_event_iff.mp h
    exact preserved_event_iff hvalid
  | manual t =>
    cases h
    exact preserved_manual_iff t
  | email t =>
    obtain ⟨hvalid, rfl⟩ := validate_email_iff.mp h
    exact preserved_email_iff hvalid

end Kept

/-- An event trigger that asks for a text. -/
def orderOf (customer : String) : EventTrigger :=
  { newEventTrigger "workflow" "order" "order" with
    filters := GoMap.ofPairs [("customer", .string customer)] }

theorem preserved_order :
    ∃ v, (Trigger.event (orderOf "alice")).validate plainEnv = .ok v ∧ v.Preserved plainEnv := by
  refine ⟨_, validate_event_iff.mpr ⟨by decide, rfl⟩, ?_⟩
  refine (preserved_iff (validate_event_iff.mpr ⟨by decide, rfl⟩)).mpr (.inl fun k v hv => ?_)
  obtain ⟨rfl, rfl⟩ := List.mem_singleton.mp ((GoMap.lookup_ofPairs (by decide) k v).mp hv)
  rfl

/-- A manual trigger for one user, an e-mail trigger for one sender and one for one keyword, a
schedule that has ended, and an event trigger that asks for a number. -/
def restricted : List Trigger :=
  [.manual { newManualTrigger "workflow" "manual" with allowedUsers := ["alice"] },
    .email { newEmailTrigger "workflow" "mail" "a@b.c" with fromFilter := ["alice@b.c"] },
    .email { newEmailTrigger "workflow" "mail" "a@b.c" with keywords := ["invoice"] },
    .schedule { newScheduleTrigger "workflow" "daily" "0 0 * * *" with endDate := some 0 },
    .event { newEventTrigger "workflow" "order" "order" with
      filters := GoMap.ofPairs [("amount", .int 5)] }]

/-- Each passes `Validate` and comes back without what restricts it, or, the last one, with a filter
that the number does not pass. -/
theorem restricted_not_preserved :
    restricted.Forall (fun t => ∃ v, t.validate plainEnv = .ok v ∧ ¬ v.Preserved plainEnv) := by
  rw [List.forall_iff_forall_mem]
  simp only [restricted, List.forall_mem_cons, List.not_mem_nil, false_imp_iff, implies_true,
    and_true]
  refine ⟨⟨_, rfl, ?_⟩, ⟨_, validate_email_iff.mpr ⟨by decide, rfl⟩, ?_⟩,
    ⟨_, validate_email_iff.mpr ⟨by decide, rfl⟩, ?_⟩,
    ⟨_, validate_schedule_iff.mpr ⟨by decide, rfl⟩, ?_⟩,
    ⟨_, validate_event_iff.mpr ⟨by decide, rfl⟩, ?_⟩⟩
  · exact fun h => by simpa using (preserved_manual_iff _).mp h
  · exact fun h => by simpa using ((preserved_email_iff (by decide)).mp h).1
  · exact fun h => by simpa using ((preserved_email_iff (by decide)).mp h).2
  · exact fun h => by simpa using ((preserved_schedule_iff (by decide)).mp h).2
  intro h
  rcases (preserved_event_iff (by decide)).mp h with hkept | ⟨hsat, -⟩
  · cases hkept "amount" (.int 5) rfl
  · refine hsat (fun k v hv => ?_)
    obtain ⟨rfl, rfl⟩ := List.mem_singleton.mp ((GoMap.lookup_ofPairs (by decide) k v).mp hv)
    exact ⟨rfl, by decide, by decide⟩

end LinkFlow
