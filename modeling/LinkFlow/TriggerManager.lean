/-
The trigger manager (`internal/workflow/adapters/triggers/manager.go`): the stored triggers, the
webhook instances it keeps for those that are active, and the jobs of its cron engine.

Activating a trigger writes the status into the stored row. The instances that the manager
evaluates are built anew from the configuration, by `NewWebhookTrigger` or by the factory, and
both make a trigger that is inactive: no instance of a webhook, event or e-mail trigger ever
fires, whatever the row says (`responsive_iff`).

What `activateEventTrigger` and `activateEmailTrigger` put into Redis is read by nothing here; of
Redis only the errors are modelled.
-/
import LinkFlow.Triggers
import LinkFlow.Lib.Runs

set_option autoImplicit false

namespace LinkFlow

/-! ## The manager -/

/-- `WorkflowTrigger`, a stored row, without its times and counters; `config` is what the JSON
column decodes to. -/
structure WorkflowTrigger where
  (id workflowID : String)
  type : TriggerType
  (name description : String)
  status : TriggerStatus
  config : Config

/-- A job of the cron engine. -/
structure CronJob where
  entryID : ℕ
  (triggerID workflowID : String)
deriving DecidableEq, Repr

/-- `TriggerManager`, with the rows of its database and the jobs of its engine; `stopped` is
`shutdownCh` closed. -/
structure TriggerManager where
  triggers : GoMap String WorkflowTrigger := ∅
  webhooks : GoMap String WebhookTrigger := ∅
  schedules : GoMap String ℕ := ∅
  jobs : List CronJob := []
  nextEntry : ℕ := 0
  stopped : Bool := false

/-- The errors of the calls; `panic` is a type assertion or a `close` that panics. -/
inductive TriggerError
  | triggerNotFound
  | invalidTriggerType
  | triggerAlreadyActive
  | triggerNotActive
  | duplicateTrigger
  | failedToCreate (err : String)
  | validationFailed (err : String)
  | failedToSave (err : String)
  | failedToUpdate (err : String)
  | failedToUpdateStatus (err : String)
  | failedToActivate (err : TriggerError)
  | failedToDeactivate (err : TriggerError)
  | failedToDelete (err : String)
  | failedToAddCronJob (err : String)
  | database (err : String)
  | redis (err : String)
  | panic
deriving DecidableEq, Repr

/-- The errors of the database and Redis in a call: at its two reads, at its write, at the deletion,
and at the command in Redis. -/
structure Faults where
  (get getAgain save delete redis : Option String := none)
deriving DecidableEq, Repr

def TriggerType.ofString (s : String) : Option TriggerType :=
  [.webhook, .schedule, .event, .manual, .email, .api].find? (fun t : TriggerType => t.name = s)

namespace TriggerManager

variable (env : TriggerEnv)

def getTrigger (tm : TriggerManager) (fault : Option String) (triggerID : String) :
    Except TriggerError WorkflowTrigger :=
  match fault with
  | some err => .error (.database err)
  | none => match tm.triggers.lookup triggerID with
      | none => .error .triggerNotFound
      | some trigger => .ok trigger

theorem getTrigger_ok {tm : TriggerManager} {fault : Option String} {id : String}
    {row : WorkflowTrigger} (h : tm.getTrigger fault id = .ok row) :
    tm.triggers.lookup id = some row := by
  unfold getTrigger at h
  split at h
  · cases h
  split at h
  · cases h
  · next hrow =>
      cases h
      exact hrow

/-- An update of all columns, or an insert where there is no row. -/
def save (tm : TriggerManager) (trigger : WorkflowTrigger) : TriggerManager :=
  { tm with triggers := tm.triggers.insert trigger.id trigger }

/-! ## Activation -/

/-- The instance that `activateWebhookTrigger` builds. -/
def webhookInstance (trigger : WorkflowTrigger) (path : String) : WebhookTrigger :=
  let webhook := newWebhookTrigger trigger.workflowID trigger.name path
  { webhook with
    method := (trigger.config.lookup "method").asString.getD webhook.method,
    secret := (trigger.config.lookup "secret").asString.getD webhook.secret }

/-- `cronScheduler.AddFunc`, for an expression that parses -/
def addFunc (tm : TriggerManager) (trigger : WorkflowTrigger) : TriggerManager :=
  { tm with
    jobs := tm.jobs ++
      [{ entryID := tm.nextEntry + 1, triggerID := trigger.id, workflowID := trigger.workflowID }]
    nextEntry := tm.nextEntry + 1 }

/-- `tm.schedules[triggerID] = &entryID` -/
def registerSchedule (tm : TriggerManager) (triggerID : String) (entryID : ℕ) : TriggerManager :=
  { tm with schedules := tm.schedules.insert triggerID entryID }

/-- `activateTrigger` -/
def activate (tm : TriggerManager) (fault : Option String) (trigger : WorkflowTrigger) :
    Except TriggerError TriggerManager :=
  match trigger.type with
  | .webhook => match (trigger.config.lookup "path").asString with
      | none => .error .panic
      | some path =>
        .ok { tm with webhooks := tm.webhooks.insert trigger.id (webhookInstance trigger path) }
  | .schedule => match (trigger.config.lookup "cronExpression").asString with
      | none => .error .panic
      | some cronExpr => match env.parseStandard cronExpr with
          | some err => .error (.failedToAddCronJob err)
          | none => .ok ((tm.addFunc trigger).registerSchedule trigger.id (tm.nextEntry + 1))
  | .event => match (trigger.config.lookup "eventType").asString with
      | none => .error .panic
      | some _ => match fault with
          | some err => .error (.redis err)
          | none => .ok tm
  | .manual => .ok tm
  | .email => match fault with
      | some err => .error (.redis err)
      | none => .ok tm
  | .api => .error .invalidTriggerType

/-- `deactivateScheduleTrigger` -/
def deactivateSchedule (tm : TriggerManager) (triggerID : String) : TriggerManager :=
  match tm.schedules.lookup triggerID with
  | none => tm
  | some entryID =>
    { tm with
      jobs := tm.jobs.filter (fun job => job.entryID ≠ entryID)
      schedules := tm.schedules.erase triggerID }

/-- `deactivateTrigger` -/
def deactivate (tm : TriggerManager) (fault : Option String) (trigger : WorkflowTrigger) :
    Except TriggerError TriggerManager :=
  match trigger.type with
  | .webhook => .ok { tm with webhooks := tm.webhooks.erase trigger.id }
  | .schedule => .ok (tm.deactivateSchedule trigger.id)
  | .event => .ok tm
  | .manual => .ok tm
  | .email => match fault with
      | some err => .error (.redis err)
      | none => .ok tm
  | .api => .error .invalidTriggerType

/-- `activateTrigger` where the error is ignored. -/
def tryActivate (tm : TriggerManager) (fault : Option String) (trigger : WorkflowTrigger) :
    TriggerManager :=
  match tm.activate env fault trigger with
  | .ok tm' => tm'
  | .error _ => tm

/-- `deactivateTrigger` where the error is ignored. -/
def tryDeactivate (tm : TriggerManager) (fault : Option String) (trigger : WorkflowTrigger) :
    TriggerManager :=
  match tm.deactivate fault trigger with
  | .ok tm' => tm'
  | .error _ => tm

def activateTrigger (tm : TriggerManager) (faults : Faults) (triggerID : String) :
    Option TriggerError × TriggerManager :=
  match tm.getTrigger faults.get triggerID with
  | .error err => (some err, tm)
  | .ok trigger =>
    if trigger.status = .active then (some .triggerAlreadyActive, tm)
    else match tm.activate env faults.redis trigger with
      | .error err => (some (.failedToActivate err), tm)
      | .ok tm => match faults.save with
          | some err => (some (.failedToUpdateStatus err), tm)
          | none => (none, tm.save { trigger with status := .active })

def deactivateTrigger (tm : TriggerManager) (faults : Faults) (triggerID : String) :
    Option TriggerError × TriggerManager :=
  match tm.getTrigger faults.get triggerID with
  | .error err => (some err, tm)
  | .ok trigger =>
    if trigger.status ≠ .active then (some .triggerNotActive, tm)
    else match tm.deactivate faults.redis trigger with
      | .error err => (some (.failedToDeactivate err), tm)
      | .ok tm => match faults.save with
          | some err => (some (.failedToUpdateStatus err), tm)
          | none => (none, tm.save { trigger with status := .inactive })

/-! ## The other calls -/

/-- `checkDuplicateTrigger`: a webhook with the path and the method as the caller gave them. -/
def duplicate (tm : TriggerManager) (workflowID : String) (triggerType : TriggerType)
    (config : Config) : Bool :=
  triggerType = .webhook && tm.triggers.entries.any (fun e =>
    decide (e.2.workflowID = workflowID) && e.2.type = triggerType &&
      (e.2.config.lookup "path").asString = some ((config.lookup "path").asString.getD "") &&
      (e.2.config.lookup "method").asString = some ((config.lookup "method").asString.getD ""))

/-- The row that `CreateTrigger` writes, where `id` is the UUID that the factory gives the
trigger. -/
def newTrigger (tm : TriggerManager) (id workflowID : String) (config : Config) :
    Except TriggerError WorkflowTrigger :=
  let config := config.insert "workflowId" (.string workflowID)
  match (config.lookup "type").asString with
  | none => .error .invalidTriggerType
  | some typeName => match TriggerType.ofString typeName with
    | none => .error (.failedToCreate ("unsupported trigger type: " ++ typeName))
    | some triggerType => match TriggerFactory.createTrigger triggerType config with
      | .error err => .error (.failedToCreate err)
      | .ok trigger => match trigger.validate env with
        | .error err => .error (.validationFailed err)
        | .ok trigger =>
          if tm.duplicate workflowID triggerType config = true then .error .duplicateTrigger
          else match (config.lookup "name").asString with
            | none => .error .panic
            | some name => .ok
                { id, workflowID, type := triggerType, name
                  description := (config.lookup "description").asString.getD ""
                  status := .inactive
                  config := decodeConfig env trigger.getConfig }

def createTrigger (tm : TriggerManager) (faults : Faults) (id workflowID : String)
    (config : Config) : Option TriggerError × TriggerManager :=
  match tm.newTrigger env id workflowID config with
  | .error err => (some err, tm)
  | .ok trigger => match faults.save with
    | some err => (some (.failedToSave err), tm)
    | none =>
      if id ∈ tm.triggers then (some (.failedToSave "duplicate key"), tm)
      else (none, tm.save trigger)

def mergeUpdates (config updates : Config) : Config :=
  updates.entries.foldl (fun config e =>
    if e.1 ≠ "id" ∧ e.1 ≠ "workflowId" ∧ e.1 ≠ "type" then config.insert e.1 e.2 else config) config

/-- The row that `UpdateTrigger` writes. -/
def updatedTrigger (trigger : WorkflowTrigger) (updates : Config) :
    Except TriggerError WorkflowTrigger :=
  match TriggerFactory.createTrigger trigger.type (mergeUpdates trigger.config updates) with
  | .error err => .error (.failedToCreate err)
  | .ok updated => match updated.validate env with
    | .error err => .error (.validationFailed err)
    | .ok updated => .ok { trigger with config := decodeConfig env updated.getConfig }

def updateTrigger (tm : TriggerManager) (faults : Faults) (triggerID : String) (updates : Config) :
    Option TriggerError × TriggerManager :=
  match tm.getTrigger faults.get triggerID with
  | .error err => (some err, tm)
  | .ok trigger => match updatedTrigger env trigger updates with
    | .error err => (some err, tm)
    | .ok trigger => match faults.save with
      | some err => (some (.failedToUpdate err), tm)
      | none =>
        let tm := tm.save trigger
        if trigger.status = .active then
          (none, (tm.tryDeactivate faults.redis trigger).tryActivate env faults.redis trigger)
        else (none, tm)

/-- The deletion of a row. -/
def remove (tm : TriggerManager) (triggerID : String) : TriggerManager :=
  { tm with triggers := tm.triggers.erase triggerID }

/-- `DeactivateTrigger`, if the row was active when `DeleteTrigger` read it. -/
def deactivateIfActive (tm : TriggerManager) (faults : Faults) (triggerID : String)
    (status : TriggerStatus) : Option TriggerError × TriggerManager :=
  if status = .active then tm.deactivateTrigger { faults with get := faults.getAgain } triggerID
  else (none, tm)

def deleteTrigger (tm : TriggerManager) (faults : Faults) (triggerID : String) :
    Option TriggerError × TriggerManager :=
  match tm.getTrigger faults.get triggerID with
  | .error err => (some err, tm)
  | .ok trigger => match tm.deactivateIfActive faults triggerID trigger.status with
    | (some err, tm) => (some (.failedToDeactivate err), tm)
    | (none, tm) => match faults.delete with
        | some err => (some (.failedToDelete err), tm)
        | none => (none, tm.remove triggerID)

/-- `Start`, as far as it loads the active triggers, in the order the database returns them -/
def start (tm : TriggerManager) (ρ : RangeOrder) (faults : Faults) :
    Option TriggerError × TriggerManager :=
  match faults.get with
  | some err => (some (.database err), tm)
  | none =>
    let active := (ρ.run 564 tm.triggers.entries).filter (fun e => e.2.status = .active)
    (none, active.foldl (fun tm e => tm.tryActivate env faults.redis e.2) tm)

def stop (tm : TriggerManager) : Option TriggerError × TriggerManager :=
  if tm.stopped = true then (some .panic, tm)
  else (none, { tm with webhooks := ∅, schedules := ∅, stopped := true })

/-- The instance that `TestTrigger` builds. -/
def testInstance (trigger : WorkflowTrigger) : Except String Trigger :=
  TriggerFactory.createTrigger trigger.type trigger.config

/-- Whether the trigger would fire, or the panic of its comparison -/
def testTrigger (tm : TriggerManager) (ρ : RangeOrder) (faults : Faults) (triggerID : String)
    (testData : GoEntries) : Except TriggerError (Except Uncomparable Bool) :=
  match tm.getTrigger faults.get triggerID with
  | .error err => .error err
  | .ok trigger => match testInstance trigger with
      | .error err => .error (.failedToCreate err)
      | .ok inst => .ok (inst.shouldFire env ρ (.map testData))

/-! ## Runs -/

end TriggerManager

/-- The calls of the manager. -/
inductive TriggerCall
  | create (faults : Faults) (id workflowID : String) (config : Config)
  | update (faults : Faults) (triggerID : String) (updates : Config)
  | delete (faults : Faults) (triggerID : String)
  | activate (faults : Faults) (triggerID : String)
  | deactivate (faults : Faults) (triggerID : String)
  | start (ρ : RangeOrder) (faults : Faults)
  | stop

namespace TriggerManager

variable (env : TriggerEnv)

def call (tm : TriggerManager) : TriggerCall → Option TriggerError × TriggerManager
  | .create faults id workflowID config => tm.createTrigger env faults id workflowID config
  | .update faults triggerID updates => tm.updateTrigger env faults triggerID updates
  | .delete faults triggerID => tm.deleteTrigger faults triggerID
  | .activate faults triggerID => tm.activateTrigger env faults triggerID
  | .deactivate faults triggerID => tm.deactivateTrigger faults triggerID
  | .start ρ faults => tm.start env ρ faults
  | .stop => tm.stop

def step (tm : TriggerManager) (c : TriggerCall) : TriggerManager := (tm.call env c).2

/-! ## What a trigger should fire on -/

end TriggerManager

def GoSlice.texts : GoSlice → List String
  | .nil => []
  | .cons (.string s) l => s :: texts l
  | .cons _ l => texts l

def Config.texts (config : Config) (key : String) : List String :=
  match config.lookup key with
  | some (.slice l) => GoSlice.texts l
  | _ => []

/-- The active trigger that the stored configuration of a webhook, event or e-mail trigger
describes, lists included. -/
def WorkflowTrigger.described (row : WorkflowTrigger) : Option Trigger :=
  let base := newBase row.workflowID row.name .active
  let text := fun key => (row.config.lookup key).asString.getD ""
  match row.type with
  | .webhook => some (.webhook
      { toBaseTrigger := base, path := text "path", method := text "method",
        secret := text "secret" })
  | .event => some (.event
      { toBaseTrigger := base, eventType := text "eventType", eventSource := text "eventSource",
        filters := (row.config.lookup "filters").asMap.getD ∅ })
  | .email => some (.email
      { toBaseTrigger := base, emailAddress := text "emailAddress", subject := text "subject",
        fromFilter := Config.texts row.config "fromFilter",
        keywords := Config.texts row.config "keywords" })
  | _ => none

def WorkflowTrigger.Matches (env : TriggerEnv) (row : WorkflowTrigger) (m : GoEntries) : Prop :=
  ∃ t, row.described = some t ∧ t.Fires env .stored (.map m)

namespace TriggerManager

/-- While a webhook, event or e-mail trigger is stored as active, the registered instance and the
one that `TestTrigger` evaluates fire on every event that matches; while it is not, on none. -/
def Responsive (env : TriggerEnv) (tm : TriggerManager) : Prop :=
  ∀ id row, tm.triggers.lookup id = some row → row.described.isSome = true →
    (row.status = .active → ∀ ρ m, row.Matches env m →
      (∀ w ∈ tm.webhooks.lookup id, w.shouldFire (.map m) = true) ∧
        tm.testTrigger env ρ {} id m = .ok (.ok true)) ∧
    (row.status ≠ .active → ∀ ρ m, (∀ w ∈ tm.webhooks.lookup id, w.shouldFire (.map m) = false) ∧
        tm.testTrigger env ρ {} id m ≠ .ok (.ok true))

/-- No event matches a webhook, event or e-mail trigger that is stored as active. -/
def Unmatched (env : TriggerEnv) (tm : TriggerManager) : Prop :=
  ∀ id row, tm.triggers.lookup id = some row → row.status = .active → ∀ m, ¬ row.Matches env m

def Dormant (tm : TriggerManager) : Prop :=
  ∀ id w, tm.webhooks.lookup id = some w → w.status = .inactive

/-! ## Instances are inactive -/

section Dormant

variable {env : TriggerEnv} {tm : TriggerManager}

theorem Dormant.activate (h : tm.Dormant) {fault : Option String} {row : WorkflowTrigger}
    {tm' : TriggerManager} (hok : tm.activate env fault row = .ok tm') : tm'.Dormant := by
  unfold TriggerManager.activate at hok
  split at hok
  · split at hok
    · cases hok
    · cases hok
      exact GoMap.forall_insert h rfl
  · split at hok
    · cases hok
    · split at hok
      · cases hok
      · cases hok
        exact h
  · split at hok
    · cases hok
    · split at hok
      · cases hok
      · cases hok
        exact h
  · cases hok
    exact h
  · split at hok
    · cases hok
    · cases hok
      exact h
  · cases hok

theorem Dormant.deactivate (h : tm.Dormant) {fault : Option String} {row : WorkflowTrigger}
    {tm' : TriggerManager} (hok : tm.deactivate fault row = .ok tm') : tm'.Dormant := by
  unfold TriggerManager.deactivate at hok
  split at hok
  · cases hok
    exact GoMap.forall_erase h row.id
  · cases hok
    unfold deactivateSchedule
    split <;> exact h
  · cases hok
    exact h
  · cases hok
    exact h
  · split at hok
    · cases hok
    · cases hok
      exact h
  · cases hok

theorem Dormant.tryActivate (h : tm.Dormant) (fault : Option String) (row : WorkflowTrigger) :
    (tm.tryActivate env fault row).Dormant := by
  unfold TriggerManager.tryActivate
  split
  · next hok => exact h.activate hok
  · exact h

theorem Dormant.tryDeactivate (h : tm.Dormant) (fault : Option String) (row : WorkflowTrigger) :
    (tm.tryDeactivate fault row).Dormant := by
  unfold TriggerManager.tryDeactivate
  split
  · next hok => exact h.deactivate hok
  · exact h

theorem Dormant.save (h : tm.Dormant) (row : WorkflowTrigger) : (tm.save row).Dormant := h

theorem Dormant.activateTrigger (h : tm.Dormant) (faults : Faults) (id : String) :
    (tm.activateTrigger env faults id).2.Dormant := by
  unfold TriggerManager.activateTrigger
  split
  · exact h
  split_ifs
  · exact h
  split
  · exact h
  · next hok =>
      split
      · exact h.activate hok
      · exact (h.activate hok).save _

theorem Dormant.deactivateTrigger (h : tm.Dormant) (faults : Faults) (id : String) :
    (tm.deactivateTrigger faults id).2.Dormant := by
  unfold TriggerManager.deactivateTrigger
  split
  · exact h
  split_ifs
  · exact h
  split
  · exact h
  · next hok =>
      split
      · exact h.deactivate hok
      · exact (h.deactivate hok).save _

theorem Dormant.createTrigger (h : tm.Dormant) (faults : Faults) (id workflowID : String)
    (config : Config) : (tm.createTrigger env faults id workflowID config).2.Dormant := by
  unfold TriggerManager.createTrigger
  split
  · exact h
  split
  · exact h
  split_ifs
  · exact h
  · exact h.save _

theorem Dormant.updateTrigger (h : tm.Dormant) (faults : Faults) (id : String)
    (updates : Config) : (tm.updateTrigger env faults id updates).2.Dormant := by
  unfold TriggerManager.updateTrigger
  split
  · exact h
  split
  · exact h
  split
  · exact h
  · next row _ _ _ =>
      have hsaved := h.save row
      simp only
      split_ifs
      · exact (hsaved.tryDeactivate _ _).tryActivate _ _
      · exact hsaved

theorem Dormant.deleteTrigger (h : tm.Dormant) (faults : Faults) (id : String) :
    (tm.deleteTrigger faults id).2.Dormant := by
  unfold TriggerManager.deleteTrigger
  split
  · exact h
  · next row _ =>
      have hr : (tm.deactivateIfActive faults id row.status).2.Dormant := by
        unfold deactivateIfActive
        split_ifs
        · exact h.deactivateTrigger _ _
        · exact h
      split
      · next heq =>
          rw [heq] at hr
          exact hr
      · next heq =>
          rw [heq] at hr
          split <;> exact hr

theorem Dormant.start (h : tm.Dormant) (ρ : RangeOrder) (faults : Faults) :
    (tm.start env ρ faults).2.Dormant := by
  unfold TriggerManager.start
  split
  · exact h
  · exact List.foldlRecOn _ _ h (fun tm htm e _ => Dormant.tryActivate htm _ e.2)

/-- No call makes a manager answer to events. -/
theorem dormant_step (env : TriggerEnv) (tm : TriggerManager) (c : TriggerCall)
    (h : tm.Dormant) : (tm.step env c).Dormant := by
  cases c with
  | create faults id workflowID config => exact h.createTrigger faults id workflowID config
  | update faults id updates => exact h.updateTrigger faults id updates
  | delete faults id => exact h.deleteTrigger faults id
  | activate faults id => exact h.activateTrigger faults id
  | deactivate faults id => exact h.deactivateTrigger faults id
  | start ρ faults => exact h.start ρ faults
  | stop =>
    rw [step, call, stop]
    split_ifs
    · exact h
    · intro id w hw
      cases hw

end Dormant

/-! ## Instances never fire -/

theorem shouldFire_of_inactive {w : WebhookTrigger} (h : w.status = .inactive) (m : GoEntries) :
    w.shouldFire (.map m) = false := by
  simp [WebhookTrigger.shouldFire, BaseTrigger.isActive, h]

theorem testTrigger_eq_false {tm : TriggerManager} {id : String} {row : WorkflowTrigger}
    (hrow : tm.triggers.lookup id = some row) (htype : row.described.isSome = true)
    (env : TriggerEnv) (ρ : RangeOrder) (m : GoEntries) :
    tm.testTrigger env ρ {} id m = .ok (.ok false) := by
  have hget : tm.getTrigger none id = .ok row := by
    simp only [getTrigger, hrow]
  rw [testTrigger, hget]
  cases hkind : row.type with
  | webhook | event | email =>
    simp [testInstance, hkind, TriggerFactory.createTrigger, Trigger.shouldFire,
      WebhookTrigger.shouldFire, EventTrigger.shouldFire, EmailTrigger.shouldFire,
      BaseTrigger.isActive, newWebhookTrigger, newEventTrigger, newEmailTrigger, newBase]
  | schedule | manual | api =>
    rw [WorkflowTrigger.described, hkind] at htype
    cases htype

/-- A manager that answers to nothing is right exactly if nothing matches. -/
theorem Dormant.responsive_iff_unmatched {env : TriggerEnv} {tm : TriggerManager} (h : tm.Dormant) :
    tm.Responsive env ↔ tm.Unmatched env := by
  constructor
  · rintro hresp id row hrow hactive m ⟨t, ht, hfires⟩
    have htype : row.described.isSome = true := by rw [ht, Option.isSome_some]
    have hyes := (((hresp id row hrow htype).1 hactive) .stored m ⟨t, ht, hfires⟩).2
    rw [testTrigger_eq_false hrow htype] at hyes
    cases hyes
  · intro hunmatched id row hrow htype
    refine ⟨fun hactive ρ m hmatch => absurd hmatch (hunmatched id row hrow hactive m), ?_⟩
    intro _ ρ m
    refine ⟨fun w hw => shouldFire_of_inactive (h id w hw) m, ?_⟩
    rw [testTrigger_eq_false hrow htype]
    simp

theorem exists_shouldFire {w : WebhookTrigger} (h : w.status = .active) :
    ∃ m, w.shouldFire (.map m) = true := by
  let m : GoEntries := .cons "secret" (.string w.secret) .nil
  have hpath : m.toMap.lookup "path" = none := rfl
  have hmethod : m.toMap.lookup "method" = none := rfl
  have hsecret : m.toMap.lookup "secret" = some (.string w.secret) := rfl
  exact ⟨m, by simp [WebhookTrigger.shouldFire, BaseTrigger.isActive, h, hpath, hmethod, hsecret,
    Option.asString]⟩

theorem exists_matches_webhook (env : TriggerEnv) {row : WorkflowTrigger}
    (h : row.type = .webhook) : ∃ m, row.Matches env m := by
  have hdescribed : ∃ w : WebhookTrigger, w.status = .active ∧
      row.described = some (.webhook w) := by
    rw [WorkflowTrigger.described, h]
    exact ⟨_, rfl, rfl⟩
  obtain ⟨w, hactive, hw⟩ := hdescribed
  obtain ⟨m, hm⟩ := exists_shouldFire hactive
  exact ⟨m, _, hw, congrArg Except.ok hm⟩

/-- **Active triggers.** Over any calls, from any stored triggers, the instances of the webhook,
event and e-mail triggers fire when they should and only then, exactly if no event ever matches one
that is stored as active. -/
theorem responsive_iff (env : TriggerEnv) (triggers : GoMap String WorkflowTrigger)
    (cs : List TriggerCall) : Runs.Always (step env) (Responsive env) { triggers } cs ↔
      Runs.Always (step env) (Unmatched env) { triggers } cs := by
  have hdormant : Runs.Always (step env) Dormant { triggers } cs :=
    Runs.always_of_step (dormant_step env) (fun id w hw => by cases hw)
  exact forall₂_congr (fun pre hpre => (hdormant pre hpre).responsive_iff_unmatched)

/-- A webhook trigger is created and activated. -/
def hookCalls : List TriggerCall :=
  [.create {} "t1" "workflow" (GoMap.ofPairs [("type", .string "webhook"), ("name", .string "hook"),
      ("path", .string "/hook")]), .activate {} "t1"]

/-- The trigger is then stored as active, some event matches it, and `TestTrigger` says that it
does not fire. -/
theorem active_hook_silent : ¬ Runs.Always (step plainEnv) (Responsive plainEnv) {} hookCalls := by
  intro h
  have hstored : ((hookCalls.foldl (step plainEnv) {}).triggers.lookup "t1").any
      (fun row => row.status = .active ∧ row.type = .webhook) = true := by decide +kernel
  obtain ⟨row, hrow, hkind⟩ := (Option.any_eq_true _ _).mp hstored
  obtain ⟨hactive, htype⟩ := of_decide_eq_true hkind
  have hdescribed : row.described.isSome = true := by rw [WorkflowTrigger.described, htype]; rfl
  obtain ⟨m, hm⟩ := exists_matches_webhook plainEnv htype
  have hfires := ((h.last "t1" row hrow hdescribed).1 hactive .stored m hm).2
  rw [testTrigger_eq_false hrow hdescribed] at hfires
  cases hfires

end TriggerManager

end LinkFlow
