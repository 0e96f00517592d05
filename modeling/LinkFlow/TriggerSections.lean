/-
The calls of the trigger manager, section by section.

`ActivateTrigger`, `DeactivateTrigger`, `UpdateTrigger` and `DeleteTrigger` read the row, change
the cron engine and the manager's map, and write the row back, each in a section of its own: a
database call, a call of the engine, or a part under the manager's lock. What a call has read
it writes back whole. Without interruption the sections are the call (`alone_call`).

A call on a trigger that is alone on it goes through a few situations only (`Sound`): from each of
them its next section leads to the next one, or ends the call with the engine and the map
agreeing with the row, and leaves what is said about other triggers alone (`Sound.advanced`).
-/
import LinkFlow.TriggerManager
import LinkFlow.TriggerRebuild

set_option autoImplicit false

namespace LinkFlow

open List GoMap

/-! ## Calls in sections -/

inductive Request
  | activate (triggerID : String)
  | deactivate (triggerID : String)
  | update (triggerID : String) (updates : Config)
  | delete (triggerID : String)

def Request.triggerID : Request → String
  | .activate id => id
  | .deactivate id => id
  | .update id _ => id
  | .delete id => id

/-- The call that a section belongs to. -/
inductive Caller
  | activate | deactivate | update | delete
deriving DecidableEq, Repr

/-- The first read, the second one of `DeleteTrigger`, the write of `UpdateTrigger`, the removal of
the job and of its registration, the addition of a job, its registration, the write of the status,
and the deletion of the row. -/
inductive Section
  | get (r : Request)
  | getAgain (triggerID : String)
  | saveConfig (trigger : WorkflowTrigger)
  | remove (caller : Caller) (trigger : WorkflowTrigger)
  | add (caller : Caller) (trigger : WorkflowTrigger)
  | register (caller : Caller) (trigger : WorkflowTrigger) (entryID : ℕ)
  | saveStatus (caller : Caller) (trigger : WorkflowTrigger)
  | deleteRow (triggerID : String)

def Section.triggerID : Section → String
  | .get r => r.triggerID
  | .getAgain id => id
  | .saveConfig trigger => trigger.id
  | .remove _ trigger => trigger.id
  | .add _ trigger => trigger.id
  | .register _ trigger _ => trigger.id
  | .saveStatus _ trigger => trigger.id
  | .deleteRow id => id

def Section.writesStatus : Section → Bool
  | .saveStatus _ _ => true
  | _ => false

/-- What follows the activation: `UpdateTrigger` is done. -/
def Caller.afterActivate (caller : Caller) (trigger : WorkflowTrigger) : Option Section :=
  if caller = .update then none else some (.saveStatus caller trigger)

/-- What follows the deactivation: `UpdateTrigger` activates the trigger again. -/
def Caller.afterDeactivate (caller : Caller) (trigger : WorkflowTrigger) : Section :=
  if caller = .update then .add caller trigger else .saveStatus caller trigger

def Caller.written (caller : Caller) (trigger : WorkflowTrigger) : WorkflowTrigger :=
  { trigger with status := if caller = .activate then .active else .inactive }

namespace TriggerManager

variable (env : TriggerEnv)

def afterGet (trigger : WorkflowTrigger) : Request → Option Section
  | .activate _ => if trigger.status = .active then none else some (.add .activate trigger)
  | .deactivate _ => if trigger.status = .active then some (.remove .deactivate trigger) else none
  | .update _ updates => match updatedTrigger env trigger updates with
      | .error _ => none
      | .ok trigger => some (.saveConfig trigger)
  | .delete id => if trigger.status = .active then some (.getAgain id) else some (.deleteRow id)

def advance (tm : TriggerManager) (fault : Option String) :
    Section → TriggerManager × Option Section
  | .get r => match tm.getTrigger fault r.triggerID with
      | .error _ => (tm, none)
      | .ok trigger => (tm, afterGet env trigger r)
  | .getAgain id => match tm.getTrigger fault id with
      | .error _ => (tm, none)
      | .ok trigger =>
        (tm, if trigger.status = .active then some (.remove .delete trigger) else none)
  | .saveConfig trigger => match fault with
      | some _ => (tm, none)
      | none => (tm.save trigger,
          if trigger.status = .active then some (.remove .update trigger) else none)
  | .remove caller trigger => match tm.deactivate fault trigger with
      | .ok tm => (tm, some (caller.afterDeactivate trigger))
      | .error _ => (tm, if caller = .update then some (.add caller trigger) else none)
  | .add caller trigger =>
    if trigger.type = .schedule then
      match (trigger.config.lookup "cronExpression").asString with
      | none => (tm, none)
      | some cronExpr => match env.parseStandard cronExpr with
          | some _ => (tm, none)
          | none => (tm.addFunc trigger, some (.register caller trigger (tm.nextEntry + 1)))
    else match tm.activate env fault trigger with
      | .ok tm => (tm, caller.afterActivate trigger)
      | .error _ => (tm, none)
  | .register caller trigger entryID =>
    (tm.registerSchedule trigger.id entryID, caller.afterActivate trigger)
  | .saveStatus caller trigger => match fault with
      | some _ => (tm, none)
      | none => (tm.save (caller.written trigger),
          if caller = .delete then some (.deleteRow trigger.id) else none)
  | .deleteRow id => match fault with
      | some _ => (tm, none)
      | none => (tm.remove id, none)

end TriggerManager

/-! ## A call without interruption -/

/-- The error that a section of a call meets. -/
def Faults.of (faults : Faults) : Section → Option String
  | .get _ => faults.get
  | .getAgain _ => faults.getAgain
  | .saveConfig _ | .saveStatus _ _ => faults.save
  | .remove _ _ | .add _ _ => faults.redis
  | .register _ _ _ => none
  | .deleteRow _ => faults.delete

/-- The call of the manager that a request stands for. -/
def Request.call (faults : Faults) : Request → TriggerCall
  | .activate id => .activate faults id
  | .deactivate id => .deactivate faults id
  | .update id updates => .update faults id updates
  | .delete id => .delete faults id

namespace TriggerManager

/-- The first `k` sections of a call that runs alone. -/
def alone (env : TriggerEnv) (faults : Faults) :
    ℕ → TriggerManager × Option Section → TriggerManager × Option Section
  | k + 1, (tm, some p) => alone env faults k (tm.advance env (faults.of p) p)
  | _, r => r

section Alone

variable (env : TriggerEnv) (faults : Faults) (tm : TriggerManager) (row : WorkflowTrigger)

@[simp] theorem alone_none (k : ℕ) : alone env faults k (tm, none) = (tm, none) := by
  cases k <;> rfl

-- `simp` runs the sections and the calls
attribute [local simp] alone advance afterGet Faults.of Request.triggerID Request.call step call
  Caller.afterActivate Caller.afterDeactivate Caller.written

/-- A job is registered in a section of its own; what follows is the same for every kind. -/
theorem alone_add (caller : Caller) (k : ℕ) (f : TriggerManager → TriggerManager)
    (hafter : ∀ k tm, alone env faults (k + 1) (tm, caller.afterActivate row) = (f tm, none)) :
    alone env faults (k + 3) (tm, some (.add caller row)) =
      (match tm.activate env faults.redis row with
        | .error _ => tm
        | .ok tm => f tm, none) := by
  by_cases htype : row.type = .schedule
  · cases hexpr : (row.config.lookup "cronExpression").asString with
    | none => simp [activate, htype, hexpr]
    | some cronExpr =>
      cases hparse : env.parseStandard cronExpr <;>
        simp [-Caller.afterActivate, activate, htype, hexpr, hparse, hafter]
  · cases hok : tm.activate env faults.redis row <;>
      simp [-Caller.afterActivate, htype, hok, hafter]

variable {row} {id : String} (hget : tm.getTrigger faults.get id = .ok row)
include hget

theorem alone_activate : alone env faults 6 (tm, some (.get (.activate id))) =
      ((tm.activateTrigger env faults id).2, none) := by
  by_cases hactive : row.status = .active
  · simp [activateTrigger, hget, hactive]
  have hread : alone env faults 6 (tm, some (.get (.activate id))) =
      alone env faults 5 (tm, some (.add .activate row)) := by simp [hget, hactive]
  rw [hread, alone_add env faults tm row .activate 2
    (fun tm => faults.save.elim (tm.save { row with status := .active }) (fun _ => tm))]
  · cases hok : tm.activate env faults.redis row <;> cases hsave : faults.save <;>
      simp [activateTrigger, hget, hactive, hok, hsave]
  · intro k tm
    cases hsave : faults.save <;> simp [hsave]

theorem alone_deactivate : alone env faults 6 (tm, some (.get (.deactivate id))) =
      ((tm.deactivateTrigger faults id).2, none) := by
  by_cases hactive : row.status = .active
  · cases hok : tm.deactivate faults.redis row <;> cases hsave : faults.save <;>
      simp [deactivateTrigger, hget, hactive, hok, hsave]
  · simp [deactivateTrigger, hget, hactive]

theorem alone_update (updates : Config) :
    alone env faults 6 (tm, some (.get (.update id updates))) =
      ((tm.updateTrigger env faults id updates).2, none) := by
  cases hrow : updatedTrigger env row updates with
  | error err => simp [updateTrigger, hget, hrow]
  | ok row =>
    cases hsave : faults.save with
    | some err => simp [updateTrigger, hget, hrow, hsave]
    | none =>
      by_cases hactive : row.status = .active
      · -- the removal, whether it fails or not
        have hremoved : alone env faults 6 (tm, some (.get (.update id updates))) =
            alone env faults 3
              ((tm.save row).tryDeactivate faults.redis row, some (.add .update row)) := by
          cases hok : (tm.save row).deactivate faults.redis row <;>
            simp [tryDeactivate, hget, hrow, hsave, hactive, hok]
        rw [hremoved, alone_add env faults _ row .update 0 (fun tm => tm)
          (fun k tm => alone_none env faults tm (k + 1))]
        simp only [updateTrigger, hget, hrow, hsave, hactive, if_true, tryActivate]
        cases ((tm.save row).tryDeactivate faults.redis row).activate env faults.redis row <;> rfl
      · simp [updateTrigger, hget, hrow, hsave, hactive]

theorem alone_delete (hid : row.id = id) :
    alone env faults 6 (tm, some (.get (.delete id))) = ((tm.deleteTrigger faults id).2, none) := by
  subst hid
  by_cases hactive : row.status = .active
  · cases hagain : tm.getTrigger faults.getAgain row.id with
    | error err =>
      simp [deleteTrigger, deactivateIfActive, deactivateTrigger, hget, hactive, hagain]
    | ok again =>
      -- the second read finds the row that the first one found
      obtain rfl : row = again :=
        Option.some.inj ((getTrigger_ok hget).symm.trans (getTrigger_ok hagain))
      cases hok : tm.deactivate faults.redis row <;> cases hsave : faults.save <;>
        cases hdelete : faults.delete <;>
        simp [deleteTrigger, deactivateIfActive, deactivateTrigger, hget, hactive, hagain, hok,
          hsave, hdelete]
  · cases hdelete : faults.delete <;>
      simp [deleteTrigger, deactivateIfActive, hget, hactive, hdelete]

omit hget in
/-- Without interruption the sections of a call do what the call does, whatever errors it meets. -/
theorem alone_call (r : Request) (h : ∀ id row, tm.triggers.lookup id = some row → row.id = id) :
    alone env faults 6 (tm, some (.get r)) = (tm.step env (r.call faults), none) := by
  cases hget : tm.getTrigger faults.get r.triggerID with
  | error err =>
    cases r <;> simp at hget <;>
      simp [hget, activateTrigger, deactivateTrigger, updateTrigger, deleteTrigger]
  | ok row =>
    cases r with
    | activate id => exact alone_activate env faults tm hget
    | deactivate id => exact alone_deactivate env faults tm hget
    | update id updates => exact alone_update env faults tm hget updates
    | delete id => exact alone_delete env faults tm hget (h id row (getTrigger_ok hget))

end Alone

def jobsOf (tm : TriggerManager) (id : String) : List CronJob :=
  tm.jobs.filter (fun job => job.triggerID = id)

def scheduled (tm : TriggerManager) (id : String) : Bool :=
  (tm.triggers.lookup id).any (fun row => row.type = .schedule ∧ row.status = .active)

end TriggerManager

/-! ## The map, the engine and one trigger -/

def Loadable (env : TriggerEnv) (row : WorkflowTrigger) : Prop :=
  row.type = .schedule → ∃ cronExpr, (row.config.lookup "cronExpression").asString = some cronExpr ∧
      env.parseStandard cronExpr = none

namespace TriggerManager

/-- What every section keeps: entry IDs are used once, what is registered for a trigger is no
job of another one, and every stored schedule trigger can be activated. -/
structure Wired (env : TriggerEnv) (tm : TriggerManager) : Prop where
  fresh : ∀ job ∈ tm.jobs, job.entryID ≤ tm.nextEntry
  nodup : (tm.jobs.map CronJob.entryID).Nodup
  known : ∀ id entryID, tm.schedules.lookup id = some entryID → entryID ≤ tm.nextEntry
  owned : ∀ id entryID, tm.schedules.lookup id = some entryID →
    ∀ job ∈ tm.jobs, job.entryID = entryID → job.triggerID = id
  keyed : ∀ id row, tm.triggers.lookup id = some row → row.id = id
  loadable : ∀ id row, tm.triggers.lookup id = some row → Loadable env row

def Agree (tm : TriggerManager) (id : String) : Bool → Prop
  | true => ∃ job, tm.jobsOf id = [job] ∧ tm.schedules.lookup id = some job.entryID
  | false => tm.jobsOf id = [] ∧ tm.schedules.lookup id = none

/-- Map and engine say what the stored row says. -/
def Settled (tm : TriggerManager) (id : String) : Prop := tm.Agree id (tm.scheduled id)

/-- Two managers that say the same about a trigger. -/
structure Same (id : String) (tm tm' : TriggerManager) : Prop where
  row : tm'.triggers.lookup id = tm.triggers.lookup id
  entry : tm'.schedules.lookup id = tm.schedules.lookup id
  jobs : tm'.jobsOf id = tm.jobsOf id

def Stored (tm : TriggerManager) (row : WorkflowTrigger) : Prop :=
  tm.triggers.lookup row.id = some row

section Views

variable {env : TriggerEnv} {tm tm' : TriggerManager} {id : String} {row : WorkflowTrigger}

theorem Same.agree (h : Same id tm tm') {a : Bool} (ha : tm.Agree id a) : tm'.Agree id a := by
  cases a with
  | true => rwa [Agree, h.entry, h.jobs]
  | false => rwa [Agree, h.entry, h.jobs]

theorem Same.scheduled (h : Same id tm tm') : tm'.scheduled id = tm.scheduled id := by
  rw [TriggerManager.scheduled, h.row, TriggerManager.scheduled]

theorem Same.settled (h : Same id tm tm') (hs : tm.Settled id) : tm'.Settled id := by
  rw [Settled, h.scheduled]
  exact h.agree hs

theorem Stored.scheduled (h : tm.Stored row) :
    tm.scheduled row.id = decide (row.type = .schedule ∧ row.status = .active) := by
  rw [TriggerManager.scheduled, h, Option.any_some]

theorem scheduled_of_none (h : tm.triggers.lookup id = none) : tm.scheduled id = false := by
  rw [scheduled, h, Option.any_none]

theorem length_jobsOf_of_agree {a : Bool} (h : tm.Agree id a) :
    (tm.jobsOf id).length = if a then 1 else 0 := by
  cases a with
  | true =>
    obtain ⟨job, hjobs, -⟩ := h
    rw [hjobs]
    rfl
  | false =>
    rw [h.1]
    rfl

/-! ## The sections' effects -/

theorem stored_save (tm : TriggerManager) (row : WorkflowTrigger) : (tm.save row).Stored row :=
  AList.lookup_insert _

theorem same_save (tm : TriggerManager) (h : id ≠ row.id) : Same id tm (tm.save row) where
  row := AList.lookup_insert_ne h
  entry := rfl
  jobs := rfl

theorem Wired.save (h : tm.Wired env) (hrow : Loadable env row) : (tm.save row).Wired env where
  fresh := h.fresh
  nodup := h.nodup
  known := h.known
  owned := h.owned
  keyed := forall_insert h.keyed rfl
  loadable := forall_insert h.loadable hrow

theorem same_remove (tm : TriggerManager) {k : String} (h : id ≠ k) : Same id tm (tm.remove k) where
  row := AList.lookup_erase_ne h
  entry := rfl
  jobs := rfl

theorem Wired.remove (h : tm.Wired env) (k : String) : (tm.remove k).Wired env where
  fresh := h.fresh
  nodup := h.nodup
  known := h.known
  owned := h.owned
  keyed := forall_erase h.keyed k
  loadable := forall_erase h.loadable k

theorem jobsOf_addFunc (tm : TriggerManager) (row : WorkflowTrigger) (id : String) :
    (tm.addFunc row).jobsOf id = tm.jobsOf id ++
      if row.id = id then [⟨tm.nextEntry + 1, row.id, row.workflowID⟩] else [] := by
  rw [jobsOf, addFunc, filter_append, ← jobsOf, filter_singleton, Bool.cond_decide]

theorem same_addFunc (tm : TriggerManager) (h : id ≠ row.id) : Same id tm (tm.addFunc row) where
  row := rfl
  entry := rfl
  jobs := by rw [jobsOf_addFunc, if_neg (Ne.symm h), append_nil]

/-- A new job gets an entry ID of its own. -/
theorem Wired.addFunc (h : tm.Wired env) (row : WorkflowTrigger) : (tm.addFunc row).Wired env where
  fresh := by
    intro job hjob
    rcases mem_append.mp hjob with hjob | hjob
    · exact (h.fresh job hjob).trans (Nat.le_succ _)
    · rw [mem_singleton.mp hjob]
      exact le_refl _
  nodup := by
    rw [TriggerManager.addFunc, map_append, nodup_append]
    refine ⟨h.nodup, nodup_singleton _, ?_⟩
    intro a ha b hb heq
    obtain ⟨job, hjob, rfl⟩ := mem_map.mp ha
    have hfresh := h.fresh job hjob
    rw [heq, mem_singleton.mp hb] at hfresh
    exact absurd hfresh (Nat.not_succ_le_self _)
  known := fun id entryID he => (h.known id entryID he).trans (Nat.le_succ _)
  owned := by
    intro id entryID he job hjob heq
    rcases mem_append.mp hjob with hjob | hjob
    · exact h.owned id entryID he job hjob heq
    -- the new entry ID is registered nowhere
    have hknown := h.known id entryID he
    rw [mem_singleton.mp hjob] at heq
    simp only at heq
    omega
  keyed := h.keyed
  loadable := h.loadable

theorem same_registerSchedule (tm : TriggerManager) {k : String} (h : id ≠ k) (entryID : ℕ) :
    Same id tm (tm.registerSchedule k entryID) where
  row := rfl
  entry := AList.lookup_insert_ne h
  jobs := rfl

theorem jobsOf_deactivateSchedule_of_ne (h : tm.Wired env) {k : String} (hid : id ≠ k) :
    (tm.deactivateSchedule k).jobsOf id = tm.jobsOf id := by
  unfold deactivateSchedule
  split
  · rfl
  · next entryID he =>
      rw [jobsOf, filter_filter, jobsOf]
      refine filter_congr (fun job hjob => ?_)
      by_cases hjobid : job.triggerID = id
      · have hne : job.entryID ≠ entryID := fun heq =>
          hid (hjobid.symm.trans (h.owned k entryID he job hjob heq))
        simp [hjobid, hne]
      · simp [hjobid]

theorem same_deactivateSchedule (h : tm.Wired env) {k : String} (hid : id ≠ k) :
    Same id tm (tm.deactivateSchedule k) where
  row := by
    unfold deactivateSchedule
    split <;> rfl
  entry := by
    unfold deactivateSchedule
    split
    · rfl
    · exact AList.lookup_erase_ne hid
  jobs := jobsOf_deactivateSchedule_of_ne h hid

theorem Wired.deactivateSchedule (h : tm.Wired env) (k : String) :
    (tm.deactivateSchedule k).Wired env := by
  unfold TriggerManager.deactivateSchedule
  split
  · exact h
  exact
    { fresh := fun job hjob => h.fresh job (mem_of_mem_filter hjob)
      nodup := h.nodup.sublist (filter_sublist.map _)
      known := forall_erase h.known k
      owned := fun id entryID he job hjob =>
        h.owned id entryID (forall_erase (P := fun id e => tm.schedules.lookup id = some e)
          (fun _ _ h => h) k id entryID he) job (mem_of_mem_filter hjob)
      keyed := h.keyed
      loadable := h.loadable }

theorem agree_deactivateSchedule {a : Bool} (h : tm.Agree id a) :
    (tm.deactivateSchedule id).Agree id false := by
  cases a with
  | false =>
    unfold deactivateSchedule
    rw [h.2]
    exact h
  | true =>
    obtain ⟨job, hjobs, he⟩ := h
    unfold deactivateSchedule
    rw [he]
    refine ⟨?_, AList.lookup_erase _ _⟩
    rw [jobsOf, filter_filter, filter_eq_nil_iff]
    intro job' hjob' hkeep
    simp only [Bool.and_eq_true, decide_eq_true_eq] at hkeep
    have hmem : job' ∈ tm.jobsOf id := mem_filter.mpr ⟨hjob', by simpa using hkeep.1⟩
    rw [hjobs, mem_singleton] at hmem
    exact hkeep.2 (by rw [hmem])

end Views

/-! ## One section -/

/-- What holds when a call is about to run a section. The callers of `add` and `remove` are
those that have such a section. -/
def Sound (env : TriggerEnv) (tm : TriggerManager) : Section → Prop
  | .get r => tm.Settled r.triggerID
  | .getAgain id => tm.Settled id
  | .saveConfig row =>
    (∃ old, tm.triggers.lookup row.id = some old ∧ old.type = row.type ∧
      old.status = row.status) ∧ Loadable env row ∧ tm.Settled row.id
  | .remove caller row =>
    caller ≠ .activate ∧ tm.Stored row ∧ row.status = .active ∧
      tm.Agree row.id (row.type = .schedule)
  | .add caller row =>
    (caller = .activate ∨ (caller = .update ∧ row.status = .active)) ∧ tm.Stored row ∧
      tm.Agree row.id false
  | .register caller row entryID =>
    (caller = .activate ∨ (caller = .update ∧ row.status = .active)) ∧ tm.Stored row ∧
      row.type = .schedule ∧ ∃ job, tm.jobsOf row.id = [job] ∧ job.entryID = entryID
  | .saveStatus caller row =>
    tm.Stored row ∧ tm.Agree row.id (caller = .activate ∧ row.type = .schedule)
  | .deleteRow id => tm.scheduled id = false ∧ tm.Agree id false

/-- What a section of a call on a trigger leaves: the manager wired, other triggers as they were,
and the next section ready to run, or the trigger settled. -/
structure Advanced (env : TriggerEnv) (tm : TriggerManager) (id : String)
    (r : TriggerManager × Option Section) : Prop where
  wired : r.1.Wired env
  same : ∀ k, k ≠ id → Same k tm r.1
  next : ∀ p, r.2 = some p → p.triggerID = id ∧ r.1.Sound env p
  last : r.2 = none → r.1.Settled id

section Advance

variable {env : TriggerEnv} {tm : TriggerManager}

variable {id : String} {row : WorkflowTrigger} {fault : Option String} {tm' : TriggerManager}
   {caller : Caller}

theorem advanced_of_unchanged (h : tm.Wired env) {p : Option Section}
    (hnext : ∀ q, p = some q → q.triggerID = id ∧ tm.Sound env q)
    (hlast : p = none → tm.Settled id) : Advanced env tm id (tm, p) where
  wired := h
  same := fun _ _ => ⟨rfl, rfl, rfl⟩
  next := hnext
  last := hlast

theorem updatedTrigger_ok {row row' : WorkflowTrigger} {updates : Config}
    (h : updatedTrigger env row updates = .ok row') :
    row'.id = row.id ∧ row'.type = row.type ∧ row'.status = row.status ∧ Loadable env row' := by
  unfold updatedTrigger at h
  split at h
  · cases h
  · next t ht =>
      split at h
      · cases h
      · next v hv =>
          cases h
          refine ⟨rfl, rfl, rfl, fun htype => ?_⟩
          simp only at htype
          rw [htype] at ht
          cases ht
          obtain ⟨⟨-, hparse, -⟩, rfl⟩ := validate_schedule_iff.mp hv
          refine ⟨_, ?_, env.standard_of_cron _ hparse⟩
          rw [lookup_decodeConfig, Trigger.getConfig, Trigger.base, (lookup_written _).1]
          rfl

theorem Stored.agree_of_settled (h : tm.Stored row) (hs : tm.Settled row.id) :
    (row.status = .active → tm.Agree row.id (row.type = .schedule)) ∧
      (row.status ≠ .active → tm.scheduled row.id = false ∧ tm.Agree row.id false) := by
  rw [Settled, h.scheduled] at hs
  constructor
  · intro hactive
    simpa [hactive] using hs
  intro hactive
  have hnot : decide (row.type = .schedule ∧ row.status = .active) = false :=
    decide_eq_false (fun hboth => hactive hboth.2)
  rw [hnot] at hs
  exact ⟨h.scheduled.trans hnot, hs⟩

theorem Wired.stored_of_get (h : tm.Wired env) (hget : tm.getTrigger fault id = .ok row) :
    row.id = id ∧ tm.Stored row := by
  have hlookup := getTrigger_ok hget
  have hkey := h.keyed id row hlookup
  refine ⟨hkey, ?_⟩
  rw [Stored, hkey]
  exact hlookup

theorem advanced_get (h : tm.Wired env) (fault : Option String) {r : Request}
    (hs : tm.Settled r.triggerID) :
    Advanced env tm r.triggerID (tm.advance env fault (.get r)) := by
  rw [advance]
  split
  · exact advanced_of_unchanged h (by simp) (fun _ => hs)
  · next row hrow =>
      obtain ⟨hkey, hstored⟩ := h.stored_of_get hrow
      have hagree := hstored.agree_of_settled (by rwa [hkey])
      refine advanced_of_unchanged h (fun q hq => ?_) (fun _ => hs)
      cases r with
      | activate id =>
        simp only [afterGet] at hq
        split_ifs at hq with hactive
        cases hq
        exact ⟨hkey, .inl rfl, hstored, (hagree.2 hactive).2⟩
      | deactivate id =>
        simp only [afterGet] at hq
        split_ifs at hq with hactive
        cases hq
        exact ⟨hkey, by decide, hstored, hactive, hagree.1 hactive⟩
      | update id updates =>
        simp only [afterGet] at hq
        split at hq
        · cases hq
        · next row' hrow' =>
            cases hq
            obtain ⟨hid, htype, hstatus, hload⟩ := updatedTrigger_ok hrow'
            refine ⟨hid.trans hkey, ⟨row, ?_, htype.symm, hstatus.symm⟩, hload, ?_⟩
            · rw [hid]
              exact hstored
            · rw [hid, hkey]
              exact hs
      | delete id =>
        simp only [afterGet] at hq
        split_ifs at hq with hactive
        · cases hq
          exact ⟨rfl, hs⟩
        · cases hq
          rw [hkey] at hagree
          exact ⟨rfl, hagree.2 hactive⟩

theorem advanced_getAgain (h : tm.Wired env) (fault : Option String) (hs : tm.Settled id) :
    Advanced env tm id (tm.advance env fault (.getAgain id)) := by
  rw [advance]
  split
  · exact advanced_of_unchanged h (by simp) (fun _ => hs)
  · next row hrow =>
      obtain ⟨hkey, hstored⟩ := h.stored_of_get hrow
      have hagree := hstored.agree_of_settled (by rwa [hkey])
      refine advanced_of_unchanged h (fun q hq => ?_) (fun _ => hs)
      split_ifs at hq with hactive
      cases hq
      exact ⟨hkey, by decide, hstored, hactive, hagree.1 hactive⟩

theorem advanced_saveConfig (h : tm.Wired env) (fault : Option String)
    (hs : tm.Sound env (.saveConfig row)) :
    Advanced env tm row.id (tm.advance env fault (.saveConfig row)) := by
  obtain ⟨⟨old, hold, htype, hstatus⟩, hload, hsettled⟩ := hs
  cases fault with
  | some err => exact advanced_of_unchanged h (by simp) (fun _ => hsettled)
  | none =>
    -- the row is as active as the one it replaces
    have hstored := stored_save tm row
    have hsched : (tm.save row).scheduled row.id = tm.scheduled row.id := by
      rw [hstored.scheduled, scheduled, hold, Option.any_some, htype, hstatus]
    have hagree : (tm.save row).Agree row.id (tm.scheduled row.id) := hsettled
    rw [advance]
    have hsettled' : (tm.save row).Settled row.id := by
      rw [Settled, hsched]
      exact hagree
    refine ⟨h.save hload, fun k hk => same_save tm hk, fun q hq => ?_, fun _ => hsettled'⟩
    simp only at hq
    split_ifs at hq with hactive
    cases hq
    exact ⟨rfl, by decide, hstored, hactive, (hstored.agree_of_settled hsettled').1 hactive⟩

/-- What a section of a trigger that is no schedule leaves as it was. -/
structure Untouched (tm tm' : TriggerManager) : Prop where
  triggers : tm'.triggers = tm.triggers
  schedules : tm'.schedules = tm.schedules
  jobs : tm'.jobs = tm.jobs
  nextEntry : tm'.nextEntry = tm.nextEntry

theorem Untouched.same (h : Untouched tm tm') (id : String) : Same id tm tm' := by
  refine ⟨by rw [h.triggers], by rw [h.schedules], ?_⟩
  rw [jobsOf, h.jobs, jobsOf]

theorem Untouched.wired (h : Untouched tm tm') (hw : tm.Wired env) : tm'.Wired env := by
  obtain ⟨h1, h2, h3, h4⟩ := h
  refine ⟨?_, ?_, ?_, ?_, ?_, ?_⟩
  · rw [h3, h4]
    exact hw.fresh
  · rw [h3]
    exact hw.nodup
  · rw [h2, h4]
    exact hw.known
  · rw [h2, h3]
    exact hw.owned
  · rw [h1]
    exact hw.keyed
  · rw [h1]
    exact hw.loadable

theorem untouched_deactivate (htype : row.type ≠ .schedule)
    (hok : tm.deactivate fault row = .ok tm') : Untouched tm tm' := by
  unfold deactivate at hok
  split at hok
  · cases hok
    exact ⟨rfl, rfl, rfl, rfl⟩
  · next hschedule => exact absurd hschedule htype
  · cases hok
    exact ⟨rfl, rfl, rfl, rfl⟩
  · cases hok
    exact ⟨rfl, rfl, rfl, rfl⟩
  · split at hok
    · cases hok
    · cases hok
      exact ⟨rfl, rfl, rfl, rfl⟩
  · cases hok

theorem untouched_activate (htype : row.type ≠ .schedule)
    (hok : tm.activate env fault row = .ok tm') : Untouched tm tm' := by
  unfold activate at hok
  split at hok
  · split at hok
    · cases hok
    · cases hok
      exact ⟨rfl, rfl, rfl, rfl⟩
  · next hschedule => exact absurd hschedule htype
  · split at hok
    · cases hok
    · split at hok
      · cases hok
      · cases hok
        exact ⟨rfl, rfl, rfl, rfl⟩
  · cases hok
    exact ⟨rfl, rfl, rfl, rfl⟩
  · split at hok
    · cases hok
    · cases hok
      exact ⟨rfl, rfl, rfl, rfl⟩
  · cases hok

theorem Stored.congr (h : tm.Stored row)
    (hsame : tm'.triggers.lookup row.id = tm.triggers.lookup row.id) : tm'.Stored row :=
  hsame.trans h

theorem Stored.settled (h : tm.Stored row) (hnot : ¬ (row.type = .schedule ∧ row.status = .active))
    (hagree : tm.Agree row.id false) : tm.Settled row.id := by
  rw [Settled, h.scheduled, decide_eq_false hnot]
  exact hagree

theorem sound_afterDeactivate (hcaller : caller ≠ .activate) (hstored : tm.Stored row)
    (hactive : row.status = .active) (hagree : tm.Agree row.id false) :
    (caller.afterDeactivate row).triggerID = row.id ∧
      tm.Sound env (caller.afterDeactivate row) := by
  unfold Caller.afterDeactivate
  split_ifs with hupdate
  · exact ⟨rfl, .inr ⟨hupdate, hactive⟩, hstored, hagree⟩
  · refine ⟨rfl, hstored, ?_⟩
    rw [decide_eq_false (fun hboth => hcaller hboth.1)]
    exact hagree

theorem advanced_remove (h : tm.Wired env) (fault : Option String)
    (hs : tm.Sound env (.remove caller row)) :
    Advanced env tm row.id (tm.advance env fault (.remove caller row)) := by
  obtain ⟨hcaller, hstored, hactive, hagree⟩ := hs
  rw [advance]
  by_cases htype : row.type = .schedule
  · have hok : tm.deactivate fault row = .ok (tm.deactivateSchedule row.id) := by
      simp only [deactivate, htype]
    have hrow : (tm.deactivateSchedule row.id).triggers = tm.triggers := by
      unfold deactivateSchedule
      split <;> rfl
    have hstored' : (tm.deactivateSchedule row.id).Stored row := hstored.congr (by rw [hrow])
    rw [hok]
    refine ⟨h.deactivateSchedule row.id, fun k hk => same_deactivateSchedule h hk, ?_, by simp⟩
    intro q hq
    cases hq
    exact sound_afterDeactivate hcaller hstored' hactive (agree_deactivateSchedule hagree)
  · rw [decide_eq_false htype] at hagree
    split
    · next tm' hok =>
        have huntouched := untouched_deactivate htype hok
        refine ⟨huntouched.wired h, fun k _ => huntouched.same k, fun q hq => ?_, by simp⟩
        cases hq
        exact sound_afterDeactivate hcaller (hstored.congr (by rw [huntouched.triggers])) hactive
          ((huntouched.same row.id).agree hagree)
    · refine advanced_of_unchanged h (fun q hq => ?_)
        (fun _ => hstored.settled (fun hboth => htype hboth.1) hagree)
      split_ifs at hq with hupdate
      cases hq
      exact ⟨rfl, .inr ⟨hupdate, hactive⟩, hstored, hagree⟩

theorem advanced_afterActivate (hw : tm'.Wired env) (hsame : ∀ k, k ≠ row.id → Same k tm tm')
    (hstored : tm'.Stored row)
    (hcaller : caller = .activate ∨ (caller = .update ∧ row.status = .active))
    (hagree : tm'.Agree row.id (row.type = .schedule)) :
    Advanced env tm row.id (tm', caller.afterActivate row) := by
  refine ⟨hw, hsame, fun q hq => ?_, fun hq => ?_⟩
  · unfold Caller.afterActivate at hq
    split_ifs at hq with hupdate
    cases hq
    have hactivate : caller = .activate := hcaller.resolve_right (fun hboth => hupdate hboth.1)
    refine ⟨rfl, hstored, ?_⟩
    simpa [hactivate] using hagree
  · unfold Caller.afterActivate at hq
    split_ifs at hq with hupdate
    have hactive : row.status = .active := by
      rcases hcaller with hactivate | hboth
      · rw [hactivate] at hupdate
        cases hupdate
      · exact hboth.2
    rw [Settled, hstored.scheduled]
    simpa [hactive] using hagree

theorem advanced_add (h : tm.Wired env) (fault : Option String)
    (hs : tm.Sound env (.add caller row)) :
    Advanced env tm row.id (tm.advance env fault (.add caller row)) := by
  obtain ⟨hcaller, hstored, hagree⟩ := hs
  rw [advance]
  by_cases htype : row.type = .schedule
  · obtain ⟨cronExpr, hexpr, hparse⟩ := h.loadable _ row hstored htype
    rw [if_pos htype, hexpr]
    simp only [hparse]
    have hjobs : (tm.addFunc row).jobsOf row.id = [⟨tm.nextEntry + 1, row.id, row.workflowID⟩] := by
      rw [jobsOf_addFunc, hagree.1, if_pos rfl, nil_append]
    refine ⟨h.addFunc row, fun k hk => same_addFunc tm hk, fun q hq => ?_, by simp⟩
    cases hq
    exact ⟨rfl, hcaller, hstored, htype, _, hjobs, rfl⟩
  · rw [if_neg htype]
    split
    · next tm' hok =>
        have huntouched := untouched_activate htype hok
        refine advanced_afterActivate (huntouched.wired h) (fun k _ => huntouched.same k)
          (hstored.congr (by rw [huntouched.triggers])) hcaller ?_
        rw [decide_eq_false htype]
        exact (huntouched.same row.id).agree hagree
    · exact advanced_of_unchanged h (by simp)
        (fun _ => hstored.settled (fun hboth => htype hboth.1) hagree)

theorem advanced_register (h : tm.Wired env) (fault : Option String) {entryID : ℕ}
    (hs : tm.Sound env (.register caller row entryID)) :
    Advanced env tm row.id (tm.advance env fault (.register caller row entryID)) := by
  obtain ⟨hcaller, hstored, htype, job, hjobs, rfl⟩ := hs
  obtain ⟨hjob, hid⟩ : job ∈ tm.jobs ∧ job.triggerID = row.id := by
    have hmem : job ∈ tm.jobsOf row.id := hjobs ▸ mem_singleton_self job
    simpa [jobsOf] using hmem
  -- an entry ID belongs to one job
  have howned : ∀ job' ∈ tm.jobs, job'.entryID = job.entryID → job'.triggerID = row.id := by
    intro job' hjob' heq
    rw [inj_on_of_nodup_map h.nodup hjob' hjob heq, hid]
  rw [advance]
  refine advanced_afterActivate ?_ (fun k hk => same_registerSchedule tm hk _) hstored hcaller ?_
  · exact
      { fresh := h.fresh, nodup := h.nodup, known := forall_insert h.known (h.fresh job hjob),
        owned := forall_insert h.owned howned, keyed := h.keyed, loadable := h.loadable }
  · rw [decide_eq_true htype]
    exact ⟨job, hjobs, AList.lookup_insert _⟩

theorem advanced_saveStatus (h : tm.Wired env) (hs : tm.Sound env (.saveStatus caller row)) :
    Advanced env tm row.id (tm.advance env none (.saveStatus caller row)) := by
  obtain ⟨hstored, hagree⟩ := hs
  have hload : Loadable env (caller.written row) := h.loadable _ row hstored
  have hstored' := stored_save tm (caller.written row)
  have hsched : (tm.save (caller.written row)).scheduled row.id =
      decide (caller = .activate ∧ row.type = .schedule) := by
    refine hstored'.scheduled.trans ?_
    by_cases hactivate : caller = .activate <;> simp [Caller.written, hactivate]
  have hsettled : (tm.save (caller.written row)).Settled row.id := by
    rw [Settled, hsched]
    exact hagree
  rw [advance]
  refine ⟨h.save hload, fun k hk => same_save tm hk, fun q hq => ?_, fun _ => hsettled⟩
  simp only at hq
  split_ifs at hq with hdelete
  cases hq
  have hnot : (tm.save (caller.written row)).scheduled row.id = false := by
    rw [hsched, hdelete]
    simp
  rw [Settled, hnot] at hsettled
  exact ⟨rfl, hnot, hsettled⟩

theorem advanced_deleteRow (h : tm.Wired env) (fault : Option String)
    (hs : tm.Sound env (.deleteRow id)) :
    Advanced env tm id (tm.advance env fault (.deleteRow id)) := by
  obtain ⟨hnot, hagree⟩ := hs
  cases fault with
  | some err =>
    refine advanced_of_unchanged h (by simp) (fun _ => ?_)
    rw [Settled, hnot]
    exact hagree
  | none =>
    refine ⟨h.remove id, fun k hk => same_remove tm hk, by simp [advance], fun _ => ?_⟩
    have hgone : (tm.remove id).scheduled id = false :=
      scheduled_of_none (AList.lookup_erase id tm.triggers)
    change (tm.remove id).Settled id
    rw [Settled, hgone]
    exact hagree

/-- Every section of a call keeps its trigger agreed, and the others as they are. -/
theorem Sound.advanced (h : tm.Wired env) {p : Section} (hs : tm.Sound env p)
    (hfault : p.writesStatus = true → fault = none) :
    Advanced env tm p.triggerID (tm.advance env fault p) := by
  cases p with
  | get r => exact advanced_get h fault hs
  | getAgain id => exact advanced_getAgain h fault hs
  | saveConfig row => exact advanced_saveConfig h fault hs
  | remove caller row => exact advanced_remove h fault hs
  | add caller row => exact advanced_add h fault hs
  | register caller row entryID => exact advanced_register h fault hs
  | saveStatus caller row =>
    rw [hfault rfl]
    exact advanced_saveStatus h hs
  | deleteRow id => exact advanced_deleteRow h fault hs

/-- What a call relies on is about its own trigger. -/
theorem Sound.congr {p : Section} (hs : tm.Sound env p) (hsame : Same p.triggerID tm tm') :
    tm'.Sound env p := by
  cases p with
  | get r => exact hsame.settled hs
  | getAgain id => exact hsame.settled hs
  | saveConfig row =>
    obtain ⟨⟨old, hold, hkeep⟩, hload, hsettled⟩ := hs
    exact ⟨⟨old, hsame.row.trans hold, hkeep⟩, hload, hsame.settled hsettled⟩
  | remove caller row =>
    obtain ⟨hcaller, hstored, hactive, hagree⟩ := hs
    exact ⟨hcaller, hstored.congr hsame.row, hactive, hsame.agree hagree⟩
  | add caller row =>
    obtain ⟨hcaller, hstored, hagree⟩ := hs
    exact ⟨hcaller, hstored.congr hsame.row, hsame.agree hagree⟩
  | register caller row entryID =>
    obtain ⟨hcaller, hstored, htype, job, hjobs, hentry⟩ := hs
    exact ⟨hcaller, hstored.congr hsame.row, htype, job, hsame.jobs.trans hjobs, hentry⟩
  | saveStatus caller row =>
    obtain ⟨hstored, hagree⟩ := hs
    exact ⟨hstored.congr hsame.row, hsame.agree hagree⟩
  | deleteRow id =>
    obtain ⟨hnot, hagree⟩ := hs
    exact ⟨hsame.scheduled.trans hnot, hsame.agree hagree⟩

end Advance

end TriggerManager

end LinkFlow
