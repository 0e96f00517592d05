/-
Firings, misfire handling and edits of schedules side by side
(`internal/schedule/app/scheduler/cron.go`, `internal/schedule/app/service/service.go`).

A job holds the schedule it was registered with, and a misfire check holds the schedules it has
read; both save them back as a whole. Steps lead from one call of the repository or of the event
bus to the next. What a step does is said once (`Changes`), and to the scheduler and the repository
in particular (`Effect`).
-/
import LinkFlow.CronScheduler

set_option autoImplicit false

namespace LinkFlow.Cron

open List

open Parsers (parseSeconds)

/-! ## The world -/

/-- What `scheduleJob.Run` does next. -/
inductive Stage
  | record
  | publish
  | report
  | save
deriving DecidableEq, Repr

/-- A `scheduleJob` that runs. It sets the two times of its schedule right before it saves it, so
that no other run of the job sees them. -/
structure Job where
  schedule : Schedule
  triggeredAt : ℤ
  stage : Stage := .record
deriving DecidableEq, Repr

/-- A `checkMisfires` under way, with its `now` and the schedules it has still to look at. -/
structure MisfireCheck where
  now : ℤ
  remaining : List Schedule
deriving DecidableEq, Repr

/-- A `PauseSchedule` under way: the schedule it has read, and whether it has saved it. -/
structure Pause where
  schedule : Schedule
  saved : Bool := false
deriving DecidableEq, Repr

structure World where
  cron : CronScheduler
  jobs : List Job := []
  checks : List MisfireCheck := []
  pauses : List Pause := []

/-- What `ScheduleService` does to the repository, without the scheduler. -/
inductive Edit
  | create (schedule : Schedule)
  | save (schedule : Schedule)
  | delete (scheduleID : String)
deriving DecidableEq, Repr

inductive Action
  /-- the `k`th entry of the engine fires -/
  | fire (k : ℕ) (now : ℤ)
  /-- the `i`th job goes on; `next` is when the engine runs its entry next -/
  | job (i : ℕ) (now next : ℤ) (fault : Option String)
  /-- `checkMisfires` reads the active schedules, in the order the database returns them -/
  | check (ρ : RangeOrder) (now : ℤ) (fault : Option String)
  /-- the `c`th check looks at its next schedule; `next` is when the expression is due next -/
  | misfire (c : ℕ) (now next : ℤ) (fault : Option String)
  /-- `PauseSchedule` reads the schedule -/
  | pause (fault : Option String) (scheduleID : String)
  /-- the `p`th `PauseSchedule` saves it, or removes it from the engine and returns -/
  | pauseNext (p : ℕ) (fault : Option String)
  | call (c : Call)
  | edit (fault : Option String) (e : Edit)

def Schedule.misfired (now : ℤ) (s : Schedule) : Bool :=
  s.nextRunAt.any (fun nextRunAt => nextRunAt < now)

/-- The schedule with the next run that `calculateNextRunTime` finds for its expression. -/
def Schedule.skipped [Parsers] (next : ℤ) (s : Schedule) : Schedule :=
  { s with nextRunAt := if parseSeconds s.cronExpression = true then some next else none }

def Job.ran (nextRunAt : Option ℤ) (job : Job) : Schedule :=
  { job.schedule with
    lastRunAt := some job.triggeredAt
    nextRunAt }

namespace World

/-- `repository.Update`, where the result is not looked at. -/
def save (w : World) (fault : Option String) (s : Schedule) : World :=
  match w.cron.rows.save fault s with
  | .error _ => w
  | .ok (rows, _) => { w with cron := { w.cron with rows } }

def getNextRunTime (w : World) (next : ℤ) (scheduleID : String) : Option ℤ :=
  match w.cron.schedules.lookup scheduleID with
  | none => none
  | some entryID => if w.cron.entries.any (fun e => e.id = entryID) then some next else none

/-- `Run`, from one call to the next. -/
def jobStep (w : World) (i : ℕ) (job : Job) (next : ℤ) (fault : Option String) : World :=
  -- what `RecordExecution` and `Publish` return is logged, and `Run` goes on
  match job.stage with
  | .record => { w with jobs := w.jobs.set i { job with stage := .publish } }
  | .publish => { w with jobs := w.jobs.set i { job with stage := .report } }
  | .report => { w with jobs := w.jobs.set i { job with stage := .save } }
  | .save =>
    { w with jobs := w.jobs.eraseIdx i }.save fault
      (job.ran (w.getNextRunTime next job.schedule.id))

/-- The body of the loop of `checkMisfires`. -/
def misfireStep [Parsers] (w : World) (checkNow now next : ℤ) (fault : Option String)
    (s : Schedule) : World :=
  if s.misfired checkNow = true then
    match s.misfirePolicy with
    | .runOnce => { w with jobs := w.jobs ++ [{ schedule := s, triggeredAt := now }] }
    | .skip => w.save fault (s.skipped next)
    -- the case of `run_all` is empty, and other policies have none
    | _ => w
  else w

/-- `PauseSchedule`, after it has read the schedule. -/
def pauseStep (w : World) (p : ℕ) (pause : Pause) (fault : Option String) : World :=
  if pause.saved = true then
    { w with cron := w.cron.removeFromCron pause.schedule.id, pauses := w.pauses.eraseIdx p }
  else
    match w.cron.rows.save fault { pause.schedule with isActive := false } with
    | .error _ => { w with pauses := w.pauses.eraseIdx p }
    | .ok (rows, _) =>
      { w with cron := { w.cron with rows }, pauses := w.pauses.set p { pause with saved := true } }

def editStep (w : World) (fault : Option String) : Edit → World
  | .create s => match w.cron.rows.create fault s with
      | .error _ => w
      | .ok (rows, _) => { w with cron := { w.cron with rows } }
  | .save s => w.save fault s
  | .delete scheduleID => match fault with
      | some _ => w
      | none => { w with cron := { w.cron with rows := w.cron.rows.erase scheduleID } }

def step [Parsers] (w : World) : Action → World
  | .fire k now => match w.cron.entries[k]? with
      | none => w
      | some e => { w with jobs := w.jobs ++ [{ schedule := e.schedule, triggeredAt := now }] }
  | .job i _ next fault => match w.jobs[i]? with
      | none => w
      | some job => w.jobStep i job next fault
  | .check ρ now fault => match fault with
      | some _ => w
      | none =>
        if w.cron.isLeader = true then
          { w with checks := w.checks ++ [{ now, remaining :=
              ((ρ.run 409 w.cron.rows.entries).map Sigma.snd).filter (·.isActive) }] }
        else w
  | .misfire c now next fault => match w.checks[c]? with
      | none => w
      | some check => match check.remaining with
          | [] => { w with checks := w.checks.eraseIdx c }
          | s :: remaining =>
            { w with checks := w.checks.set c { check with remaining } }.misfireStep check.now
              now next fault s
  | .pause fault scheduleID => match w.cron.rows.getByID fault scheduleID with
      | .error _ => w
      | .ok schedule => { w with pauses := w.pauses ++ [{ schedule }] }
  | .pauseNext p fault => match w.pauses[p]? with
      | none => w
      | some pause => w.pauseStep p pause fault
  | .call c => { w with cron := w.cron.step c }
  | .edit fault e => w.editStep fault e

def run [Parsers] (w : World) (as : List Action) : World := as.foldl step w

/-- The schedule whose `schedule.triggered` event an action publishes, and when. -/
def publishes (w : World) : Action → Option (String × ℤ)
  | .job i now _ _ => match w.jobs[i]? with
      | some { schedule, stage := .publish, .. } => some (schedule.id, now)
      | _ => none
  | _ => none

end World

/-! ## What a call of the scheduler changes -/

namespace CronScheduler

/-- What every call keeps, whatever fails: every entry is registered under its schedule, and
holds a schedule that was active. -/
structure Sane (s : CronScheduler) : Prop where
  leads : s.isLeader = true
  keyed : Keyed s.rows
  registered : ∀ e ∈ s.entries, s.schedules.lookup e.schedule.id = some e.id
  held : ∀ e ∈ s.entries, e.schedule.isActive = true

/-- Only the schedule `id` is changed, and it has entries afterwards only if it is active. -/
structure Only (id : String) (s s' : CronScheduler) : Prop where
  rows : ∀ k, k ≠ id → s'.rows.lookup k = s.rows.lookup k
  entries : ∀ e ∈ s'.entries, e ∈ s.entries ∧ e.schedule.id ≠ id ∨
    e.schedule.id = id ∧ Active s'.rows id

variable {s : CronScheduler} {schedule : Schedule}

theorem Sane.withRows (h : s.Sane) {rows : Rows} (hkeyed : Keyed rows) : { s with rows }.Sane :=
  ⟨h.leads, hkeyed, h.registered, h.held⟩

theorem Sane.removeExisting (h : s.Sane) (id : String) : (s.removeExisting id).Sane := by
  have hsub := (s.sublist_removeExisting id).subset
  refine ⟨?_, ?_, ?_, ?_⟩
  · rw [isLeader_removeExisting]
    exact h.leads
  · rw [rows_removeExisting]
    exact h.keyed
  · intro e he
    rw [schedules_removeExisting]
    exact h.registered e (hsub he)
  · intro e he
    exact h.held e (hsub he)

theorem Sane.removeFromCron (h : s.Sane) (id : String) : (s.removeFromCron id).Sane := by
  have hsane := h.removeExisting id
  refine ⟨hsane.leads, hsane.keyed, ?_, hsane.held⟩
  intro e he
  have hreg := h.registered e ((s.sublist_removeExisting id).subset he)
  exact (AList.lookup_erase_ne (ne_of_mem_removeExisting h.registered he)).trans hreg

theorem Sane.scheduleEntry (h : s.Sane) (hnone : ∀ e ∈ s.entries, e.schedule.id ≠ schedule.id)
    (hactive : schedule.isActive = true) : (s.scheduleEntry schedule).Sane := by
  refine ⟨h.leads, h.keyed, ?_, ?_⟩
  · intro e he
    rw [CronScheduler.scheduleEntry, GoMap.lookup_insert]
    rcases mem_append.mp he with he | he
    · rw [if_neg (hnone e he)]
      exact h.registered e he
    · rw [mem_singleton.mp he, if_pos rfl]
  · intro e he
    rcases mem_append.mp he with he | he
    · exact h.held e he
    · rw [mem_singleton.mp he]
      exact hactive

/-- Whether or not the expression is accepted, other schedules keep their entries. -/
theorem Sane.addIfLeader [Parsers] (h : s.Sane) (hactive : schedule.isActive = true) (err : Error) :
    (s.addIfLeader schedule err).2.Sane ∧ (s.addIfLeader schedule err).2.rows = s.rows ∧
      ∀ e ∈ (s.addIfLeader schedule err).2.entries,
        e ∈ s.entries ∧ e.schedule.id ≠ schedule.id ∨ e.schedule.id = schedule.id := by
  -- every entry of the schedule is registered under it, so those left are of others
  have hold : ∀ e ∈ (s.removeExisting schedule.id).entries,
      e ∈ s.entries ∧ e.schedule.id ≠ schedule.id := fun e he =>
    ⟨(s.sublist_removeExisting _).subset he, ne_of_mem_removeExisting h.registered he⟩
  by_cases hparse : parseSeconds schedule.cronExpression = true
  · rw [addIfLeader_of_parse h.leads schedule hparse]
    refine ⟨(h.removeExisting _).scheduleEntry (fun e he => (hold e he).2) hactive,
      rows_removeExisting _ _, ?_⟩
    intro e he
    rcases mem_append.mp he with he | he
    · exact .inl (hold e he)
    · rw [mem_singleton.mp he]
      exact .inr rfl
  · rw [addIfLeader_of_not_parse h.leads schedule (by simpa using hparse)]
    exact ⟨h.removeExisting _, rows_removeExisting _ _, fun e he => .inl (hold e he)⟩

theorem Sane.only_addIfLeader [Parsers] {s t : CronScheduler} (h : t.Sane)
    (hactive : schedule.isActive = true) (hrows : t.rows = s.rows.insert schedule.id schedule)
    (hentries : ∀ e ∈ t.entries, e ∈ s.entries) (err : Error) :
    (t.addIfLeader schedule err).2.Sane ∧ Only schedule.id s (t.addIfLeader schedule err).2 := by
  obtain ⟨hsane, hsame, hnew⟩ := h.addIfLeader hactive err
  refine ⟨hsane, ?_, ?_⟩
  · intro k hk
    rw [hsame, hrows]
    exact AList.lookup_insert_ne hk
  · intro e he
    refine (hnew e he).imp (And.imp_left (hentries e)) (fun hid => ⟨hid, ?_⟩)
    rw [hsame, hrows, active_insert, if_pos rfl]
    exact hactive

theorem Sane.only_removeFromCron {s t : CronScheduler} (h : t.Sane) {id : String}
    (hrows : ∀ k, k ≠ id → t.rows.lookup k = s.rows.lookup k)
    (hentries : ∀ e ∈ t.entries, e ∈ s.entries) :
    (t.removeFromCron id).Sane ∧ Only id s (t.removeFromCron id) := by
  refine ⟨h.removeFromCron id, ?_, ?_⟩
  · intro k hk
    rw [CronScheduler.removeFromCron, rows_removeExisting]
    exact hrows k hk
  · intro e he
    exact .inl ⟨hentries e ((t.sublist_removeExisting id).subset he),
      ne_of_mem_removeExisting h.registered he⟩

/-- What a call from `s` leads to. -/
def Outcome (id : String) (s s' : CronScheduler) : Prop := s' = s ∨ s'.Sane ∧ Only id s s'

theorem Sane.add [Parsers] (h : s.Sane) (fault : Option String) (schedule : Schedule) :
    Outcome schedule.id s (s.addSchedule fault schedule).2 := by
  unfold addSchedule
  split_ifs
  · split
    · exact .inl rfl
    · rename_i rows stored hcreate
      obtain ⟨-, hstored, hrows⟩ := create_eq_ok hcreate
      have hid : stored.id = schedule.id := by rw [hstored, Schedule.withDefaults]
      have hactive : stored.isActive = true := by rw [hstored, Schedule.withDefaults]
      rw [← hid] at hrows ⊢
      have hsane : { s with rows }.Sane := h.withRows (hrows ▸ h.keyed.insert rfl)
      exact .inr (hsane.only_addIfLeader hactive hrows (fun _ he => he) _)
  · exact .inl rfl

theorem Sane.update [Parsers] (h : s.Sane) (fault : Option String) (schedule : Schedule) :
    Outcome schedule.id s (s.updateSchedule fault schedule).2 := by
  unfold updateSchedule
  split_ifs
  · split
    · exact .inl rfl
    · rename_i rows stored hsave
      have hrows := (save_eq_ok hsave).1
      have hsane : { s with rows }.Sane := h.withRows (h.keyed.save hsave)
      have hremoved := hsane.only_removeFromCron (fun _ => lookup_save_ne hsave) (fun _ he => he)
      rw [← save_id hsave] at hrows hremoved ⊢
      dsimp only
      rw [if_pos h.leads]
      split_ifs with hactive
      · refine .inr (hremoved.1.only_addIfLeader hactive ?_ ?_ _)
        · rw [CronScheduler.removeFromCron, rows_removeExisting]
          exact hrows
        · intro e he
          exact (({ s with rows } : CronScheduler).sublist_removeExisting stored.id).subset he
      · exact .inr hremoved
  · exact .inl rfl

theorem Sane.delete (h : s.Sane) (fault : Option String) (scheduleID : String) :
    Outcome scheduleID s (s.deleteSchedule fault scheduleID).2 := by
  have hremoved : (s.removeFromCron scheduleID).Sane ∧
      Only scheduleID s (s.removeFromCron scheduleID) :=
    h.only_removeFromCron (fun _ _ => rfl) (fun _ he => he)
  cases fault with
  | some err => exact .inr hremoved
  | none =>
    refine .inr ⟨hremoved.1.withRows (hremoved.1.keyed.erase scheduleID), ?_, ?_⟩
    · intro k hk
      exact (AList.lookup_erase_ne hk).trans (hremoved.2.rows k hk)
    intro e he
    rcases hremoved.2.entries e he with hold | ⟨hid, -⟩
    · exact .inl hold
    · exact absurd hid (ne_of_mem_removeExisting h.registered he)

theorem Sane.pause (h : s.Sane) (getFault saveFault : Option String) (scheduleID : String) :
    Outcome scheduleID s (s.pauseSchedule getFault saveFault scheduleID).2 := by
  unfold pauseSchedule
  split
  · exact .inl rfl
  rename_i schedule hget
  obtain rfl := h.keyed _ _ (getByID_eq_ok hget)
  split
  · exact .inl rfl
  · rename_i rows stored hsave
    have hsane : { s with rows }.Sane := h.withRows (h.keyed.save hsave)
    exact .inr (hsane.only_removeFromCron (fun _ => lookup_save_ne hsave) (fun _ he => he))

theorem Sane.resume [Parsers] (h : s.Sane) (getFault saveFault : Option String)
    (scheduleID : String) :
    Outcome scheduleID s (s.resumeSchedule getFault saveFault scheduleID).2 := by
  unfold resumeSchedule
  split
  · exact .inl rfl
  rename_i schedule hget
  obtain rfl := h.keyed _ _ (getByID_eq_ok hget)
  split
  · exact .inl rfl
  rename_i rows stored hsave
  have hrows := (save_eq_ok hsave).1
  have hid := save_id hsave
  have hsane : { s with rows }.Sane := h.withRows (h.keyed.save hsave)
  dsimp only at hrows hid
  rw [← hid] at hrows ⊢
  exact .inr (hsane.only_addIfLeader (save_isActive hsave rfl) hrows (fun _ he => he) _)

end CronScheduler

def Call.scheduleID : Call → String
  | .add _ schedule => schedule.id
  | .update _ schedule => schedule.id
  | .delete _ scheduleID => scheduleID
  | .pause _ _ scheduleID => scheduleID
  | .resume _ _ scheduleID => scheduleID

namespace CronScheduler

/-- A call changes nothing, or one schedule only. -/
theorem Sane.outcome_step [Parsers] {s : CronScheduler} (h : s.Sane) (c : Call) :
    Outcome c.scheduleID s (s.step c) := by
  cases c with
  | add fault schedule => exact h.add fault schedule
  | update fault schedule => exact h.update fault schedule
  | delete fault scheduleID => exact h.delete fault scheduleID
  | pause getFault saveFault scheduleID => exact h.pause getFault saveFault scheduleID
  | resume getFault saveFault scheduleID => exact h.resume getFault saveFault scheduleID

/-- A scheduler that has become leader is sane. -/
theorem Sane.loadSchedules [Parsers] {s : CronScheduler} (h : s.Sane) {schedules : List Schedule}
    (hactive : ∀ schedule ∈ schedules, schedule.isActive = true) :
    (s.loadSchedules schedules).Sane := by
  induction schedules generalizing s with
  | nil => exact h
  | cons first rest ih =>
    obtain ⟨hfirst, hrest⟩ := forall_mem_cons.mp hactive
    exact ih (h.addIfLeader hfirst _).1 hrest

theorem Sane.step [Parsers] {s : CronScheduler} (h : s.Sane) (c : Call) : (s.step c).Sane := by
  rcases h.outcome_step c with heq | ⟨hsane, -⟩
  · rw [heq]
    exact h
  · exact hsane

end CronScheduler

/-! ## What a step changes -/

/-- What `checkMisfires` acts on: the run was missed, and the policy is to run once or to skip. -/
def Schedule.Handled (now : ℤ) (s : Schedule) : Prop :=
  s.misfired now = true ∧ (s.misfirePolicy = .runOnce ∨ s.misfirePolicy = .skip)

def Job.Unpublished (job : Job) : Prop := job.stage = .record ∨ job.stage = .publish

namespace World

open CronScheduler (Active Keyed)

/-- The schedules that are saved back sooner or later: those of the jobs, and the missed ones that a
misfire check has still to handle. -/
def Holds (w : World) (s : Schedule) : Prop :=
  (∃ job ∈ w.jobs, job.schedule = s) ∨
    ∃ check ∈ w.checks, s ∈ check.remaining ∧ s.Handled check.now

/-- An event of the schedule is to come: of a job, or of a misfire that is to be run. -/
def Pending (w : World) (id : String) : Prop :=
  (∃ job ∈ w.jobs, job.Unpublished ∧ job.schedule.id = id) ∨
    ∃ check ∈ w.checks, ∃ s ∈ check.remaining,
      s.misfired check.now = true ∧ s.misfirePolicy = .runOnce ∧ s.id = id

/-- What a step does to the scheduler and the repository. -/
inductive Effect [Parsers] (w : World) : Action → CronScheduler → Prop
  | none {a : Action} : Effect w a w.cron
  | wroteBack {a : Action} {fault : Option String} {held s stored : Schedule} {rows : Rows}
      (hheld : w.Holds held) (hid : s.id = held.id) (hactive : s.isActive = held.isActive)
      (hsave : w.cron.rows.save fault s = .ok (rows, stored)) : Effect w a { w.cron with rows }
  | pauseSaved {p : ℕ} {fault : Option String} {pause : Pause} {stored : Schedule} {rows : Rows}
      (hp : w.pauses[p]? = some pause) (hsaved : pause.saved = false)
      (hsave : w.cron.rows.save fault { pause.schedule with isActive := false } =
        .ok (rows, stored)) : Effect w (.pauseNext p fault) { w.cron with rows }
  | pauseRemoved {p : ℕ} {fault : Option String} {pause : Pause}
      (hp : w.pauses[p]? = some pause) (hsaved : pause.saved = true) :
      Effect w (.pauseNext p fault) (w.cron.removeFromCron pause.schedule.id)
  | called {c : Call} : Effect w (.call c) (w.cron.step c)
  | created {fault : Option String} {s stored : Schedule} {rows : Rows}
      (hcreate : w.cron.rows.create fault s = .ok (rows, stored)) :
      Effect w (.edit fault (.create s)) { w.cron with rows }
  | saved {fault : Option String} {s stored : Schedule} {rows : Rows}
      (hsave : w.cron.rows.save fault s = .ok (rows, stored)) :
      Effect w (.edit fault (.save s)) { w.cron with rows }
  | deleted {scheduleID : String} : Effect w (.edit Option.none (.delete scheduleID))
      { w.cron with rows := w.cron.rows.erase scheduleID }

theorem save_cases (w : World) (fault : Option String) (s : Schedule) :
    w.save fault s = w ∨ ∃ rows stored, w.cron.rows.save fault s = .ok (rows, stored) ∧
      w.save fault s = { w with cron := { w.cron with rows } } := by
  rw [save]
  split
  · exact .inl rfl
  · rename_i rows stored hsave
    exact .inr ⟨rows, stored, hsave, rfl⟩

theorem checks_misfireStep [Parsers] (w : World) (fault : Option String) (checkNow now next : ℤ)
    (s : Schedule) : (w.misfireStep checkNow now next fault s).checks = w.checks := by
  rw [misfireStep]
  split_ifs
  · split
    · rfl
    · rcases w.save_cases fault (s.skipped next) with heq | ⟨_, _, -, heq⟩ <;> rw [heq]
    · rfl
  · rfl

/-- The action makes up for a missed run of the schedule. -/
def MakesUp (w : World) (a : Action) (now : ℤ) (s : Schedule) : Prop :=
  ∃ c next fault check remaining, a = .misfire c now next fault ∧ w.checks[c]? = some check ∧
    check.remaining = s :: remaining ∧ s.misfired check.now = true ∧ s.misfirePolicy = .runOnce

/-- A job was there, with its event to come if it has one; an entry has fired; or a missed run is
made up for. -/
def JobFrom (w : World) (a : Action) (job : Job) : Prop :=
  (∃ old ∈ w.jobs, job.schedule = old.schedule ∧ job.triggeredAt = old.triggeredAt ∧
      (job.Unpublished → old.Unpublished)) ∨
    (∃ k e, a = .fire k job.triggeredAt ∧ w.cron.entries[k]? = some e ∧
      job.schedule = e.schedule) ∨
    w.MakesUp a job.triggeredAt job.schedule

/-- Everything a step can do. A schedule that a misfire check has to look at was there before or was
read, and active; a `PauseSchedule` that has saved stays until it removes the entry. -/
structure Changes [Parsers] (w : World) (a : Action) (w' : World) : Prop where
  cron : w.Effect a w'.cron
  jobs : ∀ job ∈ w'.jobs, w.JobFrom a job
  remaining : ∀ check ∈ w'.checks, ∀ s ∈ check.remaining,
    (∃ old ∈ w.checks, old.now = check.now ∧ s ∈ old.remaining) ∨
      (∃ ρ now fault, a = .check ρ now fault) ∧ s.isActive = true ∧
        ∃ k, w.cron.rows.lookup k = some s
  pauses : ∀ pause ∈ w.pauses, pause.saved = true →
    pause ∈ w'.pauses ∨ w'.cron = w.cron.removeFromCron pause.schedule.id

variable [Parsers] {a : Action} {w : World} {s : CronScheduler}

omit [Parsers] in
theorem MakesUp.holds {now : ℤ} {s : Schedule} (h : w.MakesUp a now s) :
    ∃ check ∈ w.checks, s ∈ check.remaining ∧ s.misfired check.now = true ∧
      s.misfirePolicy = .runOnce := by
  obtain ⟨c, next, fault, check, remaining, -, hc, hs, hmissed⟩ := h
  exact ⟨check, mem_of_getElem? hc, hs ▸ mem_cons_self, hmissed⟩

theorem changes_cron (h : w.Effect a s) : w.Changes a { w with cron := s } where
  cron := h
  jobs job hjob := .inl ⟨job, hjob, rfl, rfl, id⟩
  remaining check hcheck _ hs := .inl ⟨check, hcheck, rfl, hs⟩
  pauses _ hpause _ := .inl hpause

theorem Changes.refl : w.Changes a w := changes_cron .none

theorem Changes.save {v : World} {held s : Schedule} (h : w.Changes a v) (hcron : v.cron = w.cron)
    (hpauses : v.pauses = w.pauses) (hheld : w.Holds held) (hid : s.id = held.id)
    (hactive : s.isActive = held.isActive) (fault : Option String) :
    w.Changes a (v.save fault s) := by
  rcases v.save_cases fault s with heq | ⟨rows, stored, hsave, heq⟩
  · rw [heq]
    exact h
  rw [heq]
  refine { h with cron := ?_, pauses := fun pause hpause _ => .inl (hpauses ▸ hpause) }
  rw [hcron] at hsave ⊢
  exact .wroteBack hheld hid hactive hsave

/-- A job goes on, and only from its first stage to one that has the event before it. -/
theorem Changes.setJob {i : ℕ} {job : Job} (hjob : w.jobs[i]? = some job) {stage : Stage}
    (hstage : { job with stage }.Unpublished → job.Unpublished) :
    w.Changes a { w with jobs := w.jobs.set i { job with stage } } := by
  refine { (Changes.refl : w.Changes a w) with jobs := fun new hnew => ?_ }
  rcases mem_or_eq_of_mem_set hnew with hold | rfl
  · exact Changes.refl.jobs new hold
  · exact .inl ⟨job, mem_of_getElem? hjob, rfl, rfl, hstage⟩

theorem Changes.addJob {job : Job} (h : w.JobFrom a job) :
    w.Changes a { w with jobs := w.jobs ++ [job] } := by
  refine { (Changes.refl : w.Changes a w) with jobs := fun new hnew => ?_ }
  rcases mem_append.mp hnew with hold | hnew
  · exact Changes.refl.jobs new hold
  · rw [mem_singleton.mp hnew]
    exact h

theorem changes_jobStep {i : ℕ} {job : Job} (hjob : w.jobs[i]? = some job) (next : ℤ)
    (fault : Option String) : w.Changes a (w.jobStep i job next fault) := by
  rw [jobStep]
  split
  · rename_i hstage
    exact .setJob hjob (fun _ => .inl hstage)
  · exact .setJob hjob (by simp [Job.Unpublished])
  · exact .setJob hjob (by simp [Job.Unpublished])
  have herase : w.Changes a { w with jobs := w.jobs.eraseIdx i } :=
    { (Changes.refl : w.Changes a w) with
      jobs := fun job hjob => Changes.refl.jobs job (mem_of_mem_eraseIdx hjob) }
  exact herase.save (s := job.ran _) rfl rfl (.inl ⟨job, mem_of_getElem? hjob, rfl⟩) rfl rfl
    fault

/-- A misfire check starts a job, saves a schedule or passes over it. -/
theorem changes_misfireStep {c : ℕ} {check : MisfireCheck} {s : Schedule}
    {remaining : List Schedule} (hc : w.checks[c]? = some check)
    (hs : check.remaining = s :: remaining) (now next : ℤ) (fault : Option String) :
    w.Changes (.misfire c now next fault)
      ({ w with checks := w.checks.set c { check with remaining } }.misfireStep
        check.now now next fault s) := by
  have hcheck := mem_of_getElem? hc
  have hmem : s ∈ check.remaining := hs ▸ mem_cons_self
  have hremaining : ∀ new ∈ w.checks.set c { check with remaining }, ∀ s ∈ new.remaining,
      ∃ old ∈ w.checks, old.now = new.now ∧ s ∈ old.remaining := by
    intro new hnew s hs'
    rcases mem_or_eq_of_mem_set hnew with hold | rfl
    · exact ⟨new, hold, rfl, hs'⟩
    · exact ⟨check, hcheck, rfl, hs ▸ mem_cons_of_mem _ hs'⟩
  have hset : w.Changes (.misfire c now next fault)
      { w with checks := w.checks.set c { check with remaining } } :=
    { (Changes.refl : w.Changes (.misfire c now next fault) w) with
      remaining := fun new hnew s hs => .inl (hremaining new hnew s hs) }
  rw [misfireStep]
  split_ifs with hmissed
  · split
    · rename_i hpolicy
      have hjob : w.JobFrom (.misfire c now next fault) { schedule := s, triggeredAt := now } :=
        .inr (.inr ⟨c, next, fault, check, remaining, rfl, hc, hs, hmissed, hpolicy⟩)
      exact { hset with jobs := (Changes.addJob hjob).jobs }
    · rename_i hpolicy
      exact hset.save (s := s.skipped next) rfl rfl
        (.inr ⟨check, hcheck, hmem, hmissed, .inr hpolicy⟩) rfl rfl fault
    · exact hset
  · exact hset

theorem changes_pauseStep {p : ℕ} {pause : Pause} (hp : w.pauses[p]? = some pause)
    (fault : Option String) : w.Changes (.pauseNext p fault) (w.pauseStep p pause fault) := by
  -- the others are not touched, and a pause that has saved its schedule removes the entry
  have hpauses : ∀ {w' : World}, (∀ i, i ≠ p → ∀ other, w.pauses[i]? = some other →
      other ∈ w'.pauses) → (pause.saved = true →
        w'.cron = w.cron.removeFromCron pause.schedule.id) →
      ∀ other ∈ w.pauses, other.saved = true →
        other ∈ w'.pauses ∨ w'.cron = w.cron.removeFromCron other.schedule.id := by
    intro w' hothers hself other hmem hsaved
    obtain ⟨i, hi⟩ := mem_iff_getElem?.mp hmem
    by_cases hip : i = p
    · subst hip
      obtain rfl : pause = other := Option.some.inj (hp.symm.trans hi)
      exact .inr (hself hsaved)
    · exact .inl (hothers i hip other hi)
  have herase : ∀ i, i ≠ p → ∀ other, w.pauses[i]? = some other → other ∈ w.pauses.eraseIdx p :=
    fun i hip other hi => mem_eraseIdx_iff_getElem?.mpr ⟨i, hip, hi⟩
  rw [pauseStep]
  split_ifs with hsaved
  · exact { (Changes.refl : w.Changes (.pauseNext p fault) w) with
      cron := .pauseRemoved hp hsaved, pauses := hpauses herase (fun _ => rfl) }
  split
  · exact { (Changes.refl : w.Changes (.pauseNext p fault) w) with
      pauses := hpauses herase (fun h => absurd h hsaved) }
  rename_i rows stored hsave
  refine { (Changes.refl : w.Changes (.pauseNext p fault) w) with
    cron := .pauseSaved hp (by simpa using hsaved) hsave
    pauses := hpauses (fun i hip other hi => ?_) (fun h => absurd h hsaved) }
  exact mem_of_getElem? ((getElem?_set_ne (Ne.symm hip)).trans hi)

theorem changes_editStep (fault : Option String) (e : Edit) :
    w.Changes (.edit fault e) (w.editStep fault e) := by
  cases e with
  | create s =>
    rw [editStep]
    split
    · exact .refl
    · rename_i rows stored hcreate
      exact changes_cron (.created hcreate)
  | save s =>
    rw [editStep]
    rcases w.save_cases fault s with heq | ⟨rows, stored, hsave, heq⟩
    · rw [heq]
      exact .refl
    · rw [heq]
      exact changes_cron (.saved hsave)
  | delete scheduleID =>
    cases fault with
    | some err => exact .refl
    | none => exact changes_cron .deleted

/-- The one case analysis of the steps; the invariants below follow from it. -/
theorem changes_step (w : World) (a : Action) : w.Changes a (w.step a) := by
  cases a with
  | fire k now =>
    rw [step]
    split
    · exact .refl
    · rename_i e he
      exact .addJob (.inr (.inl ⟨k, e, rfl, he, rfl⟩))
  | job i now next fault =>
    rw [step]
    split
    · exact .refl
    · rename_i job hjob
      exact changes_jobStep hjob next fault
  | check ρ now fault =>
    cases fault with
    | some err => exact .refl
    | none =>
      rw [step]
      split_ifs
      · refine { (Changes.refl : w.Changes (.check ρ now none) w) with
          remaining := fun check hcheck s hs => ?_ }
        rcases mem_append.mp hcheck with hold | hnew
        · exact Changes.refl.remaining check hold s hs
        rw [mem_singleton.mp hnew] at hs
        obtain ⟨hread, hactive⟩ := mem_filter.mp hs
        obtain ⟨row, hrow, rfl⟩ := mem_map.mp hread
        exact .inr ⟨⟨ρ, now, none, rfl⟩, hactive, row.1,
          AList.mem_lookup_iff.mpr ((RangeOrder.mem_run ρ _ _ _).mp hrow)⟩
      · exact .refl
  | misfire c now next fault =>
    rw [step]
    split
    · exact .refl
    rename_i check hcheck
    split
    · exact { (Changes.refl : w.Changes (.misfire c now next fault) w) with
        remaining := fun check hcheck => Changes.refl.remaining check
          (mem_of_mem_eraseIdx hcheck) }
    · rename_i s remaining hremaining
      exact changes_misfireStep hcheck hremaining now next fault
  | pause fault scheduleID =>
    rw [step]
    split
    · exact .refl
    · exact { (Changes.refl : w.Changes (.pause fault scheduleID) w) with
        pauses := fun pause hpause _ => .inl (mem_append_left _ hpause) }
  | pauseNext p fault =>
    rw [step]
    split
    · exact .refl
    · rename_i pause hp
      exact changes_pauseStep hp fault
  | call c => exact changes_cron .called
  | edit fault e => exact changes_editStep fault e

theorem cron_fire (w : World) (k : ℕ) (now : ℤ) : (w.step (.fire k now)).cron = w.cron := by
  rw [step]
  split <;> rfl

theorem MakesUp.cron_step {now : ℤ} {s : Schedule} (h : w.MakesUp a now s) :
    (w.step a).cron = w.cron := by
  obtain ⟨c, next, fault, check, remaining, rfl, hc, hs, hmissed, hpolicy⟩ := h
  simp only [step, hc, hs, misfireStep, if_pos hmissed, hpolicy]

theorem cron_check (w : World) (ρ : RangeOrder) (now : ℤ) (fault : Option String) :
    (w.step (.check ρ now fault)).cron = w.cron := by
  cases fault with
  | some err => rfl
  | none =>
    rw [step]
    split_ifs <;> rfl

/-! ## What every step keeps -/

/-- Every job and every misfire check holds schedules that were active. -/
structure Sane (w : World) : Prop where
  cron : w.cron.Sane
  jobs : ∀ job ∈ w.jobs, job.schedule.isActive = true
  remaining : ∀ check ∈ w.checks, ∀ s ∈ check.remaining, s.isActive = true

omit [Parsers] in
theorem sane_start (h : s.Sane) : Sane { cron := s } :=
  ⟨h, by simp, by simp⟩

omit [Parsers] in
theorem Sane.of_holds (h : w.Sane) {s : Schedule} (hs : w.Holds s) : s.isActive = true := by
  rcases hs with ⟨job, hjob, rfl⟩ | ⟨check, hcheck, hs, -⟩
  · exact h.jobs job hjob
  · exact h.remaining check hcheck s hs

/-- Every effect keeps the entries registered, with schedules held as active. -/
theorem Sane.effect (h : w.Sane) (heffect : w.Effect a s) : s.Sane := by
  cases heffect with
  | none => exact h.cron
  | wroteBack _ _ _ hsave => exact h.cron.withRows (h.cron.keyed.save hsave)
  | pauseSaved _ _ hsave => exact h.cron.withRows (h.cron.keyed.save hsave)
  | pauseRemoved _ _ => exact h.cron.removeFromCron _
  | called => exact h.cron.step _
  | created hcreate =>
    obtain ⟨-, hstored, hrows⟩ := CronScheduler.create_eq_ok hcreate
    refine h.cron.withRows ?_
    rw [hrows, hstored]
    exact h.cron.keyed.insert rfl
  | saved hsave => exact h.cron.withRows (h.cron.keyed.save hsave)
  | deleted => exact h.cron.withRows (h.cron.keyed.erase _)

theorem Sane.step (h : w.Sane) (a : Action) : (w.step a).Sane := by
  refine ⟨h.effect (w.changes_step a).cron, ?_, ?_⟩
  · intro job hjob
    rcases (w.changes_step a).jobs job hjob with ⟨old, hold, heq, -⟩ | ⟨k, e, -, he, heq⟩ | hmakes
    · rw [heq]
      exact h.jobs old hold
    · rw [heq]
      exact h.cron.held e (mem_of_getElem? he)
    · obtain ⟨check, hcheck, hs, -⟩ := hmakes.holds
      exact h.remaining check hcheck _ hs
  · intro check hcheck s hs
    rcases (w.changes_step a).remaining check hcheck s hs with ⟨old, hold, -, hs⟩ | ⟨-, hactive, -⟩
    · exact h.remaining old hold s hs
    · exact hactive

theorem Sane.run (h : w.Sane) (as : List Action) : (w.run as).Sane := by
  induction as generalizing w with
  | nil => exact h
  | cons a as ih => exact ih (h.step a)

omit [Parsers] in
theorem Sane.active_of_lookup (h : w.Sane) {k : String} {s : Schedule}
    (hk : w.cron.rows.lookup k = some s) (hactive : s.isActive = true) :
    Active w.cron.rows s.id := by
  rw [h.cron.keyed k s hk]
  exact ⟨s, hk, hactive⟩

/-- What is to be saved back was so before, fired, or was read as active. -/
theorem Sane.holds_step (h : w.Sane) {s : Schedule} (hs : (w.step a).Holds s) :
    w.Holds s ∨ (∃ e ∈ w.cron.entries, e.schedule = s) ∨ Active w.cron.rows s.id := by
  rcases hs with ⟨job, hjob, rfl⟩ | ⟨check, hcheck, hs, hhandled⟩
  · rcases (w.changes_step a).jobs job hjob with ⟨old, hold, heq, -⟩ | ⟨k, e, -, he, heq⟩ | hmakes
    · exact .inl (.inl ⟨old, hold, heq.symm⟩)
    · exact .inr (.inl ⟨e, mem_of_getElem? he, heq.symm⟩)
    · obtain ⟨check, hcheck, hs, hmissed, hpolicy⟩ := hmakes.holds
      exact .inl (.inr ⟨check, hcheck, hs, hmissed, .inl hpolicy⟩)
  · rcases (w.changes_step a).remaining check hcheck s hs with
      ⟨old, hold, hnow, hs⟩ | ⟨-, hactive, k, hk⟩
    · exact .inl (.inr ⟨old, hold, hs, hnow ▸ hhandled⟩)
    · exact .inr (.inr (h.active_of_lookup hk hactive))

/-- An event to come was so before, fired, or belongs to an active schedule. -/
theorem Sane.pending_step (h : w.Sane) {id : String} (hid : (w.step a).Pending id) : w.Pending id ∨
      (∃ k now e, a = .fire k now ∧ w.cron.entries[k]? = some e ∧ e.schedule.id = id) ∨
      (w.step a).cron = w.cron ∧ Active w.cron.rows id := by
  rcases hid with ⟨job, hjob, hun, rfl⟩ | ⟨check, hcheck, s, hs, hmissed, hpolicy, rfl⟩
  · rcases (w.changes_step a).jobs job hjob with ⟨old, hold, heq, -, himp⟩ | ⟨k, e, ha, he, heq⟩ |
      hmakes
    · exact .inl (.inl ⟨old, hold, himp hun, by rw [heq]⟩)
    · exact .inr (.inl ⟨k, job.triggeredAt, e, ha, he, by rw [heq]⟩)
    · obtain ⟨check, hcheck, hs, hmissed, hpolicy⟩ := hmakes.holds
      exact .inl (.inr ⟨check, hcheck, _, hs, hmissed, hpolicy, rfl⟩)
  · rcases (w.changes_step a).remaining check hcheck s hs with
      ⟨old, hold, hnow, hs⟩ | ⟨⟨ρ, now, fault, rfl⟩, hactive, k, hk⟩
    · exact .inl (.inr ⟨old, hold, s, hs, hnow ▸ hmissed, hpolicy, rfl⟩)
    · exact .inr (.inr ⟨w.cron_check ρ now fault, h.active_of_lookup hk hactive⟩)

/-- A new entry belongs to an active schedule. -/
theorem Sane.mem_entries (h : w.Sane) (heffect : w.Effect a s) {e : Entry} (he : e ∈ s.entries) :
    e ∈ w.cron.entries ∨ Active s.rows e.schedule.id := by
  cases heffect with
  | called =>
    rename_i c
    rcases h.cron.outcome_step c with heq | ⟨-, honly⟩
    · rw [heq] at he
      exact .inl he
    rcases honly.entries e he with ⟨hold, -⟩ | ⟨hid, hactive⟩
    · exact .inl hold
    · rw [hid]
      exact .inr hactive
  | pauseRemoved _ _ => exact .inl ((w.cron.sublist_removeExisting _).subset he)
  | none => exact .inl he
  | wroteBack _ _ _ _ => exact .inl he
  | pauseSaved _ _ _ => exact .inl he
  | created _ => exact .inl he
  | saved _ => exact .inl he
  | deleted => exact .inl he

end World

end LinkFlow.Cron
