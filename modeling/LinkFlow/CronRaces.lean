/-
When the event of a firing is published, and how long a pause lasts
(`internal/schedule/app/scheduler/cron.go`).

`Run` publishes without a look at the stored schedule. Over runs in which no schedule is
deactivated while an event of it is to come, the stored schedule is active at every event, and
whether it should run is a matter of its dates alone; they allow it if entries fire and missed runs
are made up for within the dates, and these still allow it when the event follows
(`published_iff_within_dates`). A pause
lasts exactly if nothing that holds the schedule as it was before is left when `PauseSchedule`
returns (`stays_inactive_iff`).
-/
import LinkFlow.CronWorld

set_option autoImplicit false

namespace LinkFlow.Cron

open List

open CronScheduler (Active hourly)

/-! ## Events -/

/-- The dates of the schedule allow a run. -/
def Schedule.Within (now : ℤ) (s : Schedule) : Prop :=
  s.isExpired now = false ∧ s.startDate.any (fun startDate => now < startDate) = false

instance (now : ℤ) (s : Schedule) : Decidable (s.Within now) :=
  inferInstanceAs (Decidable (_ ∧ _))

theorem Schedule.Within.of_dates {now : ℤ} {s s' : Schedule} (h : s.Within now)
    (hdates : s'.startDate = s.startDate ∧ s'.endDate = s.endDate) : s'.Within now := by
  rw [Within, isExpired, hdates.1, hdates.2]
  exact h

theorem Schedule.Within.later {now later : ℤ} {s : Schedule} (h : s.Within now)
    (hle : now ≤ later) (hend : s.isExpired later = s.isExpired now) : s.Within later := by
  refine ⟨hend.trans h.1, ?_⟩
  have hstart := h.2
  rw [Option.any_eq_false] at hstart ⊢
  intro startDate hdate
  have hnot := of_decide_eq_false (hstart startDate hdate)
  exact decide_eq_false (fun hlt => hnot (hle.trans_lt hlt))

namespace World

/-- A `PauseSchedule` has saved the schedule, and not removed its entry yet. -/
def Pausing (w : World) (id : String) : Prop :=
  ∃ pause ∈ w.pauses, pause.saved = true ∧ pause.schedule.id = id

/-- An event is published only if the stored schedule should run. -/
def PublishesDue (w : World) (a : Action) : Prop :=
  ∀ event ∈ w.publishes a, ∃ s ∈ w.cron.rows.lookup event.1, s.shouldRun event.2 = true

def PublishesWithinDates (w : World) (a : Action) : Prop :=
  ∀ event ∈ w.publishes a, ∀ s ∈ w.cron.rows.lookup event.1, s.Within event.2

instance (w : World) (a : Action) : Decidable (w.PublishesDue a) :=
  inferInstanceAs (Decidable (∀ event ∈ w.publishes a, _))

instance (w : World) (a : Action) : Decidable (w.PublishesWithinDates a) :=
  inferInstanceAs (Decidable (∀ event ∈ w.publishes a, _))

def Deactivates [Parsers] (w : World) (a : Action) (id : String) : Prop :=
  Active w.cron.rows id ∧ ¬ Active (w.step a).cron.rows id

/-- An orderly step: no schedule is deactivated while an event of it is to come, none with an entry
without the scheduler, and no entry fires whose schedule a `PauseSchedule` has saved. -/
structure Orderly [Parsers] (w : World) (a : Action) : Prop where
  settled : ∀ id, w.Deactivates a id → ¬ w.Pending id
  through : ∀ fault edit, a = .edit fault edit →
    ∀ e ∈ w.cron.entries, ¬ w.Deactivates a e.schedule.id
  idle : ∀ k now e, a = .fire k now → w.cron.entries[k]? = some e → ¬ w.Pausing e.schedule.id

/-- Every entry belongs to an active schedule or to one about to lose it, and every event to come to
an active one. -/
structure Guarded (w : World) : Prop where
  sane : w.Sane
  entries : ∀ e ∈ w.cron.entries, Active w.cron.rows e.schedule.id ∨ w.Pausing e.schedule.id
  pending : ∀ id, w.Pending id → Active w.cron.rows id

variable {w : World} {a : Action}

theorem pausing_of_save [Parsers] {p : ℕ} {fault : Option String} {pause : Pause} {rows : Rows}
    {stored : Schedule} (hp : w.pauses[p]? = some pause) (hsaved : pause.saved = false)
    (hsave : w.cron.rows.save fault { pause.schedule with isActive := false } =
      .ok (rows, stored)) : (w.step (.pauseNext p fault)).Pausing pause.schedule.id := by
  have hlt := (List.getElem?_eq_some_iff.mp hp).1
  have hpauses : (w.step (.pauseNext p fault)).pauses =
      w.pauses.set p { pause with saved := true } := by
    simp only [step, hp, pauseStep, hsaved, Bool.false_eq_true, if_false, hsave]
  refine ⟨{ pause with saved := true }, ?_, rfl, rfl⟩
  rw [hpauses]
  exact mem_set hlt _

/-- A schedule is deactivated by the save of a `PauseSchedule`, without the scheduler, or by a call
that removes its entries too. -/
theorem Sane.of_deactivates [Parsers] (h : w.Sane) {id : String} (hid : w.Deactivates a id) :
    (w.step a).Pausing id ∨ (∃ fault edit, a = .edit fault edit) ∨
      ∀ e ∈ (w.step a).cron.entries, e.schedule.id ≠ id := by
  obtain ⟨hbefore, hafter⟩ := hid
  have heffect := (w.changes_step a).cron
  have hpausing : ∀ p fault pause rows stored, a = .pauseNext p fault →
      w.pauses[p]? = some pause → pause.saved = false →
      w.cron.rows.save fault { pause.schedule with isActive := false } = .ok (rows, stored) →
      (w.step a).Pausing pause.schedule.id := by
    rintro p fault pause rows stored rfl hp hsaved hsave
    exact pausing_of_save hp hsaved hsave
  generalize (w.step a).cron = s at hafter heffect ⊢
  cases heffect with
  | none => exact absurd hbefore hafter
  | wroteBack hheld hheldID hactive hsave =>
    refine absurd ?_ hafter
    rw [CronScheduler.active_save hsave]
    split_ifs
    · exact CronScheduler.save_isActive hsave (hactive.trans (h.of_holds hheld))
    · exact hbefore
  | pauseSaved hp hsaved hsave =>
    left
    rw [CronScheduler.active_save hsave] at hafter
    split_ifs at hafter with hsame
    · rw [hsame]
      exact hpausing _ _ _ _ _ rfl hp hsaved hsave
    · exact absurd hbefore hafter
  | pauseRemoved _ _ =>
    rw [CronScheduler.removeFromCron, CronScheduler.rows_removeExisting] at hafter
    exact absurd hbefore hafter
  | called =>
    rename_i c
    rcases h.cron.outcome_step c with heq | ⟨-, honly⟩
    · rw [heq] at hafter
      exact absurd hbefore hafter
    right; right
    intro e he heid
    rcases honly.entries e he with ⟨-, hne⟩ | ⟨hc, hactive⟩
    · refine hafter ?_
      rw [heid] at hne
      rwa [Active, honly.rows id hne]
    · rw [← hc, heid] at hactive
      exact hafter hactive
  | created _ => exact .inr (.inl ⟨_, _, rfl⟩)
  | saved _ => exact .inr (.inl ⟨_, _, rfl⟩)
  | deleted => exact .inr (.inl ⟨_, _, rfl⟩)

/-- Orderly steps keep entries and pending events with active schedules. -/
theorem Guarded.step [Parsers] (h : w.Guarded) (ha : w.Orderly a) : (w.step a).Guarded := by
  refine ⟨h.sane.step a, ?_, ?_⟩
  · intro e he
    by_cases hactive : Active (w.step a).cron.rows e.schedule.id
    · exact .inl hactive
    -- the entry was there before, since a new one belongs to an active schedule
    · right
      have hold := (h.sane.mem_entries (w.changes_step a).cron he).resolve_right hactive
      rcases h.entries e hold with hbefore | ⟨pause, hmem, hsaved, hid⟩
      · rcases h.sane.of_deactivates ⟨hbefore, hactive⟩ with hpausing | ⟨fault, edit, rfl⟩ | hnone
        · exact hpausing
        · exact absurd ⟨hbefore, hactive⟩ (ha.through fault edit rfl e hold)
        · exact absurd rfl (hnone e he)
      · rcases (w.changes_step a).pauses pause hmem hsaved with hmem | hremoved
        · exact ⟨pause, hmem, hsaved, hid⟩
        · rw [hremoved] at he
          exact absurd hid.symm
            (CronScheduler.ne_of_mem_removeExisting h.sane.cron.registered he)
  · intro id hpending
    rcases h.sane.pending_step hpending with hold | ⟨k, now, e, rfl, he, rfl⟩ | ⟨hcron, hactive⟩
    -- to come before the step as well, so that the step may not deactivate the schedule
    · by_contra hafter
      exact ha.settled id ⟨h.pending id hold, hafter⟩ hold
    · rw [cron_fire]
      exact (h.entries e (mem_of_getElem? he)).resolve_right (ha.idle k now e rfl he)
    · rw [hcron]
      exact hactive

theorem pending_of_publishes {id : String} {now : ℤ} (h : w.publishes a = some (id, now)) :
    w.Pending id := by
  cases a with
  | job i now' next fault =>
    rw [publishes] at h
    split at h
    · rename_i hjob
      obtain ⟨rfl, -⟩ := Prod.mk.inj (Option.some.inj h)
      exact .inl ⟨_, mem_of_getElem? hjob, .inr rfl, rfl⟩
    · cases h
  | _ => cases h

theorem shouldRun_iff (s : Schedule) (now : ℤ) (hactive : s.isActive = true) :
    s.shouldRun now = true ↔ s.Within now := by
  simp [Schedule.shouldRun, Schedule.Within, hactive]

/-- For an active schedule only the dates decide whether it should run. -/
theorem Guarded.publishes_iff (h : w.Guarded) (a : Action) :
    w.PublishesDue a ↔ w.PublishesWithinDates a := by
  constructor
  · intro hdue event hevent s hs
    obtain ⟨stored, hstored, hrun⟩ := hdue event hevent
    obtain ⟨active, hlookup, hactive⟩ := h.pending event.1 (pending_of_publishes hevent)
    obtain rfl := Option.mem_unique hstored hs
    obtain rfl := Option.mem_unique hlookup hs
    exact (shouldRun_iff _ event.2 hactive).mp hrun
  · intro hdates event hevent
    obtain ⟨s, hs, hactive⟩ := h.pending event.1 (pending_of_publishes hevent)
    exact ⟨s, hs, (shouldRun_iff s event.2 hactive).mpr (hdates event hevent s hs)⟩

/-- A step in time: an entry fires, and a missed run is made up for, within the dates of the stored
schedule; a job does not publish before it fired, and the end date does not pass in between; and the
dates of a schedule stay as they are while a job of it has not published. -/
structure InTime [Parsers] (w : World) (a : Action) : Prop where
  fires : ∀ k now e, a = .fire k now → w.cron.entries[k]? = some e →
    ∀ s ∈ w.cron.rows.lookup e.schedule.id, s.Within now
  misfires : ∀ now missed, w.MakesUp a now missed →
    ∀ s ∈ w.cron.rows.lookup missed.id, s.Within now
  follows : ∀ i now next fault job, a = .job i now next fault → w.jobs[i]? = some job →
    job.stage = .publish → job.triggeredAt ≤ now ∧
      ∀ s ∈ w.cron.rows.lookup job.schedule.id, s.isExpired now = s.isExpired job.triggeredAt
  keeps : ∀ job ∈ w.jobs, job.Unpublished → ∀ s ∈ w.cron.rows.lookup job.schedule.id,
    ∀ s' ∈ (w.step a).cron.rows.lookup job.schedule.id,
      s'.startDate = s.startDate ∧ s'.endDate = s.endDate

/-- Every job that has not published fired within the dates of the stored schedule. -/
def Dated (w : World) : Prop :=
  ∀ job ∈ w.jobs, job.Unpublished →
    ∀ s ∈ w.cron.rows.lookup job.schedule.id, s.Within job.triggeredAt

/-- A job that has not published fired within dates that have not changed since. -/
theorem Dated.step [Parsers] (h : w.Dated) (hguarded : w.Guarded) (ha : w.InTime a) :
    (w.step a).Dated := by
  intro job hjob hun s hs
  rcases (w.changes_step a).jobs job hjob with ⟨old, hold, heq, hat, himp⟩ |
    ⟨k, e, rfl, he, heq⟩ | hmakes
  · rw [heq] at hs
    -- its event is to come, so there is a stored schedule before the step
    obtain ⟨before, hbefore, -⟩ :=
      hguarded.pending old.schedule.id (.inl ⟨old, hold, himp hun, rfl⟩)
    rw [hat]
    exact (h old hold (himp hun) before hbefore).of_dates
      (ha.keeps old hold (himp hun) before hbefore s hs)
  · rw [cron_fire, heq] at hs
    exact ha.fires k _ e rfl he s hs
  · rw [hmakes.cron_step] at hs
    exact ha.misfires _ _ hmakes s hs

/-- The dates that allowed the firing still allow the event. -/
theorem Dated.publishes [Parsers] (h : w.Dated) (ha : w.InTime a) :
    w.PublishesWithinDates a := by
  rintro ⟨id, now⟩ hevent s hs
  cases a with
  | job i now' next fault =>
    rw [Option.mem_def, World.publishes] at hevent
    split at hevent
    · rename_i schedule triggeredAt hjob
      obtain ⟨rfl, rfl⟩ := Prod.mk.inj (Option.some.inj hevent)
      obtain ⟨hle, hend⟩ := ha.follows i _ next fault _ rfl hjob rfl
      exact (h _ (mem_of_getElem? hjob) (.inr rfl) s hs).later hle (hend s hs)
    · cases hevent
  | _ => cases hevent

/-- Over orderly runs whose steps are in time, events are published only within the dates of the
stored schedule. -/
theorem within_of_inTime [Parsers] {as : List Action} (hguarded : w.Guarded) (hdated : w.Dated)
    (horderly : Runs.Along step Orderly w as) (htime : Runs.Along step InTime w as) :
    Runs.Along step PublishesWithinDates w as := by
  induction as generalizing w with
  | nil => exact trivial
  | cons a as ih =>
    exact ⟨hdated.publishes htime.1,
      ih (hguarded.step horderly.1) (hdated.step hguarded htime.1) horderly.2 htime.2⟩

/-- **Events and the stored schedule.** Over every orderly run from entries of active schedules,
events are published only when the stored schedule should run, exactly if only within its dates;
and so they are if every step is in time. -/
theorem published_iff_within_dates [Parsers] {s : CronScheduler} (h : s.Sane)
    (hactive : ∀ e ∈ s.entries, Active s.rows e.schedule.id) (as : List Action)
    (horderly : Runs.Along step Orderly { cron := s } as) :
    (Runs.Along step PublishesDue { cron := s } as ↔
        Runs.Along step PublishesWithinDates { cron := s } as) ∧
      (Runs.Along step InTime { cron := s } as →
        Runs.Along step PublishesDue { cron := s } as) := by
  have hstart : Guarded { cron := s } := by
    refine ⟨sane_start h, fun e he => .inl (hactive e he), ?_⟩
    rintro id (⟨job, hjob, -⟩ | ⟨check, hcheck, -⟩)
    · cases hjob
    · cases hcheck
  have hiff : Runs.Along step PublishesDue { cron := s } as ↔
      Runs.Along step PublishesWithinDates { cron := s } as :=
    Runs.along_congr (P := Guarded) (fun w a hw ha => hw.step ha)
      (fun w a hw _ => hw.publishes_iff a) hstart horderly
  have hdated : Dated { cron := s } := by
    intro job hjob
    cases hjob
  exact ⟨hiff, fun htime => hiff.mpr (within_of_inTime hstart hdated horderly htime)⟩

def leading (schedule : Schedule) : CronScheduler :=
  CronScheduler.loadSchedules { rows := (∅ : Rows).insert schedule.id schedule } [schedule]

theorem sane_leading {schedule : Schedule} (hactive : schedule.isActive = true) :
    (leading schedule).Sane := by
  have hkeyed : CronScheduler.Keyed ((∅ : Rows).insert schedule.id schedule) :=
    CronScheduler.Keyed.insert (fun id found hfound => by cases hfound) rfl
  have hstart : CronScheduler.Sane { rows := (∅ : Rows).insert schedule.id schedule } :=
    ⟨rfl, hkeyed, by simp, by simp⟩
  exact hstart.loadSchedules (by simpa using hactive)

/-- A step that leaves the scheduler and the repository as they are is orderly where no
`PauseSchedule` is under way. -/
theorem orderly_of_cron [Parsers] (hcron : (w.step a).cron = w.cron) (hpauses : w.pauses = []) :
    w.Orderly a := by
  have hnone : ∀ id, ¬ w.Deactivates a id := by
    rintro id ⟨hbefore, hafter⟩
    rw [hcron] at hafter
    exact hafter hbefore
  refine ⟨fun id hid => absurd hid (hnone id), fun _ _ _ e _ => hnone e.schedule.id, ?_⟩
  rintro k now e - - ⟨pause, hpause, -⟩
  rw [hpauses] at hpause
  cases hpause

/-- Where the stored schedules have no dates, a step that leaves them as they are is in time if the
clock does not go back. -/
theorem inTime_of_cron [Parsers] (hcron : (w.step a).cron = w.cron)
    (hdates : ∀ id, ∀ s ∈ w.cron.rows.lookup id, s.startDate = none ∧ s.endDate = none)
    (hclock : ∀ i now next fault, a = .job i now next fault →
      ∀ job ∈ w.jobs, job.triggeredAt ≤ now) : w.InTime a := by
  have hwithin : ∀ id, ∀ s ∈ w.cron.rows.lookup id, ∀ now, s.Within now := by
    intro id s hs now
    obtain ⟨hstart, hend⟩ := hdates id s hs
    simp [Schedule.Within, Schedule.isExpired, hstart, hend]
  refine ⟨fun k now e _ _ s hs => hwithin _ s hs now, fun now _ _ s hs => hwithin _ s hs now,
    fun i now next fault job ha hjob _ => ?_, fun job _ _ s hs s' hs' => ?_⟩
  · refine ⟨hclock i now next fault ha job (mem_of_getElem? hjob), fun s hs => ?_⟩
    rw [(hwithin _ s hs _).1, (hwithin _ s hs _).1]
  · rw [hcron] at hs'
    obtain rfl := Option.mem_unique hs hs'
    exact ⟨rfl, rfl⟩

theorem cron_job [Parsers] {i : ℕ} {job : Job} (hjob : w.jobs[i]? = some job)
    (hstage : job.stage ≠ .save) (now next : ℤ) (fault : Option String) :
    (w.step (.job i now next fault)).cron = w.cron := by
  simp only [step, hjob]
  rw [jobStep]
  split
  · rfl
  · rfl
  · rfl
  · exact absurd ‹_› hstage

def firing : List Action := [.fire 0 100, .job 0 100 3700 none, .job 0 100 3700 none]

theorem published_hourly : Runs.Along step PublishesDue { cron := leading hourly } firing := by
  have hentries : ∀ e ∈ (leading hourly).entries, e.schedule = hourly := by decide +kernel
  have hactive : ∀ e ∈ (leading hourly).entries, Active (leading hourly).rows e.schedule.id := by
    intro e he
    rw [hentries e he]
    exact ⟨hourly, by decide +kernel, rfl⟩
  have hrecord : (run { cron := leading hourly } [.fire 0 100]).jobs[0]? =
      some { schedule := hourly, triggeredAt := 100 } := by decide +kernel
  have hpublish : (run { cron := leading hourly }
      [.fire 0 100, .job 0 100 3700 none]).jobs[0]? =
      some { schedule := hourly, triggeredAt := 100, stage := .publish } := by decide +kernel
  have horderly : Runs.Along step Orderly { cron := leading hourly } firing := by
    refine ⟨?_, ?_, ?_, trivial⟩
    · exact orderly_of_cron (cron_fire _ _ _) rfl
    · exact orderly_of_cron (cron_job hrecord (by decide) _ _ _) (by decide +kernel)
    · exact orderly_of_cron (cron_job hpublish (by decide) _ _ _) (by decide +kernel)
  have hrows : (leading hourly).rows = (∅ : Rows).insert "s" hourly :=
    AList.ext (by decide +kernel)
  have hdates : ∀ w : World, w.cron = leading hourly → ∀ id, ∀ s ∈ w.cron.rows.lookup id,
      s.startDate = none ∧ s.endDate = none := by
    intro w hw id s hs
    rw [hw, hrows, GoMap.lookup_insert] at hs
    split_ifs at hs
    · cases hs
      exact ⟨rfl, rfl⟩
    · cases hs
  have hfired := cron_fire { cron := leading hourly } 0 100
  have hrecorded := cron_job hrecord (by decide) 100 3700 none
  have htime : Runs.Along step InTime { cron := leading hourly } firing := by
    refine ⟨?_, ?_, ?_, trivial⟩
    · exact inTime_of_cron (cron_fire _ _ _) (hdates _ rfl) (by simp)
    · refine inTime_of_cron hrecorded (hdates _ hfired) ?_
      rintro i now next fault ⟨⟩
      decide +kernel
    · refine inTime_of_cron (cron_job hpublish (by decide) _ _ _)
        (hdates _ (hrecorded.trans hfired)) ?_
      rintro i now next fault ⟨⟩
      decide +kernel
  exact (published_iff_within_dates (sane_leading rfl) hactive firing horderly).2 htime

/-- An event after the end, before the start, after `ScheduleService` has paused, and, for a missed
run, after the end. -/
theorem published_regardless :
    ¬ Runs.Along step PublishesDue { cron := leading { hourly with endDate := some 50 } } firing ∧
      ¬ Runs.Along step PublishesDue { cron := leading { hourly with startDate := some 5000 } }
        firing ∧
      ¬ Runs.Along step PublishesDue { cron := leading hourly }
        (.edit none (.save { hourly with isActive := false }) :: firing) ∧
      ¬ Runs.Along step PublishesDue { cron := leading { hourly with
          endDate := some 50, nextRunAt := some 10, misfirePolicy := .runOnce } }
        [.check RangeOrder.stored 100 none, .misfire 0 100 3700 none, .job 0 100 3700 none,
          .job 0 100 3700 none] := by
  decide +kernel

/-! ## Pauses -/

end World

/-- A stored schedule that is inactive. -/
def Inactive (rows : Rows) (id : String) : Prop := ∃ s ∈ rows.lookup id, s.isActive = false

instance (rows : Rows) (id : String) : Decidable (Inactive rows id) :=
  inferInstanceAs (Decidable (∃ s ∈ rows.lookup id, s.isActive = false))

/-- The calls that change a schedule that is stored, apart from `PauseSchedule`. -/
def Action.Edits (id : String) : Action → Prop
  | .call (.update _ schedule) => schedule.id = id
  | .call (.resume _ _ scheduleID) => scheduleID = id
  | .call (.delete _ scheduleID) => scheduleID = id
  | .edit _ (.save schedule) => schedule.id = id
  | .edit _ (.delete scheduleID) => scheduleID = id
  | _ => False

variable {id : String} {rows rows' : Rows} {fault : Option String} {s stored : Schedule}

theorem Inactive.not_active {rows : Rows} (h : Inactive rows id) : ¬ Active rows id := by
  obtain ⟨s, hs, hinactive⟩ := h
  rintro ⟨s', hs', hactive⟩
  obtain rfl := Option.mem_unique hs hs'
  rw [hinactive] at hactive
  cases hactive

theorem Inactive.congr (h : Inactive rows id) (hsame : rows'.lookup id = rows.lookup id) :
    Inactive rows' id := by
  rw [Inactive, hsame]
  exact h

theorem Inactive.mem {rows : Rows} (h : Inactive rows id) : id ∈ rows := by
  obtain ⟨s, hs, -⟩ := h
  exact AList.lookup_isSome.mp (Option.isSome_of_mem hs)

theorem Inactive.save (h : Inactive rows id) (hsave : rows.save fault s = .ok (rows', stored))
    (hs : s.id = id → s.isActive = false) : Inactive rows' id := by
  obtain ⟨hrows, hstored⟩ := CronScheduler.save_eq_ok hsave
  by_cases hid : s.id = id
  · subst hid
    obtain ⟨-, rfl⟩ := hstored.resolve_right (fun hnone => hnone.1 h.mem)
    rw [hrows, Inactive, AList.lookup_insert]
    exact ⟨stored, rfl, hs rfl⟩
  · exact h.congr (CronScheduler.lookup_save_ne hsave (Ne.symm hid))

theorem Inactive.create (h : Inactive rows id)
    (hcreate : rows.create fault s = .ok (rows', stored)) : Inactive rows' id := by
  obtain ⟨hnone, -, hrows⟩ := CronScheduler.create_eq_ok hcreate
  refine h.congr ?_
  rw [hrows]
  exact AList.lookup_insert_ne (fun hid => hnone (hid ▸ h.mem))

theorem ne_empty_of_save (hsave : rows.save fault s = .ok (rows', stored)) (hmem : s.id ∈ rows) :
    s.id ≠ "" := by
  intro hempty
  unfold Rows.save at hsave
  split at hsave
  · cases hsave
  · rw [if_pos hempty] at hsave
    exact (CronScheduler.create_eq_ok hsave).1 hmem

theorem Inactive.step [Parsers] {s : CronScheduler} (hs : s.Sane) (h : Inactive s.rows id)
    {c : Call} (hc : ¬ (Action.call c).Edits id) : Inactive (s.step c).rows id := by
  rcases hs.outcome_step c with heq | ⟨-, honly⟩
  · rw [heq]
    exact h
  by_cases hid : c.scheduleID = id
  -- of the calls for this schedule, `AddSchedule` finds the row and `PauseSchedule` keeps it
  · cases c with
    | add fault schedule =>
      show Inactive (s.addSchedule fault schedule).2.rows id
      unfold CronScheduler.addSchedule
      split_ifs
      · split
        · exact h
        · rename_i hcreate
          obtain rfl : schedule.id = id := hid
          exact absurd h.mem (CronScheduler.create_eq_ok hcreate).1
      · exact h
    | update fault schedule => exact absurd hid hc
    | delete fault scheduleID => exact absurd hid hc
    | pause getFault saveFault scheduleID =>
      show Inactive (s.pauseSchedule getFault saveFault scheduleID).2.rows id
      unfold CronScheduler.pauseSchedule
      split
      · exact h
      split
      · exact h
      · rename_i hsave
        rw [CronScheduler.removeFromCron, CronScheduler.rows_removeExisting]
        exact h.save hsave (fun _ => rfl)
    | resume getFault saveFault scheduleID => exact absurd hid hc
  · exact h.congr (honly.rows id (Ne.symm hid))

namespace World

/-- The schedule is inactive, and nothing is left that makes it active. -/
structure Still (id : String) (w : World) : Prop where
  sane : w.Sane
  inactive : Inactive w.cron.rows id
  held : id ≠ "" → ∀ s, w.Holds s → s.id ≠ id
  entries : ∀ e ∈ w.cron.entries, e.schedule.id ≠ id

variable {w : World} {id : String} {s : Schedule}

theorem Still.effect [Parsers] (h : w.Still id) {a : Action} {s : CronScheduler}
    (heffect : w.Effect a s) (ha : ¬ a.Edits id) : Inactive s.rows id := by
  cases heffect with
  | none => exact h.inactive
  | wroteBack hheld hid _ hsave =>
    refine h.inactive.save hsave (fun heq => ?_)
    subst heq
    exact absurd hid.symm (h.held (ne_empty_of_save hsave h.inactive.mem) _ hheld)
  | pauseSaved _ _ hsave => exact h.inactive.save hsave (fun _ => rfl)
  | pauseRemoved _ _ =>
    rw [CronScheduler.removeFromCron, CronScheduler.rows_removeExisting]
    exact h.inactive
  | called => exact h.inactive.step h.sane.cron ha
  | created hcreate => exact h.inactive.create hcreate
  | saved hsave => exact h.inactive.save hsave (fun heq => absurd heq ha)
  | deleted => exact h.inactive.congr (AList.lookup_erase_ne (Ne.symm ha))

/-- Nothing but an edit makes a paused schedule active that nothing holds. -/
theorem Still.step [Parsers] (h : w.Still id) {a : Action} (ha : ¬ a.Edits id) :
    (w.step a).Still id := by
  have hinactive := h.effect (w.changes_step a).cron ha
  refine ⟨h.sane.step a, hinactive, ?_, ?_⟩
  · rintro hid s hs rfl
    rcases h.sane.holds_step hs with hold | ⟨e, he, rfl⟩ | hactive
    · exact h.held hid s hold rfl
    · exact h.entries e he rfl
    · exact h.inactive.not_active hactive
  · rintro e he rfl
    rcases h.sane.mem_entries (w.changes_step a).cron he with hold | hactive
    · exact h.entries e hold rfl
    · exact hinactive.not_active hactive

/-- A paused schedule that nothing holds stays inactive over a whole run. -/
theorem Still.run [Parsers] (h : w.Still id) {bs : List Action} (hbs : ∀ b ∈ bs, ¬ b.Edits id) :
    (w.run bs).Still id := by
  induction bs generalizing w with
  | nil => exact h
  | cons b bs ih =>
    obtain ⟨hb, hbs⟩ := forall_mem_cons.mp hbs
    exact ih (h.step hb) hbs

def Reactivates [Parsers] (w : World) (id : String) : Prop :=
  ∃ bs : List Action, (∀ b ∈ bs, ¬ b.Edits id) ∧ Active (w.run bs).cron.rows id

theorem Reactivates.cons [Parsers] {b : Action} (hb : ¬ b.Edits id)
    (h : (w.step b).Reactivates id) : w.Reactivates id := by
  obtain ⟨bs, hbs, hactive⟩ := h
  exact ⟨b :: bs, forall_mem_cons.mpr ⟨hb, hbs⟩, hactive⟩

/-- A schedule with an ID is saved unless the repository fails, and an active one is then stored
as active. -/
theorem active_save_none (w : World) (hid : s.id ≠ "") (hactive : s.isActive = true) :
    Active (w.save none s).cron.rows s.id := by
  have hok : ∃ saved, w.cron.rows.save none s = .ok saved := by
    rw [Rows.save, if_neg hid]
    split_ifs
    · exact ⟨_, rfl⟩
    · exact ⟨_, rfl⟩
  obtain ⟨⟨rows, stored⟩, hsave⟩ := hok
  simp only [save, hsave]
  rw [CronScheduler.active_save hsave, if_pos rfl]
  exact CronScheduler.save_isActive hsave hactive

theorem reactivates_of_job [Parsers] {i : ℕ} {job : Job} (hjob : w.jobs[i]? = some job)
    (hid : job.schedule.id ≠ "") (hactive : job.schedule.isActive = true) :
    w.Reactivates job.schedule.id := by
  obtain ⟨schedule, triggeredAt, stage⟩ := job
  -- from the last stage to the first
  have hsave : ∀ w : World, w.jobs[i]? = some ⟨schedule, triggeredAt, .save⟩ →
      w.Reactivates schedule.id := by
    intro w hjob
    refine ⟨[.job i 0 0 none], by simp [Action.Edits], ?_⟩
    simp only [run, foldl_cons, foldl_nil, step, hjob, jobStep]
    exact active_save_none _ hid hactive
  have hnext : ∀ stage stage', (∀ (w : World) (next : ℤ) (fault : Option String),
        (w.jobStep i ⟨schedule, triggeredAt, stage⟩ next fault).jobs =
          w.jobs.set i ⟨schedule, triggeredAt, stage'⟩) →
      (∀ w : World, w.jobs[i]? = some ⟨schedule, triggeredAt, stage'⟩ → w.Reactivates schedule.id) →
      ∀ w : World, w.jobs[i]? = some ⟨schedule, triggeredAt, stage⟩ →
        w.Reactivates schedule.id := by
    intro stage stage' hjobs hlater w hjob
    refine Reactivates.cons (b := .job i 0 0 none) (by simp [Action.Edits]) (hlater _ ?_)
    simp only [step, hjob, hjobs]
    exact List.getElem?_set_self (List.getElem?_eq_some_iff.mp hjob).1
  have hreport := hnext .report .save (fun _ _ _ => rfl) hsave
  have hpublish := hnext .publish .report (fun _ _ _ => rfl) hreport
  have hrecord := hnext .record .publish (fun _ _ _ => rfl) hpublish
  cases stage with
  | record => exact hrecord w hjob
  | publish => exact hpublish w hjob
  | report => exact hreport w hjob
  | save => exact hsave w hjob

theorem reactivates_of_check [Parsers] {c : ℕ} {check : MisfireCheck}
    (hcheck : w.checks[c]? = some check) (hs : s ∈ check.remaining)
    (hhandled : s.Handled check.now) (hid : s.id ≠ "") (hactive : s.isActive = true) :
    w.Reactivates s.id := by
  obtain ⟨now, remaining⟩ := check
  -- the check goes through what comes before the schedule, whatever that does
  induction remaining generalizing w with
  | nil => cases hs
  | cons first rest ih =>
    refine Reactivates.cons (b := .misfire c 0 0 none) (by simp [Action.Edits]) ?_
    have hlt := (List.getElem?_eq_some_iff.mp hcheck).1
    simp only [step, hcheck]
    rcases mem_cons.mp hs with rfl | hs
    · rw [misfireStep, if_pos hhandled.1]
      rcases hhandled.2 with hpolicy | hpolicy
      · have hstarted : ∀ v : World, v.jobs[w.jobs.length]? =
            some { schedule := s, triggeredAt := 0 } → v.Reactivates s.id :=
          fun v hjob => reactivates_of_job hjob hid hactive
        simp only [hpolicy]
        exact hstarted _ getElem?_concat_length
      · simp only [hpolicy]
        exact ⟨[], by simp, active_save_none _ hid hactive⟩
    · refine ih ?_ hs hhandled
      rw [checks_misfireStep]
      exact getElem?_set_self hlt

theorem Sane.reactivates [Parsers] (h : w.Sane) (hs : w.Holds s) (hid : s.id ≠ "") :
    w.Reactivates s.id := by
  have hactive := h.of_holds hs
  rcases hs with ⟨job, hjob, rfl⟩ | ⟨check, hcheck, hs, hhandled⟩
  · obtain ⟨i, hi⟩ := mem_iff_getElem?.mp hjob
    exact reactivates_of_job hi hid hactive
  · obtain ⟨c, hc⟩ := mem_iff_getElem?.mp hcheck
    exact reactivates_of_check hc hs hhandled hid hactive

/-- **Pauses.** When a `PauseSchedule` returns, the schedule stays inactive over every run that does
not edit it, exactly if it is inactive and, unless it has no ID and cannot be saved, no job holds it
and no misfire check has still to handle it. -/
theorem stays_inactive_iff [Parsers] {s : CronScheduler} (h : s.Sane) (as : List Action) {p : ℕ}
    {pause : Pause} (hp : (run { cron := s } as).pauses[p]? = some pause)
    (hsaved : pause.saved = true) (fault : Option String) :
    (∀ bs : List Action, (∀ b ∈ bs, ¬ b.Edits pause.schedule.id) →
        Inactive (((run { cron := s } as).step (.pauseNext p fault)).run bs).cron.rows
          pause.schedule.id) ↔
      Inactive ((run { cron := s } as).step (.pauseNext p fault)).cron.rows pause.schedule.id ∧
        (pause.schedule.id ≠ "" →
          ∀ held, ((run { cron := s } as).step (.pauseNext p fault)).Holds held →
            held.id ≠ pause.schedule.id) := by
  have hsane := (sane_start h).run as
  generalize run { cron := s } as = w at hp hsane ⊢
  constructor
  · intro hstays
    refine ⟨hstays [] (by simp), fun hid held hheld heq => ?_⟩
    obtain ⟨bs, hbs, hactive⟩ := (hsane.step _).reactivates hheld (heq ▸ hid)
    rw [heq] at hbs hactive
    exact (hstays bs hbs).not_active hactive
  · rintro ⟨hinactive, hheld⟩ bs hbs
    -- the return of `PauseSchedule` is the removal of the entry, so that none is left to fire
    have hremoved : (w.step (.pauseNext p fault)).cron =
        w.cron.removeFromCron pause.schedule.id := by
      simp only [step, hp, pauseStep, hsaved, if_true]
    have hstill : (w.step (.pauseNext p fault)).Still pause.schedule.id := by
      refine ⟨hsane.step _, hinactive, hheld, ?_⟩
      rw [hremoved]
      intro e he
      exact CronScheduler.ne_of_mem_removeExisting hsane.cron.registered he
    exact (hstill.run hbs).inactive

/-- `PauseSchedule` up to the removal of the entry, which is its last step. -/
def pausing : List Action := [.pause none "s", .pauseNext 0 none]

/-- With nothing under way, the schedule stays inactive while misfires are looked for. -/
theorem stays_inactive_hourly :
    Inactive (((run { cron := leading hourly } pausing).step (.pauseNext 0 none)).run
      [.check RangeOrder.stored 100 none, .misfire 0 100 3700 none, .fire 0 3700]).cron.rows
        hourly.id := by
  have hp : (run { cron := leading hourly } pausing).pauses[0]? =
      some { schedule := hourly, saved := true } := by decide +kernel
  have hjobs : ((run { cron := leading hourly } pausing).step (.pauseNext 0 none)).jobs = [] := by
    decide +kernel
  have hchecks : ((run { cron := leading hourly } pausing).step (.pauseNext 0 none)).checks =
      [] := by
    decide +kernel
  refine (stays_inactive_iff (sane_leading rfl) pausing hp rfl none).mpr
    ⟨by decide +kernel, ?_⟩ _ (by simp [Action.Edits])
  rintro - held (⟨job, hjob, -⟩ | ⟨check, hcheck, -⟩)
  · rw [hjobs] at hjob
    cases hjob
  · rw [hchecks] at hcheck
    cases hcheck

/-- A job that fired before the pause, and a misfire check that read the schedule before it, save it
as active. -/
theorem pause_undone : ¬ Inactive (((run { cron := leading hourly } (.fire 0 100 :: pausing)).step
        (.pauseNext 0 none)).run (List.replicate 4 (.job 0 100 3700 none))).cron.rows "s" ∧
      ¬ Inactive (((run { cron := leading { hourly with nextRunAt := some 10 } }
        (.check RangeOrder.stored 100 none :: pausing)).step (.pauseNext 0 none)).run
          [.misfire 0 100 3700 none]).cron.rows "s" := by
  decide +kernel

end World

end LinkFlow.Cron
