/-
The cron scheduler (`internal/schedule/app/scheduler/cron.go`): the repository of schedules, the
scheduler's map from schedules to cron entries, and the entries of the cron engine.

`AddSchedule` and `UpdateSchedule` check an expression with `cron.ParseStandard`, which takes
five fields, and `addToCron` parses it with a parser that takes six. No expression passes both
(`Parsers.disjoint`), so neither call ever puts an entry into the engine. What
else is left behind by a call that fails is stated exactly (`stores_agree_iff`).
-/
import LinkFlow.Lib.GoMap
import LinkFlow.Lib.Runs

set_option autoImplicit false

namespace LinkFlow.Cron

open List GoMap

/-! ## Schedules -/

/-- `MisfirePolicy`, a string; `other` is any without a case of its own. -/
inductive MisfirePolicy
  | empty
  | skip
  | runOnce
  | runAll
  | other
deriving DecidableEq, Repr

/-- `Schedule`, without what the scheduler neither reads nor changes. Times are nanoseconds. -/
structure Schedule where
  id : String
  workflowID : String := ""
  cronExpression : String
  isActive : Bool := true
  (startDate endDate lastRunAt nextRunAt : Option ℤ := none)
  misfirePolicy : MisfirePolicy := .skip
deriving DecidableEq, Repr

def Schedule.isExpired (now : ℤ) (s : Schedule) : Bool :=
  s.endDate.any (fun endDate => endDate < now)

/-- `ShouldRun`, asked about the present. -/
def Schedule.shouldRun (now : ℤ) (s : Schedule) : Bool :=
  s.isActive && !s.isExpired now && !s.startDate.any (fun startDate => now < startDate)

/-- The two parsers of the cron library that the scheduler uses, by what they accept:
`cron.ParseStandard`, and the parser of `addToCron`, which takes a field for the seconds as well.
No expression passes both. -/
class Parsers where
  parseStandard : String → Bool
  parseSeconds : String → Bool
  disjoint : ∀ {e : String}, parseStandard e = true → parseSeconds e = false

open Parsers (parseStandard parseSeconds disjoint)

/-! ## The repository -/

abbrev Rows := GoMap String Schedule

def Schedule.withDefaults (s : Schedule) : Schedule :=
  { s with
    isActive := true, misfirePolicy := if s.misfirePolicy = .empty then .skip else s.misfirePolicy }

/-- The rows, and the schedule as the caller then has it. -/
def Rows.create (rows : Rows) (fault : Option String) (s : Schedule) :
    Except String (Rows × Schedule) :=
  match fault with
  | some err => .error err
  | none =>
    if s.id ∈ rows then .error "duplicate key"
    else .ok (rows.insert s.id s.withDefaults, s.withDefaults)

/-- `Update`, which is `Save`: an update of all columns, or an insert where there is no row or no
ID. -/
def Rows.save (rows : Rows) (fault : Option String) (s : Schedule) :
    Except String (Rows × Schedule) :=
  match fault with
  | some err => .error err
  | none =>
    if s.id = "" then rows.create none s
    else if s.id ∈ rows then .ok (rows.insert s.id s, s)
    else .ok (rows.insert s.id s.withDefaults, s.withDefaults)

def Rows.getByID (rows : Rows) (fault : Option String) (id : String) : Except String Schedule :=
  match fault with
  | some err => .error err
  | none => match rows.lookup id with
      | none => .error "record not found"
      | some s => .ok s

/-! ## The scheduler -/

/-- An entry of the cron engine, with the schedule its job holds. -/
structure Entry where
  id : ℕ
  schedule : Schedule
deriving DecidableEq, Repr

/-- `CronScheduler`, with the rows of its repository and the entries of its engine. -/
structure CronScheduler where
  rows : Rows := ∅
  schedules : GoMap String ℕ := ∅
  entries : List Entry := []
  nextID : ℕ := 0
  isLeader : Bool := true

/-- The errors of the calls, by the step that fails; `repository` is passed on as it is. -/
inductive Error
  | invalidExpression
  | failedToSave (err : String)
  | failedToUpdate (err : String)
  | failedToDelete (err : String)
  | failedToAddToCron
  | failedToUpdateCron
  | failedToParse
  | repository (err : String)
deriving DecidableEq, Repr

namespace CronScheduler

/-- `cron.Remove` -/
def removeEntry (s : CronScheduler) (id : ℕ) : CronScheduler :=
  { s with entries := s.entries.filter (fun e => e.id ≠ id) }

/-- `cron.Schedule` -/
def scheduleEntry (s : CronScheduler) (schedule : Schedule) : CronScheduler :=
  { s with
    entries := s.entries ++ [{ id := s.nextID + 1, schedule }], nextID := s.nextID + 1,
    schedules := s.schedules.insert schedule.id (s.nextID + 1) }

def removeExisting (s : CronScheduler) (scheduleID : String) : CronScheduler :=
  match s.schedules.lookup scheduleID with
  | some entryID => s.removeEntry entryID
  | none => s

/-- Whether it succeeds, and the scheduler. -/
def addToCron [Parsers] (s : CronScheduler) (schedule : Schedule) : Bool × CronScheduler :=
  let s := s.removeExisting schedule.id
  if parseSeconds schedule.cronExpression = true then (true, s.scheduleEntry schedule)
  else (false, s)

/-- The map is left as it is where the schedule is not registered. -/
def removeFromCron (s : CronScheduler) (scheduleID : String) : CronScheduler :=
  { s.removeExisting scheduleID with schedules := s.schedules.erase scheduleID }

/-- `addToCron` of a call, if the scheduler leads. -/
def addIfLeader [Parsers] (s : CronScheduler) (schedule : Schedule) (err : Error) :
    Option Error × CronScheduler :=
  if s.isLeader = true then
    match s.addToCron schedule with
    | (true, s) => (none, s)
    | (false, s) => (some err, s)
  else (none, s)

/-- `fault` is the error of the repository, if it returns one of its own. -/
def addSchedule [Parsers] (s : CronScheduler) (fault : Option String) (schedule : Schedule) :
    Option Error × CronScheduler :=
  if parseStandard schedule.cronExpression = true then
    match s.rows.create fault schedule with
    | .error err => (some (.failedToSave err), s)
    | .ok (rows, schedule) => { s with rows }.addIfLeader schedule .failedToAddToCron
  else (some .invalidExpression, s)

def updateSchedule [Parsers] (s : CronScheduler) (fault : Option String) (schedule : Schedule) :
    Option Error × CronScheduler :=
  if parseStandard schedule.cronExpression = true then
    match s.rows.save fault schedule with
    | .error err => (some (.failedToUpdate err), s)
    | .ok (rows, schedule) =>
      let s := { s with rows }
      let s := if s.isLeader = true then s.removeFromCron schedule.id else s
      if schedule.isActive = true then s.addIfLeader schedule .failedToUpdateCron
      else (none, s)
  else (some .invalidExpression, s)

/-- To delete a row that does not exist is no error. -/
def deleteSchedule (s : CronScheduler) (fault : Option String) (scheduleID : String) :
    Option Error × CronScheduler :=
  let s := s.removeFromCron scheduleID
  match fault with
  | some err => (some (.failedToDelete err), s)
  | none => (none, { s with rows := s.rows.erase scheduleID })

/-- `PauseSchedule`, with the errors of its two repository calls. -/
def pauseSchedule (s : CronScheduler) (getFault saveFault : Option String)
    (scheduleID : String) : Option Error × CronScheduler :=
  match s.rows.getByID getFault scheduleID with
  | .error err => (some (.repository err), s)
  | .ok schedule => match s.rows.save saveFault { schedule with isActive := false } with
      | .error err => (some (.repository err), s)
      | .ok (rows, _) => (none, { s with rows }.removeFromCron scheduleID)

def resumeSchedule [Parsers] (s : CronScheduler) (getFault saveFault : Option String)
    (scheduleID : String) : Option Error × CronScheduler :=
  match s.rows.getByID getFault scheduleID with
  | .error err => (some (.repository err), s)
  | .ok schedule => match s.rows.save saveFault { schedule with isActive := true } with
      | .error err => (some (.repository err), s)
      | .ok (rows, schedule) => { s with rows }.addIfLeader schedule .failedToParse

/-- `loadSchedules`, over the schedules that `GetActive` returns; what fails is logged. -/
def loadSchedules [Parsers] (s : CronScheduler) (schedules : List Schedule) : CronScheduler :=
  schedules.foldl (fun s schedule => (s.addIfLeader schedule .failedToParse).2) s

end CronScheduler

/-- The calls, with the errors the repository returns of its own. -/
inductive Call
  | add (fault : Option String) (schedule : Schedule)
  | update (fault : Option String) (schedule : Schedule)
  | delete (fault : Option String) (scheduleID : String)
  | pause (getFault saveFault : Option String) (scheduleID : String)
  | resume (getFault saveFault : Option String) (scheduleID : String)
deriving DecidableEq, Repr

namespace CronScheduler

def call [Parsers] (s : CronScheduler) : Call → Option Error × CronScheduler
  | .add fault schedule => s.addSchedule fault schedule
  | .update fault schedule => s.updateSchedule fault schedule
  | .delete fault scheduleID => s.deleteSchedule fault scheduleID
  | .pause getFault saveFault scheduleID => s.pauseSchedule getFault saveFault scheduleID
  | .resume getFault saveFault scheduleID => s.resumeSchedule getFault saveFault scheduleID

def step [Parsers] (s : CronScheduler) (c : Call) : CronScheduler := (s.call c).2

/-! ## Consistency -/

/-- A stored schedule that is active. -/
def Active (rows : Rows) (id : String) : Prop :=
  ∃ schedule, rows.lookup id = some schedule ∧ schedule.isActive = true

/-- Every stored schedule stands under its ID. -/
def Keyed (rows : Rows) : Prop := ∀ id schedule, rows.lookup id = some schedule → schedule.id = id

/-- One entry for each active schedule of the repository, registered under it in the scheduler's
map, and none for any other. -/
structure Consistent (s : CronScheduler) : Prop where
  one : ∀ id, Active s.rows id →
    ∃ e, s.entries.filter (fun e => e.schedule.id = id) = [e] ∧ s.schedules.lookup id = some e.id
  none : ∀ e ∈ s.entries, Active s.rows e.schedule.id

/-- A call that returns an error leaves repository, map and entries as they were. -/
def FailsCleanly [Parsers] (s : CronScheduler) (c : Call) : Prop :=
  (s.call c).1 ≠ none → (s.step c).rows = s.rows ∧ (s.step c).schedules = s.schedules ∧
    (s.step c).entries = s.entries

/-- The map and the engine say the same: every entry is registered under its schedule, and what
is registered is an entry. -/
structure Wired (s : CronScheduler) : Prop where
  fresh : ∀ e ∈ s.entries, e.id ≤ s.nextID
  nodup : (s.entries.map Entry.id).Nodup
  registered : ∀ e ∈ s.entries, s.schedules.lookup e.schedule.id = some e.id
  backed : ∀ id entryID, s.schedules.lookup id = some entryID →
    ∃ e ∈ s.entries, e.id = entryID ∧ e.schedule.id = id

/-- A leading scheduler whose map registers exactly the active schedules. -/
structure Inv (s : CronScheduler) : Prop where
  leads : s.isLeader = true
  keyed : Keyed s.rows
  wired : s.Wired
  active : ∀ id, id ∈ s.schedules ↔ Active s.rows id

variable {s : CronScheduler} {id : String} {fault : Option String} {rows : Rows}
   {schedule : Schedule}

theorem Wired.entry_unique (h : s.Wired) {e e' : Entry} (he : e ∈ s.entries) (he' : e' ∈ s.entries)
    (hid : e.id = e'.id) : e = e' :=
  inj_on_of_nodup_map h.nodup he he' hid

/-- The map and the engine agree with the rows in every state of the invariant. -/
theorem Inv.consistent (h : s.Inv) : s.Consistent := by
  constructor
  · intro id hid
    obtain ⟨entryID, hlookup⟩ :=
      Option.isSome_iff_exists.mp (AList.lookup_isSome.mpr ((h.active id).mpr hid))
    obtain ⟨e, he, rfl, hschedule⟩ := h.wired.backed id entryID hlookup
    refine ⟨e, ?_, hlookup⟩
    -- the entries of the schedule are those with this one's ID
    have hsame : s.entries.filter (fun e' => e'.schedule.id = id) = s.entries.filter (· == e) := by
      refine filter_congr (fun e' he' => ?_)
      rw [Bool.eq_iff_iff, decide_eq_true_iff, beq_iff_eq]
      refine ⟨fun heq => ?_, ?_⟩
      · have hreg := h.wired.registered e' he'
        rw [heq, hlookup] at hreg
        exact (h.wired.entry_unique he he' (Option.some.inj hreg)).symm
      · rintro rfl
        exact hschedule
    rw [hsame, filter_beq, count_eq_one_of_mem (List.Nodup.of_map _ h.wired.nodup) he]
    rfl
  · intro e he
    refine (h.active _).mp (AList.lookup_isSome.mp ?_)
    rw [h.wired.registered e he]
    rfl

/-! ## The map and the engine -/

section RemoveExisting

variable (s : CronScheduler) (id : String)

@[simp] theorem rows_removeExisting : (s.removeExisting id).rows = s.rows := by
  rw [removeExisting]
  split <;> rfl

@[simp] theorem schedules_removeExisting : (s.removeExisting id).schedules = s.schedules := by
  rw [removeExisting]
  split <;> rfl

@[simp] theorem nextID_removeExisting : (s.removeExisting id).nextID = s.nextID := by
  rw [removeExisting]
  split <;> rfl

@[simp] theorem isLeader_removeExisting : (s.removeExisting id).isLeader = s.isLeader := by
  rw [removeExisting]
  split <;> rfl

theorem sublist_removeExisting : (s.removeExisting id).entries.Sublist s.entries := by
  rw [removeExisting]
  split
  · exact filter_sublist
  · exact List.Sublist.refl _

end RemoveExisting

theorem ne_of_mem_removeExisting (h : ∀ e ∈ s.entries, s.schedules.lookup e.schedule.id = some e.id)
    {e : Entry} (he : e ∈ (s.removeExisting id).entries) : e.schedule.id ≠ id := by
  have hreg := h e ((s.sublist_removeExisting id).subset he)
  rintro rfl
  rw [removeExisting, hreg] at he
  simp [removeEntry] at he

theorem Wired.mem_removeExisting (h : s.Wired) {e : Entry} :
    e ∈ (s.removeExisting id).entries ↔ e ∈ s.entries ∧ e.schedule.id ≠ id := by
  refine ⟨fun he => ⟨(s.sublist_removeExisting id).subset he,
    ne_of_mem_removeExisting h.registered he⟩, ?_⟩
  rintro ⟨he, hne⟩
  rw [removeExisting]
  split
  · rename_i entryID hlookup
    -- two schedules do not share an entry
    refine mem_filter.mpr ⟨he, decide_eq_true (fun heq => hne ?_)⟩
    obtain ⟨e', he', hid', hschedule⟩ := h.backed id entryID hlookup
    rw [← hschedule, h.entry_unique he' he (hid'.trans heq.symm)]
  · exact he

theorem Wired.removeFromCron (h : s.Wired) (id : String) : (s.removeFromCron id).Wired := by
  have hsub := s.sublist_removeExisting id
  refine ⟨?_, h.nodup.sublist (hsub.map _), ?_, ?_⟩
  · intro e he
    have hfresh := h.fresh e (hsub.subset he)
    rwa [← s.nextID_removeExisting id] at hfresh
  · intro e he
    obtain ⟨he, hne⟩ := h.mem_removeExisting.mp he
    exact (AList.lookup_erase_ne hne).trans (h.registered e he)
  · intro k n hk
    rw [CronScheduler.removeFromCron, lookup_erase] at hk
    split_ifs at hk with hkid
    obtain ⟨e, he, hid, rfl⟩ := h.backed k n hk
    exact ⟨e, h.mem_removeExisting.mpr ⟨he, hkid⟩, hid, rfl⟩

theorem Wired.scheduleEntry (h : s.Wired) (schedule : Schedule) :
    ((s.removeExisting schedule.id).scheduleEntry schedule).Wired := by
  have hmem : ∀ e, e ∈ ((s.removeExisting schedule.id).scheduleEntry schedule).entries ↔
      (e ∈ s.entries ∧ e.schedule.id ≠ schedule.id) ∨ e = ⟨s.nextID + 1, schedule⟩ := by
    intro e
    simp [CronScheduler.scheduleEntry, h.mem_removeExisting]
  have hlookup : ∀ k, ((s.removeExisting schedule.id).scheduleEntry schedule).schedules.lookup k =
      if k = schedule.id then some (s.nextID + 1) else s.schedules.lookup k := by
    intro k
    simp only [CronScheduler.scheduleEntry, schedules_removeExisting, nextID_removeExisting]
    exact lookup_insert _ _ _ _
  have hnext : ((s.removeExisting schedule.id).scheduleEntry schedule).nextID = s.nextID + 1 := by
    simp [CronScheduler.scheduleEntry]
  constructor
  · intro e he
    rw [hnext]
    rcases (hmem e).mp he with ⟨he, -⟩ | rfl
    · exact (h.fresh e he).trans (Nat.le_succ _)
    · exact le_rfl
  · rw [CronScheduler.scheduleEntry, map_append, map_singleton, nextID_removeExisting,
      ← concat_eq_append, nodup_concat]
    have hsub := s.sublist_removeExisting schedule.id
    refine ⟨fun hold => ?_, h.nodup.sublist (hsub.map _)⟩
    obtain ⟨e, he, heq⟩ := mem_map.mp hold
    have hle := h.fresh e (hsub.subset he)
    rw [heq] at hle
    exact Nat.not_succ_le_self _ hle
  · intro e he
    rw [hlookup]
    rcases (hmem e).mp he with ⟨he, hne⟩ | rfl
    · rw [if_neg hne]
      exact h.registered e he
    · rw [if_pos rfl]
  · intro k n hk
    rw [hlookup] at hk
    split_ifs at hk with hkid
    · exact ⟨⟨s.nextID + 1, schedule⟩, (hmem _).mpr (.inr rfl), Option.some.inj hk, hkid.symm⟩
    · obtain ⟨e, he, hid, rfl⟩ := h.backed k n hk
      exact ⟨e, (hmem e).mpr (.inl ⟨he, hkid⟩), hid, rfl⟩

theorem removeFromCron_of_notMem (h : id ∉ s.schedules) : s.removeFromCron id = s := by
  have hnone := AList.lookup_eq_none.mpr h
  have herase : s.schedules.erase id = s.schedules :=
    AList.ext (kerase_of_notMem_keys (fun hk => h (AList.mem_keys.mpr hk)))
  rw [removeFromCron, removeExisting, hnone, herase]

/-! ## The repository -/

theorem create_eq_ok {rows rows' : Rows} {schedule stored : Schedule}
    (h : rows.create fault schedule = .ok (rows', stored)) :
    schedule.id ∉ rows ∧ stored = schedule.withDefaults ∧
      rows' = rows.insert schedule.id stored := by
  unfold Rows.create at h
  split at h
  · cases h
  · split_ifs at h with hid
    obtain ⟨rfl, rfl⟩ := Prod.mk.inj (Except.ok.inj h)
    exact ⟨hid, rfl, rfl⟩

theorem save_eq_ok {rows rows' : Rows} {schedule stored : Schedule}
    (h : rows.save fault schedule = .ok (rows', stored)) : rows' = rows.insert schedule.id stored ∧
      (schedule.id ∈ rows ∧ stored = schedule ∨
        schedule.id ∉ rows ∧ stored = schedule.withDefaults) := by
  unfold Rows.save at h
  split at h
  · cases h
  split_ifs at h with hempty hid
  · obtain ⟨hid, hstored, hrows⟩ := create_eq_ok h
    exact ⟨hrows, .inr ⟨hid, hstored⟩⟩
  · obtain ⟨rfl, rfl⟩ := Prod.mk.inj (Except.ok.inj h)
    exact ⟨rfl, .inl ⟨hid, rfl⟩⟩
  · obtain ⟨rfl, rfl⟩ := Prod.mk.inj (Except.ok.inj h)
    exact ⟨rfl, .inr ⟨hid, rfl⟩⟩

theorem getByID_eq_ok (h : rows.getByID fault id = .ok schedule) :
    rows.lookup id = some schedule := by
  unfold Rows.getByID at h
  split at h
  · cases h
  split at h
  · cases h
  · rename_i found hfound
    rw [hfound, Except.ok.inj h]

theorem active_insert (rows : Rows) (id k : String) (schedule : Schedule) :
    Active (rows.insert id schedule) k ↔
      if k = id then schedule.isActive = true else Active rows k := by
  rw [Active, lookup_insert]
  by_cases hk : k = id
  · simp [hk]
  · simp only [if_neg hk]
    exact Iff.rfl

theorem Keyed.insert (h : Keyed rows) (hid : schedule.id = id) : Keyed (rows.insert id schedule) :=
  forall_insert h hid

theorem Keyed.erase (h : Keyed rows) (id : String) : Keyed (rows.erase id) :=
  forall_erase h id

section Save

variable {rows rows' : Rows} {fault : Option String} {schedule stored : Schedule}

theorem save_id (h : rows.save fault schedule = .ok (rows', stored)) : stored.id = schedule.id := by
  obtain ⟨-, ⟨-, rfl⟩ | ⟨-, rfl⟩⟩ := save_eq_ok h
  · rfl
  · rfl

theorem save_cronExpression (h : rows.save fault schedule = .ok (rows', stored)) :
    stored.cronExpression = schedule.cronExpression := by
  obtain ⟨-, ⟨-, rfl⟩ | ⟨-, rfl⟩⟩ := save_eq_ok h
  · rfl
  · rfl

theorem save_isActive (h : rows.save fault schedule = .ok (rows', stored))
    (hactive : schedule.isActive = true) : stored.isActive = true := by
  obtain ⟨-, ⟨-, rfl⟩ | ⟨-, rfl⟩⟩ := save_eq_ok h
  · exact hactive
  · rfl

theorem active_save (h : rows.save fault schedule = .ok (rows', stored)) (k : String) :
    Active rows' k ↔ if k = schedule.id then stored.isActive = true else Active rows k := by
  rw [(save_eq_ok h).1]
  exact active_insert rows schedule.id k stored

theorem lookup_save_ne (h : rows.save fault schedule = .ok (rows', stored)) {k : String}
    (hk : k ≠ schedule.id) : rows'.lookup k = rows.lookup k := by
  rw [(save_eq_ok h).1]
  exact AList.lookup_insert_ne hk

theorem active_save_of_inactive (h : rows.save fault schedule = .ok (rows', stored))
    (hstored : stored.isActive = false) (k : String) :
    Active rows' k ↔ k ≠ schedule.id ∧ Active rows k := by
  rw [active_save h k, hstored]
  by_cases hk : k = schedule.id
  · simp [hk]
  · simp [hk]

theorem Keyed.save (hkeyed : Keyed rows) (h : rows.save fault schedule = .ok (rows', stored)) :
    Keyed rows' := by
  rw [(save_eq_ok h).1]
  exact hkeyed.insert (save_id h)

end Save

/-! ## Calls -/

/-- The row is inactive or gone, and the entry with it. -/
theorem Inv.drop (h : s.Inv) (hkeyed : Keyed rows)
    (hactive : ∀ k, Active rows k ↔ k ≠ id ∧ Active s.rows k) :
    ({ s with rows }.removeFromCron id).Inv := by
  have hwired : { s with rows }.Wired :=
    ⟨h.wired.fresh, h.wired.nodup, h.wired.registered, h.wired.backed⟩
  refine ⟨?_, ?_, hwired.removeFromCron id, ?_⟩
  · rw [removeFromCron, isLeader_removeExisting]
    exact h.leads
  · rw [removeFromCron, rows_removeExisting]
    exact hkeyed
  · intro k
    rw [removeFromCron, rows_removeExisting, AList.mem_erase, h.active, hactive]

/-- The row is active, and has an entry of its own. -/
theorem Inv.put (h : s.Inv) (hkeyed : Keyed rows)
    (hactive : ∀ k, Active rows k ↔ k = schedule.id ∨ Active s.rows k) :
    (({ s with rows }.removeExisting schedule.id).scheduleEntry schedule).Inv := by
  have hwired : { s with rows }.Wired :=
    ⟨h.wired.fresh, h.wired.nodup, h.wired.registered, h.wired.backed⟩
  refine ⟨?_, ?_, hwired.scheduleEntry schedule, ?_⟩
  · rw [scheduleEntry, isLeader_removeExisting]
    exact h.leads
  · rw [scheduleEntry, rows_removeExisting]
    exact hkeyed
  · intro k
    rw [scheduleEntry, rows_removeExisting, schedules_removeExisting, AList.mem_insert, h.active,
      hactive]

section Calls

variable [Parsers]

theorem addIfLeader_of_parse (h : s.isLeader = true) (schedule : Schedule)
    (hparse : parseSeconds schedule.cronExpression = true) (err : Error) :
    s.addIfLeader schedule err = (none, (s.removeExisting schedule.id).scheduleEntry schedule) := by
  rw [addIfLeader, if_pos h, addToCron, if_pos hparse]

theorem addIfLeader_of_not_parse (h : s.isLeader = true) (schedule : Schedule)
    (hparse : parseSeconds schedule.cronExpression = false) (err : Error) :
    s.addIfLeader schedule err = (some err, s.removeExisting schedule.id) := by
  rw [addIfLeader, if_pos h, addToCron, if_neg (by simp [hparse])]

/-- The calls that fail without a trace, or succeed: what `AddSchedule` accepts is refused by the
repository, and what `UpdateSchedule` accepts too, or saved inactive; a schedule to delete is
deleted, or has no entry; and one to resume has six fields. -/
def Clean (s : CronScheduler) : Call → Prop
  | .add fault schedule => parseStandard schedule.cronExpression = true →
      ∃ err, s.rows.create fault schedule = .error err
  | .update fault schedule => parseStandard schedule.cronExpression = true →
      ∀ rows stored, s.rows.save fault schedule = .ok (rows, stored) → stored.isActive = false
  | .delete fault scheduleID => fault ≠ none → scheduleID ∉ s.schedules
  | .pause _ _ _ => True
  | .resume getFault saveFault scheduleID => ∀ schedule rows stored,
      s.rows.getByID getFault scheduleID = .ok schedule →
      s.rows.save saveFault { schedule with isActive := true } = .ok (rows, stored) →
      parseSeconds schedule.cronExpression = true

/-- From a consistent scheduler a call leaves no trace of a failure exactly if it is one of those,
and the scheduler stays consistent. -/
def Settled (s : CronScheduler) (c : Call) : Prop :=
  (s.FailsCleanly c ↔ s.Clean c) ∧ (s.Clean c → (s.step c).Inv)

section Settled

variable {s s' : CronScheduler} {c : Call} {err : Error}

theorem settled_of_unchanged (h : s.Inv) (hcall : s.call c = (some err, s)) (hc : s.Clean c) :
    s.Settled c := by
  have hstep : s.step c = s := by rw [step, hcall]
  refine ⟨iff_of_true ?_ hc, fun _ => ?_⟩
  · rw [FailsCleanly, hstep]
    exact fun _ => ⟨rfl, rfl, rfl⟩
  · rw [hstep]
    exact h

theorem settled_of_success (hcall : s.call c = (none, s')) (h' : s'.Inv) (hc : s.Clean c) :
    s.Settled c := by
  refine ⟨iff_of_true ?_ hc, fun _ => ?_⟩
  · rw [FailsCleanly, hcall]
    exact fun hne => absurd rfl hne
  · rw [step, hcall]
    exact h'

theorem settled_of_trace (hcall : s.call c = (some err, s'))
    (htrace : ¬ (s'.rows = s.rows ∧ s'.schedules = s.schedules ∧ s'.entries = s.entries))
    (hc : ¬ s.Clean c) : s.Settled c := by
  refine ⟨iff_of_false ?_ hc, fun hclean => absurd hclean hc⟩
  rw [FailsCleanly, step, hcall]
  exact fun hclean => htrace (hclean (by simp))

end Settled

/-- No expression that `AddSchedule` accepts gets an entry, so only the row can stop it. -/
theorem settled_add (h : s.Inv) (fault : Option String) (schedule : Schedule) :
    s.Settled (.add fault schedule) := by
  by_cases hparse : parseStandard schedule.cronExpression = true
  · cases hcreate : s.rows.create fault schedule with
    | error err =>
      have hcall : s.call (.add fault schedule) = (some (.failedToSave err), s) := by
        simp only [call, addSchedule, if_pos hparse, hcreate]
      exact settled_of_unchanged h hcall (fun _ => ⟨err, hcreate⟩)
    | ok created =>
      obtain ⟨rows, stored⟩ := created
      obtain ⟨hid, rfl, rfl⟩ := create_eq_ok hcreate
      have hcall : s.call (.add fault schedule) = (some .failedToAddToCron,
          { s with rows := s.rows.insert schedule.id schedule.withDefaults }.removeExisting
            schedule.id) := by
        simp only [call, addSchedule, if_pos hparse, hcreate]
        exact addIfLeader_of_not_parse
          (s := { s with rows := s.rows.insert schedule.id schedule.withDefaults }) h.leads
          schedule.withDefaults (disjoint hparse) _
      refine settled_of_trace hcall ?_ ?_
      · rintro ⟨hrows, -⟩
        rw [rows_removeExisting] at hrows
        exact hid (hrows ▸ (AList.mem_insert _).mpr (.inl rfl))
      · intro hclean
        obtain ⟨err, herr⟩ := hclean hparse
        rw [hcreate] at herr
        cases herr
  · have hcall : s.call (.add fault schedule) = (some .invalidExpression, s) := by
      simp only [call, addSchedule, if_neg hparse]
    exact settled_of_unchanged h hcall (fun hp => absurd hp hparse)

/-- `UpdateSchedule` accepts no expression that gets an entry, either. -/
theorem settled_update (h : s.Inv) (fault : Option String) (schedule : Schedule) :
    s.Settled (.update fault schedule) := by
  by_cases hparse : parseStandard schedule.cronExpression = true
  · cases hsave : s.rows.save fault schedule with
    | error err =>
      have hcall : s.call (.update fault schedule) = (some (.failedToUpdate err), s) := by
        simp only [call, updateSchedule, if_pos hparse, hsave]
      refine settled_of_unchanged h hcall (fun _ rows stored hok => ?_)
      rw [hsave] at hok
      cases hok
    | ok saved =>
      obtain ⟨rows, stored⟩ := saved
      have hactive := active_save hsave
      rw [← save_id hsave] at hactive
      have hleads : ({ s with rows }.removeFromCron stored.id).isLeader = true := by
        rw [removeFromCron, isLeader_removeExisting]
        exact h.leads
      cases hstored : stored.isActive with
      | true =>
        -- the expression has five fields: the entry is removed and none is added
        have hcall : s.call (.update fault schedule) = (some .failedToUpdateCron,
            ({ s with rows }.removeFromCron stored.id).removeExisting stored.id) := by
          simp only [call, updateSchedule, if_pos hparse, hsave]
          rw [if_pos h.leads, if_pos hstored]
          refine addIfLeader_of_not_parse hleads stored ?_ _
          rw [save_cronExpression hsave]
          exact disjoint hparse
        refine settled_of_trace hcall ?_ ?_
        · rintro ⟨hsame, hschedules, -⟩
          rw [rows_removeExisting, removeFromCron, rows_removeExisting] at hsame
          rw [schedules_removeExisting, removeFromCron] at hschedules
          have hmem : stored.id ∈ s.schedules := by
            rw [h.active, ← hsame, hactive, if_pos rfl]
            exact hstored
          rw [← hschedules] at hmem
          exact (AList.mem_erase.mp hmem).1 rfl
        · intro hclean
          rw [hclean hparse rows stored hsave] at hstored
          cases hstored
      | false =>
        have hcall : s.call (.update fault schedule) =
            (none, { s with rows }.removeFromCron stored.id) := by
          simp only [call, updateSchedule, if_pos hparse, hsave]
          rw [if_pos h.leads, if_neg (by simp [hstored])]
        refine settled_of_success hcall (h.drop (h.keyed.save hsave) ?_) ?_
        · rw [save_id hsave]
          exact active_save_of_inactive hsave hstored
        intro _ rows' stored' hok
        rw [hsave] at hok
        obtain ⟨-, rfl⟩ := Prod.mk.inj (Except.ok.inj hok)
        exact hstored
  · have hcall : s.call (.update fault schedule) = (some .invalidExpression, s) := by
      simp only [call, updateSchedule, if_neg hparse]
    exact settled_of_unchanged h hcall (fun hp => absurd hp hparse)

/-- `DeleteSchedule` has removed the entry when the repository refuses. -/
theorem settled_delete (h : s.Inv) (fault : Option String) (id : String) :
    s.Settled (.delete fault id) := by
  cases fault with
  | some err =>
    have hcall : s.call (.delete (some err) id) =
        (some (.failedToDelete err), s.removeFromCron id) := rfl
    by_cases hid : id ∈ s.schedules
    · refine settled_of_trace hcall ?_ (fun hclean => hclean (by simp) hid)
      rintro ⟨-, hschedules, -⟩
      rw [removeFromCron] at hschedules
      rw [← hschedules] at hid
      exact (AList.mem_erase.mp hid).1 rfl
    · rw [removeFromCron_of_notMem hid] at hcall
      exact settled_of_unchanged h hcall (fun _ => hid)
  | none =>
    have hcall : s.call (.delete none id) =
        (none, { s with rows := s.rows.erase id }.removeFromCron id) := by
      cases hlookup : s.schedules.lookup id with
      | none => simp [call, deleteSchedule, removeFromCron, removeExisting, hlookup]
      | some entryID =>
        simp [call, deleteSchedule, removeFromCron, removeExisting, hlookup, removeEntry]
    refine settled_of_success hcall (h.drop (h.keyed.erase id) (fun k => ?_))
      (fun hne => absurd rfl hne)
    rw [Active, lookup_erase]
    by_cases hk : k = id
    · simp [hk]
    · simp only [hk, if_false, ne_eq, not_false_eq_true, true_and]
      exact Iff.rfl

theorem settled_pause (h : s.Inv) (getFault saveFault : Option String) (id : String) :
    s.Settled (.pause getFault saveFault id) := by
  cases hget : s.rows.getByID getFault id with
  | error err =>
    have hcall : s.call (.pause getFault saveFault id) = (some (.repository err), s) := by
      simp only [call, pauseSchedule, hget]
    exact settled_of_unchanged h hcall trivial
  | ok schedule =>
    have hlookup := getByID_eq_ok hget
    obtain rfl := h.keyed id schedule hlookup
    cases hsave : s.rows.save saveFault { schedule with isActive := false } with
    | error err =>
      have hcall : s.call (.pause getFault saveFault schedule.id) =
          (some (.repository err), s) := by
        simp only [call, pauseSchedule, hget, hsave]
      exact settled_of_unchanged h hcall trivial
    | ok saved =>
      obtain ⟨rows, stored⟩ := saved
      have hcall : s.call (.pause getFault saveFault schedule.id) =
          (none, { s with rows }.removeFromCron schedule.id) := by
        simp only [call, pauseSchedule, hget, hsave]
      -- the row is there, so it is updated and gets no defaults
      have hstored : stored.isActive = false := by
        obtain ⟨-, ⟨-, rfl⟩ | ⟨hnone, -⟩⟩ := save_eq_ok hsave
        · rfl
        · exact absurd (AList.lookup_isSome.mp (by rw [hlookup]; rfl)) hnone
      have hactive := active_save_of_inactive hsave hstored
      exact settled_of_success hcall (h.drop (h.keyed.save hsave) hactive) trivial

/-- `ResumeSchedule` has saved the row when the expression is refused. -/
theorem settled_resume (h : s.Inv) (getFault saveFault : Option String) (id : String) :
    s.Settled (.resume getFault saveFault id) := by
  cases hget : s.rows.getByID getFault id with
  | error err =>
    have hcall : s.call (.resume getFault saveFault id) = (some (.repository err), s) := by
      simp only [call, resumeSchedule, hget]
    refine settled_of_unchanged h hcall (fun schedule rows stored hok => ?_)
    rw [hget] at hok
    cases hok
  | ok schedule =>
    have hlookup := getByID_eq_ok hget
    obtain rfl := h.keyed id schedule hlookup
    cases hsave : s.rows.save saveFault { schedule with isActive := true } with
    | error err =>
      have hcall : s.call (.resume getFault saveFault schedule.id) =
          (some (.repository err), s) := by
        simp only [call, resumeSchedule, hget, hsave]
      refine settled_of_unchanged h hcall (fun found rows stored hok hok' => ?_)
      rw [hget] at hok
      cases hok
      rw [hsave] at hok'
      cases hok'
    | ok saved =>
      obtain ⟨rows, stored⟩ := saved
      have hstored := save_isActive hsave rfl
      have hactive : ∀ k, Active rows k ↔ k = stored.id ∨ Active s.rows k := by
        intro k
        rw [active_save hsave k, save_id hsave, hstored]
        by_cases hk : k = schedule.id
        · simp [hk]
        · simp [hk]
      by_cases hparse : parseSeconds stored.cronExpression = true
      · have hcall : s.call (.resume getFault saveFault schedule.id) = (none,
            ({ s with rows }.removeExisting stored.id).scheduleEntry stored) := by
          simp only [call, resumeSchedule, hget, hsave]
          exact addIfLeader_of_parse (s := { s with rows }) h.leads stored hparse _
        refine settled_of_success hcall (h.put (h.keyed.save hsave) hactive) ?_
        intro found _ _ hok _
        rw [hget] at hok
        cases hok
        rw [← save_cronExpression hsave]
        exact hparse
      · have hcall : s.call (.resume getFault saveFault schedule.id) =
            (some .failedToParse, { s with rows }.removeExisting stored.id) := by
          simp only [call, resumeSchedule, hget, hsave]
          exact addIfLeader_of_not_parse (s := { s with rows }) h.leads stored
            (by simpa using hparse) _
        refine settled_of_trace hcall ?_ ?_
        · -- if the schedule was active before, its entry is gone
          rintro ⟨hrows, -, hentries⟩
          rw [rows_removeExisting] at hrows
          have hmem : stored.id ∈ s.schedules := by
            rw [h.active, ← hrows, hactive]
            exact .inl rfl
          obtain ⟨entryID, hreg⟩ := Option.isSome_iff_exists.mp (AList.lookup_isSome.mpr hmem)
          obtain ⟨e, he, -, hid⟩ := h.wired.backed _ _ hreg
          rw [← hentries] at he
          exact ne_of_mem_removeExisting (s := { s with rows }) h.wired.registered he hid
        · intro hclean
          refine hparse ?_
          rw [save_cronExpression hsave]
          exact hclean schedule rows stored hget hsave

theorem Inv.settled (h : s.Inv) (c : Call) : s.Settled c := by
  cases c with
  | add fault schedule => exact settled_add h fault schedule
  | update fault schedule => exact settled_update h fault schedule
  | delete fault scheduleID => exact settled_delete h fault scheduleID
  | pause getFault saveFault scheduleID => exact settled_pause h getFault saveFault scheduleID
  | resume getFault saveFault scheduleID => exact settled_resume h getFault saveFault scheduleID

/-! ## Becoming leader -/

@[simp] theorem isLeader_addIfLeader (s : CronScheduler) (schedule : Schedule) (err : Error) :
    (s.addIfLeader schedule err).2.isLeader = s.isLeader := by
  by_cases hleads : s.isLeader = true
  · cases hparse : parseSeconds schedule.cronExpression with
    | true =>
      rw [addIfLeader_of_parse hleads schedule hparse, scheduleEntry]
      exact isLeader_removeExisting s _
    | false =>
      rw [addIfLeader_of_not_parse hleads schedule hparse]
      exact isLeader_removeExisting s _
  · rw [addIfLeader, if_neg hleads]

@[simp] theorem isLeader_loadSchedules (s : CronScheduler) (schedules : List Schedule) :
    (s.loadSchedules schedules).isLeader = s.isLeader := by
  induction schedules generalizing s with
  | nil => rfl
  | cons first rest ih =>
    rw [loadSchedules, foldl_cons, ← loadSchedules, ih, isLeader_addIfLeader]

/-- Loading registers every schedule if the parser with seconds accepts them all. -/
theorem loadSchedules_spec (hleads : s.isLeader = true) (h : s.Wired) (schedules : List Schedule)
    (hparse : ∀ schedule ∈ schedules, parseSeconds schedule.cronExpression = true) :
    (s.loadSchedules schedules).isLeader = true ∧ (s.loadSchedules schedules).rows = s.rows ∧
      (s.loadSchedules schedules).Wired ∧
      ∀ k, k ∈ (s.loadSchedules schedules).schedules ↔
        (∃ schedule ∈ schedules, schedule.id = k) ∨ k ∈ s.schedules := by
  induction schedules generalizing s with
  | nil => exact ⟨hleads, rfl, h, by simp [loadSchedules]⟩
  | cons first rest ih =>
    obtain ⟨hfirst, hrest⟩ := forall_mem_cons.mp hparse
    have hload : s.loadSchedules (first :: rest) =
        ((s.removeExisting first.id).scheduleEntry first).loadSchedules rest := by
      rw [loadSchedules, foldl_cons, addIfLeader_of_parse hleads first hfirst, ← loadSchedules]
    have hnext : ((s.removeExisting first.id).scheduleEntry first).isLeader = true := by
      rw [scheduleEntry, isLeader_removeExisting]
      exact hleads
    obtain ⟨h1, h2, h3, h4⟩ := ih hnext (h.scheduleEntry first) hrest
    rw [hload]
    refine ⟨h1, h2.trans (by rw [scheduleEntry, rows_removeExisting]), h3, fun k => ?_⟩
    rw [h4, scheduleEntry, schedules_removeExisting, AList.mem_insert]
    simp only [mem_cons, exists_eq_or_imp]
    rw [@eq_comm _ k, or_left_comm, or_assoc]

/-- A scheduler that becomes leader is consistent, if the active schedules have expressions of
six fields. -/
theorem inv_loadSchedules (hkeyed : Keyed rows) {schedules : List Schedule}
    (hactive : ∀ k, (∃ schedule ∈ schedules, schedule.id = k) ↔ Active rows k)
    (hparse : ∀ schedule ∈ schedules, parseSeconds schedule.cronExpression = true) :
    (CronScheduler.loadSchedules { rows } schedules).Inv := by
  obtain ⟨h1, h2, h3, h4⟩ := loadSchedules_spec (s := { rows }) rfl
    ⟨by simp, by simp, by simp, fun id n hid => by cases hid⟩ schedules hparse
  refine ⟨h1, h2 ▸ hkeyed, h3, fun k => ?_⟩
  rw [h4, h2, ← hactive]
  exact or_iff_left (by simp)

/-- **Three stores.** From a leading scheduler whose map and engine hold the active schedules, over
any calls the three stores agree and failing calls leave them as they were, exactly if every call is
one that fails without a trace. -/
theorem stores_agree_iff {s : CronScheduler} (h : s.Inv) (cs : List Call) :
    (Runs.Always step Consistent s cs ∧ Runs.Along step FailsCleanly s cs) ↔
      Runs.Along step Clean s cs := by
  have hiff : Runs.Along step FailsCleanly s cs ↔ Runs.Along step Clean s cs :=
    Runs.along_iff_along (P := Inv) (fun s c hs => (hs.settled c).2)
      (fun s c hs => (hs.settled c).1) h
  rw [hiff]
  refine and_iff_right_of_imp (fun hclean pre hpre => ?_)
  exact (hclean.always (fun s c hs => (hs.settled c).2) h pre hpre).consistent

end Calls

def fieldCount (e : String) : ℕ := ((e.toList.splitOnP Char.isWhitespace).filter (· ≠ [])).length

/-- A descriptor such as `@daily`. -/
def isDescriptor (e : String) : Bool := e.toList.head? = some '@'

/-- The number of fields: `cron.ParseStandard` takes descriptors and five, the parser of `addToCron`
takes six. -/
instance fieldParsers : Parsers where
  parseStandard e := isDescriptor e || fieldCount e = 5
  parseSeconds e := !isDescriptor e && fieldCount e = 6
  disjoint {e} h := by
    rw [Bool.or_eq_true, decide_eq_true_iff] at h
    rcases h with h | h
    · rw [h]
      rfl
    · rw [h]
      simp

def hourly : Schedule := { id := "s", cronExpression := "0 0 * * * *" }

/-- A leading scheduler with that schedule. -/
def hourlyScheduler : CronScheduler :=
  CronScheduler.loadSchedules { rows := (∅ : Rows).insert "s" hourly } [hourly]

theorem inv_hourlyScheduler : hourlyScheduler.Inv := by
  have hempty : Keyed ∅ := fun id schedule h => by cases h
  have hkeyed : Keyed ((∅ : Rows).insert "s" hourly) := hempty.insert rfl
  refine inv_loadSchedules hkeyed (fun k => ?_) ?_
  · rw [active_insert]
    by_cases hk : k = "s"
    · simp [hk, hourly]
    simp only [hk, if_false, mem_singleton, exists_eq_left]
    refine iff_of_false (fun heq => hk heq.symm) ?_
    rintro ⟨schedule, hlookup, -⟩
    cases hlookup
  · decide +kernel

/-- The schedule is paused, resumed and deleted. -/
theorem stores_agree_hourly : Runs.Always step Consistent hourlyScheduler
        [.pause none none "s", .resume none none "s", .delete none "s"] ∧
      Runs.Along step FailsCleanly hourlyScheduler
        [.pause none none "s", .resume none none "s", .delete none "s"] := by
  refine (stores_agree_iff inv_hourlyScheduler _).mpr ⟨trivial, ?_, fun hne => absurd rfl hne,
    trivial⟩
  intro schedule rows stored hget _
  have hpaused : (step hourlyScheduler (.pause none none "s")).rows.getByID none "s" =
      .ok { hourly with isActive := false } := by decide +kernel
  rw [hpaused] at hget
  rw [← Except.ok.inj hget]
  decide +kernel

/-- A schedule that is added gets no entry; an update takes the entry away, and so does a deletion
that fails. Each returns an error. -/
theorem calls_leave_traces :
    ((call hourlyScheduler (.add none { id := "t", cronExpression := "0 * * * *" })).1 =
        some .failedToAddToCron ∧
      (step hourlyScheduler (.add none { id := "t", cronExpression := "0 * * * *" })).rows.lookup
        "t" = some { id := "t", cronExpression := "0 * * * *" } ∧
      (step hourlyScheduler (.add none { id := "t", cronExpression := "0 * * * *" })).entries =
        hourlyScheduler.entries) ∧
    ((call hourlyScheduler (.update none { hourly with cronExpression := "0 * * * *" })).1 =
        some .failedToUpdateCron ∧
      (step hourlyScheduler (.update none { hourly with cronExpression := "0 * * * *" })).entries =
        []) ∧
    ((call hourlyScheduler (.delete (some "timeout") "s")).1 = some (.failedToDelete "timeout") ∧
      (step hourlyScheduler (.delete (some "timeout") "s")).rows.lookup "s" = some hourly ∧
      (step hourlyScheduler (.delete (some "timeout") "s")).entries = []) := by
  decide +kernel

end CronScheduler

end LinkFlow.Cron
