/-
The statistics of workflows (`internal/workflow/app/analytics/collector.go`).

`RecordExecution` counts executions in a buffer with one entry for every workflow. A flush hands
the entries to a background writer and empties the buffer, and the writer saves each entry as the
whole row of its workflow. So a row holds what one flush has taken, not the sum of all of them:
the stored counts are right exactly if no workflow was in the buffer at two flushes, and if every
execution that was recorded in a final status had its finishing time set (`counts_right_iff`).
-/
import LinkFlow.Execution
import LinkFlow.Lib.Runs

set_option autoImplicit false

namespace LinkFlow.Analytics

open List GoMap

/-! ## The collector -/

/-- `ErrorStats`, as `recordError` uses it. -/
structure ErrorStats where
  errorType : String
  (count lastSeen : ℤ)
deriving DecidableEq

/-- Durations and times are integers. -/
structure WorkflowStats where
  workflowID : String
  (totalExecutions successfulRuns failedRuns cancelledRuns averageRuntime minRuntime : ℤ := 0)
  maxRuntime : ℤ := 0
  (lastExecution lastSuccessfulRun lastFailedRun : Option ℤ := none)
  commonErrors : List ErrorStats := []
  updatedAt : ℤ := 0
deriving DecidableEq

namespace WorkflowStats

variable (stats : WorkflowStats)

/-- `if execution.FinishedAt != nil`: the runtime statistics. -/
def addRuntime (runtime : ℤ) : WorkflowStats :=
  if stats.averageRuntime = 0 then
    { stats with averageRuntime := runtime, minRuntime := runtime, maxRuntime := runtime }
  else
    { stats with
      averageRuntime := (stats.averageRuntime * (stats.totalExecutions - 1) + runtime).tdiv
        stats.totalExecutions
      minRuntime := if runtime < stats.minRuntime then runtime else stats.minRuntime
      maxRuntime := if stats.maxRuntime < runtime then runtime else stats.maxRuntime }

/-- The count of the error, of at most ten of them. -/
def recordError (errorMsg : String) (now : ℤ) : WorkflowStats :=
  if errorMsg = "" then stats
  else
    let errors := if stats.commonErrors.any (fun e => e.errorType = errorMsg) then
        stats.commonErrors
      else stats.commonErrors ++ [{ errorType := errorMsg, count := 0, lastSeen := 0 }]
    let i := errors.findIdx (fun e => e.errorType = errorMsg)
    let counted := errors.modify i (fun e => { e with count := e.count + 1, lastSeen := now })
    { stats with commonErrors := counted.take 10 }

def addStatus (execution : WorkflowExecution) (now seen : ℤ) : WorkflowStats :=
  match execution.status with
  | .completed =>
    { stats with successfulRuns := stats.successfulRuns + 1, lastSuccessfulRun := some now }
  | .failed =>
    recordError { stats with failedRuns := stats.failedRuns + 1, lastFailedRun := some now }
      execution.error seen
  | .cancelled => { stats with cancelledRuns := stats.cancelledRuns + 1 }
  | _ => stats

/-- What `RecordExecution` does to the entry of the workflow. -/
def add (execution : WorkflowExecution) (now seen : ℤ) : WorkflowStats :=
  let counted :=
    { stats with totalExecutions := stats.totalExecutions + 1, lastExecution := some now }
  match execution.finishedAt with
  | none => counted
  | some _ => (counted.addRuntime execution.executionTime).addStatus execution now seen

end WorkflowStats

/-- The buffer, the background writers with their rows, and the table. `unflushed` and `flushed` are
not in the program: the executions recorded since the last flush, and those that each has taken. -/
structure StatsCollector where
  buffer : GoMap String WorkflowStats := ∅
  writers : List (List WorkflowStats) := []
  rows : GoMap String WorkflowStats := ∅
  unflushed : List WorkflowExecution := []
  flushed : List (List WorkflowExecution) := []

/-- The whole row is written. A row without an ID is only inserted. -/
def save (rows : GoMap String WorkflowStats) (stats : WorkflowStats) : GoMap String WorkflowStats :=
  if stats.workflowID = "" ∧ stats.workflowID ∈ rows then rows
  else rows.insert stats.workflowID stats

/-- A call of `RecordExecution`, a flush, or the next `Save` of a background writer. -/
inductive Event
  | record (execution : WorkflowExecution) (now seen : ℤ)
  | flush (order : RangeOrder) (now : ℤ)
  | write (writer : ℕ)

namespace StatsCollector

variable (sc : StatsCollector)

def recordExecution (execution : WorkflowExecution) (now seen : ℤ) : StatsCollector :=
  let stats := sc.buffer.get { workflowID := execution.workflowID } execution.workflowID
  { sc with
    buffer := sc.buffer.insert execution.workflowID (stats.add execution now seen),
    unflushed := sc.unflushed ++ [execution] }

def flush (order : RangeOrder) (now : ℤ) : StatsCollector :=
  if sc.buffer.len = 0 then sc
  else
    let toFlush := (order.run 399 sc.buffer.entries).map
      (fun e => { e.2 with updatedAt := now })
    { sc with
      buffer := ∅, writers := sc.writers ++ [toFlush], unflushed := [],
      flushed := sc.flushed ++ [sc.unflushed] }

/-- The next `Save` of a writer. -/
def write (writer : ℕ) : StatsCollector :=
  match sc.writers[writer]? with
  | some (stats :: rest) =>
    { sc with writers := sc.writers.set writer rest, rows := save sc.rows stats }
  | _ => sc

def step : Event → StatsCollector
  | .record execution now seen => sc.recordExecution execution now seen
  | .flush order now => sc.flush order now
  | .write writer => sc.write writer

end StatsCollector

/-! ## What the counts are for -/

/-- The four counters of a row. -/
inductive Counter
  | total | successful | failed | cancelled
deriving DecidableEq

def WorkflowStats.count (stats : WorkflowStats) : Counter → ℤ
  | .total => stats.totalExecutions
  | .successful => stats.successfulRuns
  | .failed => stats.failedRuns
  | .cancelled => stats.cancelledRuns

namespace Counter

def wants : Counter → WorkflowExecution → Bool
  | .total, _ => true
  | .successful, e => e.status = .completed
  | .failed, e => e.status = .failed
  | .cancelled, e => e.status = .cancelled

def counts (c : Counter) (e : WorkflowExecution) : Bool :=
  c.wants e && (c = .total || e.finishedAt.isSome)

def number (c : Counter) (id : String) (l : List WorkflowExecution) : ℤ :=
  l.countP (fun e => e.workflowID = id && c.wants e)

def counted (c : Counter) (id : String) (l : List WorkflowExecution) : ℤ :=
  l.countP (fun e => e.workflowID = id && c.counts e)

end Counter

namespace StatsCollector

variable (sc : StatsCollector)

/-- All executions recorded so far. -/
def recorded : List WorkflowExecution := sc.flushed.flatten ++ sc.unflushed

/-- All flushes have finished and nothing is left in the buffer. -/
def Quiescent : Prop := sc.buffer.len = 0 ∧ ∀ rows ∈ sc.writers, rows = []

/-- The stored statistics of every workflow count all executions recorded for it; a workflow
without a row has counts of zero. -/
def CountsRight : Prop :=
  ∀ id c, (sc.rows.get { workflowID := id } id).count c = c.number id sc.recorded

/-- No workflow was in the buffer at two flushes. -/
def FlushedOnce : Prop :=
  ∀ id, sc.flushed.countP (fun batch => batch.any (fun e => e.workflowID = id)) ≤ 1

/-- Every execution that was recorded as completed, failed or cancelled had its finishing time. -/
def Finished : Prop := ∀ e ∈ sc.recorded, ∀ c : Counter, c.wants e = true → c.counts e = true

end StatsCollector

/-! ## One entry -/

namespace WorkflowStats

variable (stats : WorkflowStats) (e : WorkflowExecution) (now seen : ℤ)

@[simp] theorem workflowID_addRuntime (runtime : ℤ) :
    (stats.addRuntime runtime).workflowID = stats.workflowID := by
  unfold addRuntime
  split_ifs <;> rfl

@[simp] theorem count_addRuntime (runtime : ℤ) (c : Counter) :
    (stats.addRuntime runtime).count c = stats.count c := by
  unfold addRuntime
  split_ifs <;> cases c <;> rfl

@[simp] theorem workflowID_recordError (errorMsg : String) :
    (stats.recordError errorMsg now).workflowID = stats.workflowID := by
  unfold recordError
  split_ifs <;> rfl

@[simp] theorem count_recordError (errorMsg : String) (c : Counter) :
    (stats.recordError errorMsg now).count c = stats.count c := by
  unfold recordError
  split_ifs <;> cases c <;> rfl

theorem workflowID_addStatus : (stats.addStatus e now seen).workflowID = stats.workflowID := by
  unfold addStatus
  split <;> simp

theorem count_addStatus (c : Counter) : (stats.addStatus e now seen).count c
      = stats.count c + if c ≠ .total ∧ c.wants e = true then 1 else 0 := by
  unfold addStatus
  split
  · next h => cases c <;> simp [count, Counter.wants, h]
  · next h =>
      rw [count_recordError]
      cases c <;> simp [count, Counter.wants, h]
  · next h => cases c <;> simp [count, Counter.wants, h]
  · next hcompleted hfailed hcancelled =>
      cases c with
      | total => simp
      | successful => simpa [Counter.wants] using hcompleted
      | failed => simpa [Counter.wants] using hfailed
      | cancelled => simpa [Counter.wants] using hcancelled

theorem workflowID_add : (stats.add e now seen).workflowID = stats.workflowID := by
  unfold add
  cases e.finishedAt with
  | none => rfl
  | some _ => rw [workflowID_addStatus, workflowID_addRuntime]

theorem count_add (c : Counter) :
    (stats.add e now seen).count c = stats.count c + if c.counts e = true then 1 else 0 := by
  unfold add
  cases hfinished : e.finishedAt with
  | none => cases c <;> simp [count, Counter.counts, Counter.wants, hfinished]
  | some _ =>
    rw [count_addStatus, count_addRuntime]
    cases c <;> simp [count, Counter.counts, Counter.wants, hfinished]

end WorkflowStats

/-- The entry holds the counts of its workflow in the list, and the workflow occurs there. -/
structure WorkflowStats.Tallies (stats : WorkflowStats) (l : List WorkflowExecution) : Prop where
  count : ∀ c : Counter, stats.count c = c.counted stats.workflowID l
  occurs : ∃ e ∈ l, e.workflowID = stats.workflowID

namespace Counter

theorem counted_append_singleton (c : Counter) (id : String) (l : List WorkflowExecution)
    (e : WorkflowExecution) : c.counted id (l ++ [e]) = c.counted id l +
      if e.workflowID = id ∧ c.counts e = true then 1 else 0 := by
  rw [counted, countP_append, countP_singleton, counted]
  by_cases h : e.workflowID = id ∧ c.counts e = true
  · simp [h]
  · rw [if_neg h, if_neg (by simpa using h)]
    simp

theorem counted_eq_zero {c : Counter} {id : String} {l : List WorkflowExecution}
    (h : ∀ e ∈ l, e.workflowID ≠ id) : c.counted id l = 0 := by
  rw [counted, Int.natCast_eq_zero, countP_eq_zero]
  intro e he
  simp [h e he]

end Counter

/-! ## All steps -/

namespace StatsCollector

/-- The buffer holds the counts since the last flush, a row those of one flush, and every workflow
of a flush is stored or on its way. -/
structure Inv (sc : StatsCollector) : Prop where
  buffered : ∀ id stats, sc.buffer.lookup id = some stats →
    stats.workflowID = id ∧ stats.Tallies sc.unflushed
  complete : ∀ e ∈ sc.unflushed, e.workflowID ∈ sc.buffer
  pending : ∀ rows ∈ sc.writers, ∀ stats ∈ rows, ∃ batch ∈ sc.flushed, stats.Tallies batch
  stored : ∀ id stats, sc.rows.lookup id = some stats →
    stats.workflowID = id ∧ ∃ batch ∈ sc.flushed, stats.Tallies batch
  written : ∀ batch ∈ sc.flushed, ∀ e ∈ batch, e.workflowID ∈ sc.rows ∨
    ∃ rows ∈ sc.writers, ∃ stats ∈ rows, stats.workflowID = e.workflowID

variable {sc : StatsCollector}

theorem Inv.entry (h : sc.Inv) (id : String) :
    (sc.buffer.get { workflowID := id } id).workflowID = id ∧
      ∀ c, (sc.buffer.get { workflowID := id } id).count c = Counter.counted c id sc.unflushed := by
  unfold GoMap.get
  cases hlookup : sc.buffer.lookup id with
  | some stats =>
    obtain ⟨hid, htallies⟩ := h.buffered _ _ hlookup
    refine ⟨hid, fun c => ?_⟩
    rw [Option.getD_some, htallies.count c, hid]
  | none =>
    have hnew : ∀ e ∈ sc.unflushed, e.workflowID ≠ id := by
      intro e he heq
      have hmem := h.complete e he
      rw [heq, ← AList.lookup_isSome, hlookup] at hmem
      cases hmem
    refine ⟨rfl, fun c => ?_⟩
    rw [Option.getD_none, Counter.counted_eq_zero hnew]
    cases c <;> rfl

variable {l : List WorkflowExecution} {id : String} {batches : List (List WorkflowExecution)}

theorem tallies_append_of_ne {stats : WorkflowStats} (h : stats.Tallies l) {e : WorkflowExecution}
    (hne : e.workflowID ≠ stats.workflowID) : stats.Tallies (l ++ [e]) where
  count := by
    intro c
    rw [h.count c, Counter.counted_append_singleton, if_neg (fun hsame => hne hsame.1), add_zero]
  occurs := by
    obtain ⟨e', he', hoccurs⟩ := h.occurs
    exact ⟨e', mem_append_left _ he', hoccurs⟩

theorem Inv.recordExecution (h : sc.Inv) (e : WorkflowExecution) (now seen : ℤ) :
    (sc.recordExecution e now seen).Inv := by
  refine ⟨?_, ?_, h.pending, h.stored, h.written⟩
  · obtain ⟨hid, hentry⟩ := h.entry e.workflowID
    intro id stats hlookup
    rw [StatsCollector.recordExecution, lookup_insert] at hlookup
    split_ifs at hlookup with heq
    · cases hlookup
      rw [heq]
      refine ⟨(WorkflowStats.workflowID_add _ _ _ _).trans hid, fun c => ?_,
        e, mem_append_right _ (mem_singleton.mpr rfl), ?_⟩
      · rw [WorkflowStats.count_add, hentry c, WorkflowStats.workflowID_add, hid]
        simp only [StatsCollector.recordExecution]
        rw [Counter.counted_append_singleton]
        simp
      · rw [WorkflowStats.workflowID_add, hid]
    · obtain ⟨hid', htallies⟩ := h.buffered id stats hlookup
      refine ⟨hid', tallies_append_of_ne htallies (fun hsame => ?_)⟩
      exact heq (hid'.symm.trans hsame.symm)
  · intro e' he'
    rw [StatsCollector.recordExecution, AList.mem_insert]
    rcases mem_append.mp he' with he' | he'
    · exact .inr (h.complete e' he')
    · rw [mem_singleton.mp he']
      exact .inl rfl

theorem tallies_updatedAt {stats : WorkflowStats} (h : stats.Tallies l) (now : ℤ) :
    WorkflowStats.Tallies { stats with updatedAt := now } l where
  count := by
    intro c
    cases c
    exacts [h.count .total, h.count .successful, h.count .failed, h.count .cancelled]
  occurs := h.occurs

/-- A flush hands the buffer to a writer of its own. -/
theorem Inv.flush (h : sc.Inv) (order : RangeOrder) (now : ℤ) : (sc.flush order now).Inv := by
  unfold StatsCollector.flush
  split_ifs with hempty
  · exact h
  refine ⟨fun id stats hlookup => (by cases hlookup), fun e he => (by cases he), ?_, ?_, ?_⟩
  · intro rows hrows stats hstats
    rcases mem_append.mp hrows with hrows | hrows
    · obtain ⟨batch, hbatch, htallies⟩ := h.pending rows hrows stats hstats
      exact ⟨batch, mem_append_left _ hbatch, htallies⟩
    rw [mem_singleton.mp hrows, mem_map] at hstats
    obtain ⟨entry, hentry, rfl⟩ := hstats
    have hlookup := lookup_of_entry ((order.mem_run 399 _ _).mp hentry)
    exact ⟨sc.unflushed, by simp, tallies_updatedAt (h.buffered _ _ hlookup).2 now⟩
  · intro id stats hlookup
    obtain ⟨hid, batch, hbatch, htallies⟩ := h.stored id stats hlookup
    exact ⟨hid, batch, mem_append_left _ hbatch, htallies⟩
  · intro batch hbatch e he
    rcases mem_append.mp hbatch with hbatch | hbatch
    · refine (h.written batch hbatch e he).imp_right ?_
      rintro ⟨rows, hrows, hpending⟩
      exact ⟨rows, mem_append_left _ hrows, hpending⟩
    · rw [mem_singleton.mp hbatch] at he
      obtain ⟨stats, hentry⟩ := (mem_iff_entry _ _).mp (h.complete e he)
      refine .inr ⟨_, mem_append_right _ (mem_singleton.mpr rfl), _,
        mem_map_of_mem ((order.mem_run 399 _ _).mpr hentry), ?_⟩
      exact (h.buffered _ _ (lookup_of_entry hentry)).1

theorem mem_save (rows : GoMap String WorkflowStats) (stats : WorkflowStats) (id : String) :
    id ∈ save rows stats ↔ id = stats.workflowID ∨ id ∈ rows := by
  unfold save
  split_ifs with h
  · exact ⟨.inr, fun hid => hid.elim (fun heq => heq ▸ h.2) (fun hmem => hmem)⟩
  · exact AList.mem_insert rows

theorem lookup_save {rows : GoMap String WorkflowStats} {stats stats' : WorkflowStats}
    (h : (save rows stats).lookup id = some stats') :
    (stats' = stats ∧ id = stats.workflowID) ∨ rows.lookup id = some stats' := by
  unfold save at h
  split_ifs at h
  · exact .inr h
  rw [lookup_insert] at h
  split_ifs at h with heq
  · exact .inl ⟨(Option.some.inj h).symm, heq⟩
  · exact .inr h

/-- A writer overwrites the row with what it was handed. -/
theorem Inv.write (h : sc.Inv) (writer : ℕ) : (sc.write writer).Inv := by
  unfold StatsCollector.write
  split
  · next stats rest hwriter =>
      have hrows : stats :: rest ∈ sc.writers := mem_of_getElem? hwriter
      obtain ⟨batch, hbatch, htallies⟩ := h.pending _ hrows stats mem_cons_self
      refine ⟨h.buffered, h.complete, ?_, ?_, ?_⟩
      · intro rows hmem stats' hstats'
        rcases mem_or_eq_of_mem_set hmem with hmem | rfl
        · exact h.pending rows hmem stats' hstats'
        · exact h.pending _ hrows stats' (mem_cons_of_mem _ hstats')
      · intro id stats' hlookup
        rcases lookup_save hlookup with ⟨rfl, rfl⟩ | hold
        · exact ⟨rfl, batch, hbatch, htallies⟩
        · exact h.stored id stats' hold
      · intro batch' hbatch' e he
        rw [mem_save]
        rcases h.written batch' hbatch' e he with hstored | ⟨rows, hmem, stats', hstats', hid⟩
        · exact .inl (.inr hstored)
        by_cases hsame : stats'.workflowID = stats.workflowID
        · exact .inl (.inl (hid.symm.trans hsame))
        -- the row is still to be written, by this writer or by another one
        obtain ⟨i, hi⟩ := mem_iff_getElem?.mp hmem
        refine .inr ?_
        by_cases hw : i = writer
        · rw [hw, hwriter, Option.some.injEq] at hi
          rw [← hi] at hstats'
          rcases mem_cons.mp hstats' with rfl | hrest
          · exact absurd rfl hsame
          · refine ⟨rest, List.mem_iff_getElem?.mpr ⟨writer, ?_⟩, stats', hrest, hid⟩
            have hlt : writer < sc.writers.length := (List.getElem?_eq_some_iff.mp hwriter).1
            rw [List.getElem?_set_self hlt]
        · refine ⟨rows, mem_iff_getElem?.mpr ⟨i, ?_⟩, stats', hstats', hid⟩
          rw [getElem?_set_ne (Ne.symm hw)]
          exact hi
  · exact h

/-- Buffer, flushes and rows account for every execution recorded. -/
theorem inv_step (sc : StatsCollector) (ev : Event) (h : sc.Inv) : (sc.step ev).Inv := by
  cases ev with
  | record e now seen => exact h.recordExecution e now seen
  | flush order now => exact h.flush order now
  | write writer => exact h.write writer

theorem inv_start : Inv {} where
  buffered := fun id stats hlookup => by cases hlookup
  complete := fun e he => by cases he
  pending := fun rows hrows => by cases hrows
  stored := fun id stats hlookup => by cases hlookup
  written := fun batch hbatch => by cases hbatch

/-! ## At rest -/

theorem number_flatten_eq_zero {c : Counter}
    (h : ∀ batch ∈ batches, ∀ e ∈ batch, e.workflowID ≠ id) : c.number id batches.flatten = 0 := by
  rw [Counter.number, Int.natCast_eq_zero, countP_eq_zero]
  intro e he
  obtain ⟨batch, hbatch, hmem⟩ := mem_flatten.mp he
  simp [h batch hbatch e hmem]

theorem countP_any_eq_zero_iff :
    batches.countP (fun batch => batch.any (fun e => e.workflowID = id)) = 0 ↔
      ∀ batch ∈ batches, ∀ e ∈ batch, e.workflowID ≠ id := by
  simp [countP_eq_zero]

theorem number_total_flatten_eq_zero (h : Counter.total.number id batches.flatten = 0) :
    ∀ batch ∈ batches, ∀ e ∈ batch, e.workflowID ≠ id := by
  rw [Counter.number, Int.natCast_eq_zero, countP_eq_zero] at h
  intro batch hbatch e he heq
  exact h e (mem_flatten.mpr ⟨batch, hbatch, he⟩) (by simp [heq, Counter.wants])

theorem counts_of_counted_eq {c : Counter} (h : c.counted id l = c.number id l)
    {e : WorkflowExecution} (he : e ∈ l) (hid : e.workflowID = id) (hwants : c.wants e = true) :
    c.counts e = true := by
  have hle : ∀ l : List WorkflowExecution, c.counted id l ≤ c.number id l := by
    intro l
    refine Int.ofNat_le.mpr (countP_mono_left (fun x _ hx => ?_))
    rw [Bool.and_eq_true] at hx ⊢
    exact ⟨hx.1, (Bool.and_eq_true _ _ ▸ hx.2).1⟩
  by_contra hcounts
  obtain ⟨l₁, l₂, rfl⟩ := append_of_mem he
  have hsplit : ∀ p : WorkflowExecution → Bool, (l₁ ++ e :: l₂).countP p
      = l₁.countP p + l₂.countP p + if p e = true then 1 else 0 := by
    intro p
    rw [countP_append, countP_cons, Nat.add_assoc]
  have h₁ := hle l₁
  have h₂ := hle l₂
  rw [Counter.counted, Counter.number, hsplit, hsplit, if_neg (by simp [hcounts]),
    if_pos (by simp [hid, hwants])] at h
  simp only [Counter.counted, Counter.number] at h₁ h₂
  push_cast at h
  omega

theorem number_split (c : Counter) (id : String) (l₁ l₂ : List (List WorkflowExecution))
    (batch : List WorkflowExecution) : c.number id (l₁ ++ batch :: l₂).flatten
      = c.number id l₁.flatten + c.number id batch + c.number id l₂.flatten := by
  simp only [Counter.number, flatten_append, flatten_cons, countP_append]
  push_cast
  ring

theorem counted_total (id : String) (l : List WorkflowExecution) :
    Counter.total.counted id l = Counter.total.number id l := by
  simp [Counter.counted, Counter.number, Counter.counts]

theorem Inv.stored_of_quiescent (h : sc.Inv) (hq : sc.Quiescent) (id : String) :
    (sc.rows.get { workflowID := id } id = { workflowID := id } ∧
        ∀ batch ∈ sc.flushed, ∀ e ∈ batch, e.workflowID ≠ id) ∨
      ∃ l₁ batch l₂, sc.flushed = l₁ ++ batch :: l₂ ∧ (∃ e ∈ batch, e.workflowID = id) ∧
        ∀ c, (sc.rows.get { workflowID := id } id).count c = c.counted id batch := by
  unfold GoMap.get
  cases hlookup : sc.rows.lookup id with
  | none =>
    refine .inl ⟨rfl, fun batch hbatch e he hid => ?_⟩
    rcases h.written batch hbatch e he with hstored | ⟨rows, hrows, stats, hstats, -⟩
    · rw [hid, ← AList.lookup_isSome, hlookup] at hstored
      cases hstored
    · rw [hq.2 rows hrows] at hstats
      cases hstats
  | some stats =>
    obtain ⟨rfl, batch, hbatch, htallies⟩ := h.stored id stats hlookup
    obtain ⟨l₁, l₂, hsplit⟩ := append_of_mem hbatch
    exact .inr ⟨l₁, batch, l₂, hsplit, htallies.occurs, htallies.count⟩

theorem Inv.recorded_of_quiescent (h : sc.Inv) (hq : sc.Quiescent) :
    sc.recorded = sc.flushed.flatten := by
  have hnone : sc.unflushed = [] := by
    refine eq_nil_iff_forall_not_mem.mpr (fun e he => ?_)
    obtain ⟨stats, hentry⟩ := (mem_iff_entry _ _).mp (h.complete e he)
    rw [length_eq_zero_iff.mp hq.1] at hentry
    cases hentry
  rw [recorded, hnone, append_nil]

theorem Inv.flushedOnce_of_countsRight (h : sc.Inv) (hq : sc.Quiescent) (hright : sc.CountsRight) :
    sc.FlushedOnce := by
  intro id
  rcases h.stored_of_quiescent hq id with ⟨-, hnone⟩ | ⟨l₁, batch, l₂, hsplit, hoccurs, hcount⟩
  · rw [countP_any_eq_zero_iff.mpr hnone]
    exact Nat.zero_le 1
  have htotal := hright id .total
  rw [hcount .total, h.recorded_of_quiescent hq, hsplit, number_split, counted_total] at htotal
  have h₁ : 0 ≤ Counter.total.number id l₁.flatten := Int.natCast_nonneg _
  have h₂ : 0 ≤ Counter.total.number id l₂.flatten := Int.natCast_nonneg _
  have hzero₁ := number_total_flatten_eq_zero
    (show Counter.total.number id l₁.flatten = 0 by omega)
  have hzero₂ := number_total_flatten_eq_zero
    (show Counter.total.number id l₂.flatten = 0 by omega)
  rw [hsplit, countP_append, countP_cons, countP_any_eq_zero_iff.mpr hzero₁,
    countP_any_eq_zero_iff.mpr hzero₂]
  split_ifs <;> omega

theorem number_eq_of_flushedOnce (h : sc.FlushedOnce) {l₁ l₂ : List (List WorkflowExecution)}
    {batch : List WorkflowExecution} (hsplit : sc.flushed = l₁ ++ batch :: l₂)
    (hoccurs : ∃ e ∈ batch, e.workflowID = id) (c : Counter) :
    c.number id sc.flushed.flatten = c.number id batch ∧
      ∀ e ∈ sc.flushed.flatten, e.workflowID = id → e ∈ batch := by
  have hany : batch.any (fun e => e.workflowID = id) = true := by simpa using hoccurs
  have honce := h id
  rw [hsplit, countP_append, countP_cons, if_pos hany] at honce
  have hzero₁ : ∀ b ∈ l₁, ∀ e ∈ b, e.workflowID ≠ id := countP_any_eq_zero_iff.mp (by omega)
  have hzero₂ : ∀ b ∈ l₂, ∀ e ∈ b, e.workflowID ≠ id := countP_any_eq_zero_iff.mp (by omega)
  constructor
  · rw [hsplit, number_split, number_flatten_eq_zero hzero₁, number_flatten_eq_zero hzero₂]
    ring
  intro e he hid
  obtain ⟨b, hb, hmem⟩ := mem_flatten.mp he
  rw [hsplit] at hb
  rcases mem_append.mp hb with hb | hb
  · exact absurd hid (hzero₁ b hb e hmem)
  rcases mem_cons.mp hb with rfl | hb
  · exact hmem
  · exact absurd hid (hzero₂ b hb e hmem)

/-- The rows are right exactly if each workflow was flushed once, all with finishing times. -/
theorem Inv.countsRight_iff (h : sc.Inv) (hq : sc.Quiescent) :
    sc.CountsRight ↔ sc.FlushedOnce ∧ sc.Finished := by
  constructor
  · intro hright
    have honce := h.flushedOnce_of_countsRight hq hright
    refine ⟨honce, fun e he c hwants => ?_⟩
    rw [h.recorded_of_quiescent hq] at he
    rcases h.stored_of_quiescent hq e.workflowID with
      ⟨-, hnone⟩ | ⟨l₁, batch, l₂, hsplit, hoccurs, hcount⟩
    · obtain ⟨b, hb, hmem⟩ := mem_flatten.mp he
      exact absurd rfl (hnone b hb e hmem)
    obtain ⟨hnumber, hall⟩ := number_eq_of_flushedOnce honce hsplit hoccurs c
    have heq := hright e.workflowID c
    rw [hcount c, h.recorded_of_quiescent hq, hnumber] at heq
    exact counts_of_counted_eq heq (hall e he rfl) rfl hwants
  · rintro ⟨honce, hfinished⟩ id c
    rw [h.recorded_of_quiescent hq]
    rcases h.stored_of_quiescent hq id with
      ⟨hzero, hnone⟩ | ⟨l₁, batch, l₂, hsplit, hoccurs, hcount⟩
    · rw [hzero, number_flatten_eq_zero hnone]
      cases c <;> rfl
    rw [hcount c, (number_eq_of_flushedOnce honce hsplit hoccurs c).1]
    -- every execution that the counter is for is counted
    refine congrArg Nat.cast (countP_congr (fun e he => ?_))
    have hrecorded : e ∈ sc.recorded := by
      rw [h.recorded_of_quiescent hq, hsplit]
      exact mem_flatten.mpr ⟨batch, by simp, he⟩
    rw [Bool.and_eq_true, Bool.and_eq_true]
    refine and_congr_right (fun _ => ⟨fun hcounts => ?_, hfinished e hrecorded c⟩)
    exact (Bool.and_eq_true _ _ ▸ hcounts).1

/-- **Statistics.** Once all flushes have finished, the stored counts are those of all recorded
executions exactly if every workflow was flushed at most once and every execution in a final status
had its finishing time. -/
theorem counts_right_iff (evs : List Event) (hq : (evs.foldl StatsCollector.step {}).Quiescent) :
    (evs.foldl StatsCollector.step {}).CountsRight ↔
      (evs.foldl StatsCollector.step {}).FlushedOnce ∧
        (evs.foldl StatsCollector.step {}).Finished := by
  have hinv : Runs.Always StatsCollector.step Inv {} evs := Runs.always_of_step inv_step inv_start
  exact hinv.last.countsRight_iff hq

/-- A completed execution of a workflow. -/
def completed : WorkflowExecution where
  id := "e"
  workflowID := "w"
  version := 1
  status := .completed
  startedAt := 0
  finishedAt := some 1
  executionTime := 1
  data := none
  error := ""
  createdAt := 0

def oneFlush : List Event := [.record completed 1 1, .flush RangeOrder.stored 2, .write 0]

theorem counts_right_oneFlush : (oneFlush.foldl StatsCollector.step {}).CountsRight := by
  refine (counts_right_iff oneFlush ⟨by decide +kernel, by decide +kernel⟩).mpr ⟨?_, ?_⟩
  · intro id
    exact countP_le_length.trans (by decide +kernel)
  have hrecorded : (oneFlush.foldl StatsCollector.step {}).recorded = [completed] := by
    decide +kernel
  intro e he c
  rw [hrecorded] at he
  rw [mem_singleton.mp he]
  cases c <;> decide

def twoFlushes : List Event :=
  oneFlush ++ [.record completed 3 3, .flush RangeOrder.stored 4, .write 1]

/-- The row of the second flush replaces that of the first, and an execution that is completed but
has no finishing time is not counted as successful. -/
theorem counts_wrong : (twoFlushes.foldl StatsCollector.step {}).Quiescent ∧
      ¬ (twoFlushes.foldl StatsCollector.step {}).CountsRight ∧
      ¬ (List.foldl StatsCollector.step {} [.record { completed with finishedAt := none } 1 1,
        .flush RangeOrder.stored 2, .write 0]).CountsRight := by
  refine ⟨⟨by decide +kernel, by decide +kernel⟩, fun h => ?_, fun h => ?_⟩
  · exact absurd (h "w" .total) (by decide +kernel)
  · exact absurd (h "w" .successful) (by decide +kernel)

end StatsCollector

end LinkFlow.Analytics
