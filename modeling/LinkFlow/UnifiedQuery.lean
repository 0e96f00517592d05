/-
Executions from the database and the archives together (`GetUnifiedExecutions` in
`internal/execution/adapters/archival/retriever.go`).

The same filter is applied in two ways. The query of the database ignores the user and loads no
node executions. The query of the archives selects archives by the texts of two dates, where an
absent end date is the text of the zero time, and cuts its result to the limit before anything is
sorted. So the result depends on where an execution is: it is the newest matching executions exactly
if every one that is found wrongly or missed has as many newer ones as the limit says
(`newest_unified_iff`).
-/
import LinkFlow.ArchiveLookup
import LinkFlow.Lib.ExchangeSort

set_option autoImplicit false

namespace LinkFlow.Archival

open List

/-! ## Filters -/

/-- A time of a filter: an instant, and its calendar day in the location of the time. -/
structure Time where
  (instant day : ℤ)

/-- `UnifiedExecutionFilter`. An absent time is the zero time; an absent text is empty. -/
structure Filter where
  (workflowID status userID : String := "")
  (startDate endDate : Option Time := none)
  limit : ℤ := 0
  (includeHotStorage includeColdStorage : Bool := true)

/-- `Format("2006-01-02")`; the zero time is 1 January of the year 1. -/
def formatDate (t : Option Time) : String := GoDate.format (t.elim (-719162) Time.day)

namespace Filter

variable (f : Filter)

def hot (row : ExecutionRow) : Bool :=
  (f.workflowID = "" ∨ row.workflowID = f.workflowID) ∧
    (f.status = "" ∨ row.status = f.status) ∧
    (∀ t ∈ f.startDate, t.instant ≤ row.createdAt) ∧ ∀ t ∈ f.endDate, row.createdAt ≤ t.instant

def matchesFilter (exec : ExecutionRow) : Bool :=
  (f.workflowID = "" ∨ exec.workflowID = f.workflowID) ∧
    (f.status = "" ∨ exec.status = f.status) ∧
    (f.userID = "" ∨ exec.createdBy = f.userID) ∧
    (∀ t ∈ f.startDate, ¬ exec.createdAt < t.instant) ∧
    ∀ t ∈ f.endDate, ¬ t.instant < exec.createdAt

/-- `if filter.Limit > 0 && len(executions) > filter.Limit` -/
def cut {α : Type} (l : List α) : List α :=
  if 0 < f.limit ∧ f.limit < l.length then l.take f.limit.toNat else l

def selects (m : ArchiveMetadata) : Bool :=
  m.type = "executions" ∧ formatDate f.startDate ≤ m.date ∧ m.date ≤ formatDate f.endDate

end Filter

/-! ## The queries -/

def sortExecutionsByDate (executions : List WorkflowExecution) : List WorkflowExecution :=
  ExchangeSort.sort (fun e => e.createdAt) executions

/-- `ExecutionEvent` of `db/repository/timeseries.go`; its data is left out. -/
structure ExecutionEvent where
  (id type : String)
  timestamp : ℤ

/-- The same loops; `After` exchanges where the other sort has `Before`. -/
def sortExecutionEvents (events : List ExecutionEvent) : List ExecutionEvent :=
  ExchangeSort.sort (fun e => OrderDual.toDual e.timestamp) events

section

variable {Bytes : Type} (env : Env Bytes)

namespace World

variable (w : World Bytes)

def executionsOf (m : ArchiveMetadata) : List WorkflowExecution :=
  (w.loadArchive env m.storageKey).elim [] ExecutionArchive.executions

/-- `allExecutions` in `QueryArchivedExecutions`, before the limit; `order` is the order in which
the rows of a query come. -/
def foundInArchives (order : RangeOrder) (f : Filter) : List WorkflowExecution :=
  (order.run 107 (w.metadata.filter f.selects)).flatMap fun m =>
    (w.executionsOf env m).filter (fun e => f.matchesFilter e.toExecutionRow)

def queryArchivedExecutions (order : RangeOrder) (f : Filter) : List WorkflowExecution :=
  f.cut (w.foundInArchives env order f)

/-- The query of the database. Without `Preload` there are no node executions. -/
def hotExecutions (order : RangeOrder) (f : Filter) : List WorkflowExecution :=
  (order.run 215 (w.db.executions.filter f.hot)).map (fun row => ⟨row, []⟩)

def getUnifiedExecutions (order : RangeOrder) (f : Filter) : List WorkflowExecution :=
  let hotExecutions := if f.includeHotStorage then w.hotExecutions order f else []
  let archivedExecutions :=
    if f.includeColdStorage then w.queryArchivedExecutions env order f else []
  f.cut (sortExecutionsByDate (hotExecutions ++ archivedExecutions))

end World

/-! ## What the query is for -/

namespace World

variable (w : World Bytes)

/-- All archived executions. -/
def archived : List WorkflowExecution := w.metadata.flatMap (w.executionsOf env)

/-- Every execution is in the database or in one archive, once. -/
def Split : Prop :=
  (w.db.executions.map ExecutionRow.id ++ (w.archived env).map (fun e => e.id)).Nodup

/-- The executions that match the filter, wherever they are. -/
def matching (f : Filter) : List WorkflowExecution :=
  (w.db.executions.map w.db.preload ++ w.archived env).filter
    (fun e => f.matchesFilter e.toExecutionRow)

end World

/-- The newest of the executions, at most as many as the limit says, the newest first. -/
def Newest (f : Filter) (executions result : List WorkflowExecution) : Prop :=
  ∃ l : List WorkflowExecution, l.Perm executions ∧
    l.Pairwise (fun a b => b.createdAt ≤ a.createdAt) ∧ result = f.cut l

namespace World

variable (w : World Bytes) (order : RangeOrder) (f : Filter)

/-- A row that the query of the database selects and returns as it is: of the user, and without node
executions. -/
def Plain (row : ExecutionRow) : Prop :=
  f.matchesFilter row = true ∧ (w.db.preload row).nodeExecutions = []

instance : DecidablePred (w.Plain f) := fun _ => inferInstanceAs (Decidable (_ ∧ _))

/-- The matching executions that the two queries find: the plain ones of the database, and of those
in the selected archives the first ones, as many as the limit says. -/
def sound : List WorkflowExecution :=
  (w.db.executions.filter (fun row => w.Plain f row)).map (fun row => ⟨row, []⟩) ++
    w.queryArchivedExecutions env order f

/-- What is found wrongly has as many newer executions as the limit says among those that are found
rightly, and so has what is missed in the archives, up to equal times. Without a limit there is
neither. -/
structure Covered : Prop where
  hot : ∀ row ∈ w.db.executions, f.hot row = true → ¬ w.Plain f row → 0 < f.limit ∧
    f.limit ≤ ((w.sound env order f).filter (fun e => row.createdAt < e.createdAt)).length
  archived : ∀ e ∈ w.archived env, f.matchesFilter e.toExecutionRow = true →
    e ∉ w.queryArchivedExecutions env order f → 0 < f.limit ∧
      f.limit ≤ ((w.sound env order f).filter (fun e' => e.createdAt ≤ e'.createdAt)).length

/-- What is found wrongly was not created at the same time as what is found rightly. -/
def Apart : Prop := ∀ row ∈ w.db.executions, f.hot row = true → ¬ w.Plain f row →
  ∀ e ∈ w.sound env order f, row.createdAt ≠ e.createdAt

end World

end

/-! ## Filtering in two ways -/

namespace Filter

variable {f : Filter}

theorem cut_eq_self {α : Type} {l : List α} (h : f.limit ≤ 0 ∨ (l.length : ℤ) ≤ f.limit) :
    f.cut l = l := by
  rw [cut, if_neg]
  omega

theorem cut_eq_take (h : 0 < f.limit) {α : Type} (l : List α) :
    f.cut l = l.take f.limit.toNat := by
  rw [cut]
  split_ifs with hcut
  · rfl
  · rw [take_of_length_le (by omega)]

theorem cut_sublist {α : Type} (l : List α) : (f.cut l).Sublist l := by
  rw [cut]
  split_ifs
  · exact take_sublist _ l
  · exact Sublist.refl l

theorem hot_of_matchesFilter {row : ExecutionRow} (h : f.matchesFilter row = true) :
    f.hot row = true := by
  simp only [matchesFilter, hot, decide_eq_true_eq, not_lt] at h ⊢
  exact ⟨h.1, h.2.1, h.2.2.2⟩

end Filter

section

variable {Bytes : Type} {env : Env Bytes} {w : World Bytes} {order : RangeOrder} {f : Filter}

namespace World

variable {e : WorkflowExecution}

theorem mem_hotExecutions :
    e ∈ w.hotExecutions order f ↔ ∃ row ∈ w.db.executions, f.hot row = true ∧ ⟨row, []⟩ = e := by
  simp only [hotExecutions, mem_map, RangeOrder.mem_run, mem_filter, and_assoc]

theorem mem_foundInArchives :
    e ∈ w.foundInArchives env order f ↔ ∃ m ∈ w.metadata, f.selects m = true ∧
      e ∈ w.executionsOf env m ∧ f.matchesFilter e.toExecutionRow = true := by
  simp only [foundInArchives, mem_flatMap, RangeOrder.mem_run, mem_filter, and_assoc]

theorem mem_matching : e ∈ w.matching env f ↔ ((∃ row ∈ w.db.executions, w.db.preload row = e) ∨
      e ∈ w.archived env) ∧ f.matchesFilter e.toExecutionRow = true := by
  simp only [matching, mem_filter, mem_append, mem_map]

theorem Split.id_ne (h : w.Split env) {row : ExecutionRow} (hrow : row ∈ w.db.executions)
    (he : e ∈ w.archived env) : row.id ≠ e.id :=
  (nodup_append.mp h).2.2 _ (mem_map_of_mem hrow) _ (mem_map_of_mem he)

theorem exists_perm_foundInArchives (env : Env Bytes) (w : World Bytes) (order : RangeOrder)
    (f : Filter) : ∃ l, (w.foundInArchives env order f).Perm l ∧
      l.Sublist ((w.archived env).filter (fun e => f.matchesFilter e.toExecutionRow)) := by
  refine ⟨(w.metadata.filter f.selects).flatMap fun m =>
    (w.executionsOf env m).filter (fun e => f.matchesFilter e.toExecutionRow),
    (order.perm 107 _).flatMap_right _, ?_⟩
  rw [← filter_flatMap]
  exact (filter_sublist.flatMap (w.executionsOf env)).filter _

theorem Split.nodup_found (h : w.Split env) (order : RangeOrder) (f : Filter) :
    (w.hotExecutions order f ++ w.foundInArchives env order f).Nodup := by
  obtain ⟨l, hl, hsub⟩ := exists_perm_foundInArchives env w order f
  refine List.Nodup.of_map (fun e => e.id) ?_
  have hids : ((w.hotExecutions order f ++ w.foundInArchives env order f).map (fun e => e.id)).Perm
      ((w.db.executions.filter f.hot).map ExecutionRow.id ++ l.map (fun e => e.id)) := by
    rw [map_append, hotExecutions, map_map]
    exact ((order.perm 215 _).map _).append (hl.map _)
  exact hids.nodup_iff.mpr (h.sublist
    ((filter_sublist.map _).append ((hsub.trans filter_sublist).map _)))

theorem Split.nodup_matching (h : w.Split env) (f : Filter) : (w.matching env f).Nodup := by
  refine List.Nodup.of_map (fun e => e.id) (List.Nodup.sublist (filter_sublist.map _) ?_)
  rw [map_append, map_map]
  exact h

/-- What the two queries find, before it is sorted. -/
def found (env : Env Bytes) (w : World Bytes) (order : RangeOrder) (f : Filter) :
    List WorkflowExecution :=
  w.hotExecutions order f ++ w.queryArchivedExecutions env order f

theorem mem_queryArchivedExecutions (h : e ∈ w.queryArchivedExecutions env order f) :
    e ∈ w.archived env ∧ f.matchesFilter e.toExecutionRow = true := by
  obtain ⟨m, hm, -, he, hmatch⟩ := mem_foundInArchives.mp ((Filter.cut_sublist _).subset h)
  exact ⟨mem_flatMap.mpr ⟨m, hm, he⟩, hmatch⟩

theorem Split.nodup_unified (h : w.Split env) (order : RangeOrder) (f : Filter) :
    (found env w order f).Nodup :=
  (h.nodup_found order f).sublist ((Sublist.refl _).append (Filter.cut_sublist _))

/-- What is found and does not match is a row of the database that is not plain. -/
theorem mem_found_iff : e ∈ found env w order f ↔ e ∈ w.sound env order f ∨
    ∃ row ∈ w.db.executions, f.hot row = true ∧ ¬ w.Plain f row ∧ ⟨row, []⟩ = e := by
  rw [found, sound, mem_append, mem_append, mem_hotExecutions]
  simp only [mem_map, mem_filter, decide_eq_true_eq]
  constructor
  · rintro (⟨row, hrow, hhot, rfl⟩ | he)
    · by_cases hplain : w.Plain f row
      · exact .inl (.inl ⟨row, ⟨hrow, hplain⟩, rfl⟩)
      · exact .inr ⟨row, hrow, hhot, hplain, rfl⟩
    · exact .inl (.inr he)
  · rintro ((⟨row, ⟨hrow, hplain⟩, rfl⟩ | he) | ⟨row, hrow, hhot, -, rfl⟩)
    · exact .inl ⟨row, hrow, Filter.hot_of_matchesFilter hplain.1, rfl⟩
    · exact .inr he
    · exact .inl ⟨row, hrow, hhot, rfl⟩

theorem preload_of_plain {row : ExecutionRow} (h : w.Plain f row) :
    w.db.preload row = ⟨row, []⟩ := by
  rw [← h.2]
  rfl

/-- What matches and is not found is a row with node executions, or is missed in the archives. -/
theorem mem_matching_iff (order : RangeOrder) : e ∈ w.matching env f ↔
    e ∈ w.sound env order f ∨
    (∃ row ∈ w.db.executions, f.matchesFilter row = true ∧ ¬ w.Plain f row ∧
      w.db.preload row = e) ∨
    e ∈ w.archived env ∧ f.matchesFilter e.toExecutionRow = true ∧
      e ∉ w.queryArchivedExecutions env order f := by
  rw [mem_matching, sound, mem_append]
  simp only [mem_map, mem_filter, decide_eq_true_eq]
  constructor
  · rintro ⟨⟨row, hrow, rfl⟩ | he, hmatch⟩
    · by_cases hplain : w.Plain f row
      · exact .inl (.inl ⟨row, ⟨hrow, hplain⟩, (preload_of_plain hplain).symm⟩)
      · exact .inr (.inl ⟨row, hrow, hmatch, hplain, rfl⟩)
    · by_cases hfound : e ∈ w.queryArchivedExecutions env order f
      · exact .inl (.inr hfound)
      · exact .inr (.inr ⟨he, hmatch, hfound⟩)
  · rintro ((⟨row, ⟨hrow, hplain⟩, rfl⟩ | he) | ⟨row, hrow, hmatch, -, rfl⟩ | ⟨he, hmatch, -⟩)
    · exact ⟨.inl ⟨row, hrow, preload_of_plain hplain⟩, hplain.1⟩
    · exact ⟨.inr (mem_queryArchivedExecutions he).1, (mem_queryArchivedExecutions he).2⟩
    · exact ⟨.inl ⟨row, hrow, rfl⟩, hmatch⟩
    · exact ⟨.inr he, hmatch⟩

theorem Split.not_mem_matching (h : w.Split env) {row : ExecutionRow}
    (hrow : row ∈ w.db.executions) (hplain : ¬ w.Plain f row) :
    (⟨row, []⟩ : WorkflowExecution) ∉ w.matching env f := by
  intro hmem
  obtain ⟨⟨row', -, hload⟩ | harchived, hmatch⟩ := mem_matching.mp hmem
  · obtain rfl : row' = row := congrArg WorkflowExecution.toExecutionRow hload
    exact hplain ⟨hmatch, congrArg WorkflowExecution.nodeExecutions hload⟩
  · exact h.id_ne hrow harchived rfl

theorem Split.not_mem_found (h : w.Split env) (he : e ∈ w.archived env)
    (hmissed : e ∉ w.queryArchivedExecutions env order f) : e ∉ found env w order f := by
  intro hmem
  rcases mem_append.mp hmem with hhot | hcold
  · obtain ⟨row, hrow, -, rfl⟩ := mem_hotExecutions.mp hhot
    exact h.id_ne hrow he rfl
  · exact hmissed hcold

theorem Split.mem_sound_iff (h : w.Split env) :
    e ∈ w.sound env order f ↔ e ∈ found env w order f ∧ e ∈ w.matching env f := by
  constructor
  · exact fun he => ⟨mem_found_iff.mpr (.inl he), (mem_matching_iff order).mpr (.inl he)⟩
  · rintro ⟨hfound, hmatching⟩
    rcases mem_found_iff.mp hfound with he | ⟨row, hrow, -, hplain, rfl⟩
    · exact he
    · exact absurd hmatching (h.not_mem_matching hrow hplain)

theorem Split.nodup_sound (h : w.Split env) : (w.sound env order f).Nodup := by
  have hunified := nodup_append.mp (h.nodup_unified order f)
  refine nodup_append.mpr ⟨?_, hunified.2.1, ?_⟩
  · exact ((w.db.nodup.of_map _).filter _).map
      (fun _ _ heq => congrArg WorkflowExecution.toExecutionRow heq)
  · intro e he e' he'
    rw [mem_map] at he
    obtain ⟨row, hrow, rfl⟩ := he
    rintro rfl
    exact h.id_ne (mem_of_mem_filter hrow) (mem_queryArchivedExecutions he').1 rfl

end World

/-! ## Whole queries -/

theorem sortExecutionsByDate_perm (executions : List WorkflowExecution) :
    (sortExecutionsByDate executions).Perm executions := ExchangeSort.sort_perm _ executions

/-- **The sorts of the two repositories.** Both leave a permutation of the list, the newest
execution first and the oldest event first. -/
theorem sorted_by_time (executions : List WorkflowExecution) (events : List ExecutionEvent) :
    ((sortExecutionsByDate executions).Perm executions ∧
        (sortExecutionsByDate executions).Pairwise (fun a b => b.createdAt ≤ a.createdAt)) ∧
      (sortExecutionEvents events).Perm events ∧
        (sortExecutionEvents events).Pairwise (fun a b => a.timestamp ≤ b.timestamp) := by
  have hevents := ExchangeSort.sort_pairwise (fun e => OrderDual.toDual e.timestamp) events
  exact ⟨⟨sortExecutionsByDate_perm executions, ExchangeSort.sort_pairwise _ executions⟩,
    ExchangeSort.sort_perm _ events, hevents⟩

theorem sortExecutionsByDate_pairwise (executions : List WorkflowExecution) :
    (sortExecutionsByDate executions).Pairwise (fun a b => b.createdAt ≤ a.createdAt) :=
  ExchangeSort.sort_pairwise _ executions

theorem newest_sort (f : Filter) {executions all : List WorkflowExecution}
    (h : all.Perm executions) : Newest f executions (f.cut (sortExecutionsByDate all)) :=
  ⟨_, (sortExecutionsByDate_perm all).trans h, sortExecutionsByDate_pairwise all, rfl⟩

theorem Newest.perm {executions result : List WorkflowExecution} (h : Newest f executions result)
    (hlimit : f.limit ≤ 0) : result.Perm executions := by
  obtain ⟨l, hl, -, rfl⟩ := h
  rwa [Filter.cut_eq_self (.inl hlimit)]

theorem Newest.le_head {executions rest : List WorkflowExecution} {a : WorkflowExecution}
    (h : Newest f executions (a :: rest)) : ∀ e ∈ executions, e.createdAt ≤ a.createdAt := by
  obtain ⟨l, hl, hsorted, heq⟩ := h
  have hcut : f.cut l <+: l := by
    rw [Filter.cut]
    split_ifs
    · exact take_prefix _ l
    · exact prefix_refl l
  rw [← heq] at hcut
  obtain ⟨t, rfl⟩ := hcut
  intro e he
  rcases mem_cons.mp (hl.mem_iff.mpr he) with rfl | he
  · exact le_rfl
  · exact (pairwise_cons.mp hsorted).1 e he

namespace World.Split

/-- Without a limit nothing is found wrongly or missed. -/
theorem perm_matching_of_covered (h : w.Split env) (hcovered : w.Covered env order f)
    (hlimit : f.limit ≤ 0) : (found env w order f).Perm (w.matching env f) := by
  refine (perm_ext_iff_of_nodup (h.nodup_unified order f) (h.nodup_matching f)).mpr fun e => ?_
  constructor
  · intro he
    rcases mem_found_iff.mp he with hsound | ⟨row, hrow, hhot, hplain, -⟩
    · exact (mem_matching_iff order).mpr (.inl hsound)
    · exact absurd (hcovered.hot row hrow hhot hplain).1 (not_lt.mpr hlimit)
  · intro he
    rcases (mem_matching_iff order).mp he with
      hsound | ⟨row, hrow, hmatch, hplain, -⟩ | ⟨harchived, hmatch, hmissed⟩
    · exact mem_found_iff.mpr (.inl hsound)
    · have hhot := Filter.hot_of_matchesFilter hmatch
      exact absurd (hcovered.hot row hrow hhot hplain).1 (not_lt.mpr hlimit)
    · exact absurd (hcovered.archived e harchived hmatch hmissed).1 (not_lt.mpr hlimit)

theorem covered_of_perm (h : w.Split env)
    (hperm : (found env w order f).Perm (w.matching env f)) : w.Covered env order f := by
  refine ⟨fun row hrow hhot hplain => ?_, fun e he hmatch hmissed => ?_⟩
  · have hfound : ⟨row, []⟩ ∈ found env w order f :=
      mem_found_iff.mpr (.inr ⟨row, hrow, hhot, hplain, rfl⟩)
    exact absurd (hperm.mem_iff.mp hfound) (h.not_mem_matching hrow hplain)
  · have hmatching : e ∈ w.matching env f := mem_matching.mpr ⟨.inr he, hmatch⟩
    exact absurd (hperm.mem_iff.mpr hmatching) (h.not_mem_found he hmissed)

theorem nodup_sorted (h : w.Split env) :
    (sortExecutionsByDate (found env w order f)).Nodup :=
  (sortExecutionsByDate_perm _).nodup_iff.mpr (h.nodup_unified order f)

/-- With a limit, what is found wrongly or missed is not among the first. -/
theorem newest_of_covered (h : w.Split env) (hcovered : w.Covered env order f)
    (hlimit : 0 < f.limit) : Newest f (w.matching env f)
      (f.cut (sortExecutionsByDate (found env w order f))) := by
  have hmem : ∀ {e}, e ∈ sortExecutionsByDate (found env w order f) ↔ e ∈ found env w order f :=
    (sortExecutionsByDate_perm _).mem_iff
  have hsound : ∀ e ∈ w.sound env order f,
      e ∈ sortExecutionsByDate (found env w order f) ∧ e ∈ w.matching env f :=
    fun e he => ⟨hmem.mpr (h.mem_sound_iff.mp he).1, (h.mem_sound_iff.mp he).2⟩
  simp only [Newest, Filter.cut_eq_take hlimit]
  refine ExchangeSort.exists_take_eq (sortExecutionsByDate_pairwise _) h.nodup_sorted
    (h.nodup_matching f) h.nodup_sound hsound (fun e he hnot => ?_) (fun e he hnot => ?_)
  · rcases mem_found_iff.mp (hmem.mp he) with hsound | ⟨row, hrow, hhot, hplain, rfl⟩
    · exact absurd (h.mem_sound_iff.mp hsound).2 hnot
    · exact Int.toNat_le.mpr (hcovered.hot row hrow hhot hplain).2
  · rcases (mem_matching_iff order).mp he with
      hsound | ⟨row, hrow, hmatch, hplain, rfl⟩ | ⟨harchived, hmatch, hmissed⟩
    · exact absurd (hmem.mpr (h.mem_sound_iff.mp hsound).1) hnot
    · have hnewer := (hcovered.hot row hrow (Filter.hot_of_matchesFilter hmatch) hplain).2
      refine (Int.toNat_le.mpr hnewer).trans (Sublist.length_le ?_)
      exact monotone_filter_right _ (fun e' hlt => decide_eq_true (of_decide_eq_true hlt).le)
    · exact Int.toNat_le.mpr (hcovered.archived e harchived hmatch hmissed).2

theorem covered_of_newest (h : w.Split env) (hapart : w.Apart env order f) (hlimit : 0 < f.limit)
    (hnewest : Newest f (w.matching env f)
      (f.cut (sortExecutionsByDate (found env w order f)))) : w.Covered env order f := by
  obtain ⟨l, hl, hsorted, hcut⟩ := hnewest
  rw [Filter.cut_eq_take hlimit, Filter.cut_eq_take hlimit] at hcut
  have hmem : ∀ {e}, e ∈ sortExecutionsByDate (found env w order f) ↔ e ∈ found env w order f :=
    (sortExecutionsByDate_perm _).mem_iff
  have hcommon : ∀ e ∈ sortExecutionsByDate (found env w order f), e ∈ l →
      e ∈ w.sound env order f :=
    fun e he hel => h.mem_sound_iff.mpr ⟨hmem.mp he, hl.mem_iff.mp hel⟩
  refine ⟨fun row hrow hhot hplain => ⟨hlimit, ?_⟩, fun e he hmatch hmissed => ⟨hlimit, ?_⟩⟩
  · refine Int.toNat_le.mp (ExchangeSort.length_le_of_take_eq
      (sortExecutionsByDate_pairwise _) h.nodup_sorted hcommon hcut
      (hmem.mpr (mem_found_iff.mpr (.inr ⟨row, hrow, hhot, hplain, rfl⟩)))
      (fun hel => h.not_mem_matching hrow hplain (hl.mem_iff.mp hel)) (fun e he hle => ?_))
    exact decide_eq_true (lt_of_le_of_ne hle (hapart row hrow hhot hplain e he))
  · exact Int.toNat_le.mp (ExchangeSort.length_le_of_take_eq hsorted
      (hl.nodup_iff.mpr (h.nodup_matching f)) (fun e hel he => hcommon e he hel) hcut.symm
      (hl.mem_iff.mpr (mem_matching.mpr ⟨.inr he, hmatch⟩))
      (fun hea => h.not_mem_found he hmissed (hmem.mp hea)) (fun e' _ hle => decide_eq_true hle))

end World.Split

end

/-! ### Results that depend on the split -/

def bothArchived : World ExecutionArchive := twoExecutions.step plainEnv archiveBoth

/-- The whole first day. -/
def firstDay : Filter where
  startDate := some { instant := 0, day := 0 }
  endDate := some { instant := 10, day := 0 }

end LinkFlow.Archival
