/-
The metrics of nodes (`internal/execution/app/metrics/collector.go`).

`RecordNodeExecution` updates the entry of its node under the collector's lock. The average is a
running mean with the truncating division of integers, so it is the exact mean up to
`(n - 1) / 2` (`node_metrics_right`). The map in the collector and the one in its `ExecutionMetrics`
hold the same pointers and are one map here; the Prometheus counters are left out.
-/
import LinkFlow.Lib.GoMap
import LinkFlow.Lib.RunningMean

set_option autoImplicit false

namespace LinkFlow.Metrics

open List RunningMean

/-! ## The collector -/

/-- Durations and times are integers, the rate is a fraction. -/
structure NodeMetrics where
  (nodeID nodeType : String)
  (executionCount successCount failureCount averageDuration : ℤ := 0)
  (minDuration maxDuration : ℤ)
  lastExecutionTime : ℤ := 0
  errorRate : ℚ := 0

/-- A call of `RecordNodeExecution`, and the time it reads. -/
structure NodeRecord where
  (nodeID nodeType : String)
  duration : ℤ
  success : Bool
  now : ℤ

def NodeMetrics.record (m : NodeMetrics) (r : NodeRecord) : NodeMetrics :=
  let n := m.executionCount + 1
  let failures := if r.success then m.failureCount else m.failureCount + 1
  { m with
    executionCount := n
    successCount := if r.success then m.successCount + 1 else m.successCount
    failureCount := failures
    minDuration := if r.duration < m.minDuration then r.duration else m.minDuration
    maxDuration := if m.maxDuration < r.duration then r.duration else m.maxDuration
    averageDuration :=
      if n = 1 then r.duration else (m.averageDuration * (n - 1) + r.duration).tdiv n
    errorRate := if 0 < n then failures / n else m.errorRate
    lastExecutionTime := r.now }

/-- The entry of a node that has none yet. -/
def NodeRecord.entry (r : NodeRecord) : NodeMetrics where
  nodeID := r.nodeID
  nodeType := r.nodeType
  minDuration := r.duration
  maxDuration := r.duration

def updateNodeMetrics (nodeMetrics : GoMap String NodeMetrics) (r : NodeRecord) :
    GoMap String NodeMetrics :=
  nodeMetrics.insert r.nodeID ((nodeMetrics.get r.entry r.nodeID).record r)

/-- The durations recorded for a node. -/
def durations (nodeID : String) (rs : List NodeRecord) : List ℤ :=
  (rs.filter (fun r => r.nodeID = nodeID)).map NodeRecord.duration

/-! ## What the metrics are -/

/-- The metrics are those of the durations. -/
structure NodeMetrics.Right (m : NodeMetrics) (ds : List ℤ) : Prop where
  count : m.executionCount = ds.length
  parts : m.successCount + m.failureCount = ds.length
  min : IsLeast {d | d ∈ ds} m.minDuration
  max : IsGreatest {d | d ∈ ds} m.maxDuration
  bounds : m.minDuration ≤ m.averageDuration ∧ m.averageDuration ≤ m.maxDuration
  mean : IsMean ds.length ds.sum m.averageDuration

section Record

variable (m : NodeMetrics) (r : NodeRecord)

theorem record_counts : (m.record r).executionCount = m.executionCount + 1 ∧
    (m.record r).successCount + (m.record r).failureCount =
      m.successCount + m.failureCount + 1 := by
  refine ⟨rfl, ?_⟩
  simp only [NodeMetrics.record]
  split_ifs
  · ring
  · ring

theorem record_minMax : (m.record r).minDuration = min r.duration m.minDuration ∧
    (m.record r).maxDuration = max r.duration m.maxDuration := by
  simp only [NodeMetrics.record]
  constructor
  · split_ifs <;> omega
  · split_ifs <;> omega

end Record

variable {m : NodeMetrics} {ds : List ℤ} {r : NodeRecord}

theorem right_entry (r : NodeRecord) : (r.entry.record r).Right [r.duration] where
  count := rfl
  parts := (record_counts r.entry r).2
  min := by simp [NodeMetrics.record, NodeRecord.entry]
  max := by simp [NodeMetrics.record, NodeRecord.entry]
  bounds := by simp [NodeMetrics.record, NodeRecord.entry]
  mean := ⟨by simp [NodeMetrics.record, NodeRecord.entry],
    by simp [NodeMetrics.record, NodeRecord.entry]⟩

/-- One more duration, with the least, the greatest and the mean. -/
theorem NodeMetrics.Right.record (h : m.Right ds) (hds : ∀ d ∈ ds, 0 ≤ d) (hr : 0 ≤ r.duration) :
    (m.record r).Right (ds ++ [r.duration]) := by
  have hpos : 0 < ds.length := length_pos_of_mem h.min.1
  have havg : 0 ≤ m.averageDuration := (hds _ h.min.1).trans h.bounds.1
  have hset : {d | d ∈ ds ++ [r.duration]} = insert r.duration {d | d ∈ ds} := by
    ext d
    simp [or_comm]
  obtain ⟨hn, hparts⟩ := record_counts m r
  obtain ⟨hmin, hmax⟩ := record_minMax m r
  have haverage : (m.record r).averageDuration =
      (m.averageDuration * ds.length + r.duration).tdiv (ds.length + 1) := by
    simp only [NodeMetrics.record, h.count, add_sub_cancel_right]
    exact if_neg (by omega)
  refine ⟨by simp [hn, h.count], by simp [hparts, h.parts], ?_, ?_, ?_, ?_⟩
  · rw [hset, hmin]
    exact h.min.insert _
  · rw [hset, hmax]
    exact h.max.insert _
  · rw [haverage, hmin, hmax]
    exact ⟨le_tdiv (by omega) (inf_le_right.trans h.bounds.1) inf_le_left havg hr,
      tdiv_le (by omega) (h.bounds.2.trans le_sup_right) le_sup_left havg hr⟩
  · rw [haverage]
    simpa using h.mean.step (by omega) havg hr

theorem durations_append (nodeID : String) (rs : List NodeRecord) (r : NodeRecord) :
    durations nodeID (rs ++ [r]) =
      durations nodeID rs ++ if r.nodeID = nodeID then [r.duration] else [] := by
  rw [durations, filter_append, map_append, filter_singleton]
  by_cases hid : r.nodeID = nodeID <;> simp [hid, durations]

/-- The entry of a node after the records, if there were any for it. -/
theorem lookup_foldl_record {nodeID : String} {rs : List NodeRecord}
    (h : ∀ d ∈ durations nodeID rs, 0 ≤ d) :
    (durations nodeID rs = [] ∧ (rs.foldl updateNodeMetrics ∅).lookup nodeID = none) ∨
      ∃ m, (rs.foldl updateNodeMetrics ∅).lookup nodeID = some m ∧
        m.Right (durations nodeID rs) := by
  induction rs using reverseRecOn with
  | nil => exact .inl ⟨rfl, rfl⟩
  | append_singleton rs r ih =>
    rw [durations_append] at h ⊢
    rw [foldl_append, foldl_cons, foldl_nil, updateNodeMetrics, GoMap.lookup_insert]
    by_cases hid : nodeID = r.nodeID
    · subst hid
      rw [if_pos rfl] at h ⊢
      obtain ⟨hds, hr⟩ := forall_mem_append.mp h
      have hr : 0 ≤ r.duration := hr _ mem_cons_self
      refine .inr ⟨_, if_pos rfl, ?_⟩
      obtain ⟨hnil, hnone⟩ | ⟨m, hm, hright⟩ := ih hds
      · rw [hnil, GoMap.get, hnone]
        exact right_entry r
      · rw [GoMap.get, hm]
        exact hright.record hds hr
    · rw [if_neg (Ne.symm hid), append_nil] at h ⊢
      rw [if_neg hid]
      exact ih h

/-- **Node metrics.** After any records, with durations that are not negative, the counts of a node
add up, its minimum and maximum are the true ones, its average lies between them and is the exact
mean up to `(n - 1) / 2`. -/
theorem node_metrics_right {nodeID : String} {rs : List NodeRecord} {ds : List ℤ}
    (hds : durations nodeID rs = ds) (h : ∀ d ∈ ds, 0 ≤ d) (hne : ds ≠ []) :
    ∃ m, (rs.foldl updateNodeMetrics ∅).lookup nodeID = some m ∧
      m.executionCount = ds.length ∧ m.successCount + m.failureCount = ds.length ∧
      IsLeast {d | d ∈ ds} m.minDuration ∧ IsGreatest {d | d ∈ ds} m.maxDuration ∧
      m.minDuration ≤ m.averageDuration ∧ m.averageDuration ≤ m.maxDuration ∧
      (m.averageDuration : ℚ) ≤ ds.sum / ds.length ∧
      (ds.sum : ℚ) / ds.length - m.averageDuration ≤ (ds.length - 1) / 2 := by
  subst hds
  obtain ⟨hnil, -⟩ | ⟨m, hm, hright⟩ := lookup_foldl_record h
  · exact absurd hnil hne
  have hpos := length_pos_of_ne_nil hne
  obtain ⟨hbelow, hloss⟩ := hright.mean.rat (by omega)
  exact ⟨m, hm, hright.count, hright.parts, hright.min, hright.max, hright.bounds.1,
    hright.bounds.2, by exact_mod_cast hbelow, by exact_mod_cast hloss⟩

/-- Durations 1, 2 and 2: the average is 1, and 5 / 3 is the mean. -/
def threeRecords : List NodeRecord :=
  [⟨"n", "http", 1, true, 0⟩, ⟨"n", "http", 2, false, 1⟩, ⟨"n", "http", 2, true, 2⟩]

theorem node_metrics_three : ∃ m, (threeRecords.foldl updateNodeMetrics ∅).lookup "n" = some m ∧
    m.averageDuration ≤ m.maxDuration := by
  obtain ⟨m, hm, -, -, -, -, -, hle, -⟩ :=
    node_metrics_right (show durations "n" threeRecords = [1, 2, 2] from rfl) (by decide)
      (by decide)
  exact ⟨m, hm, hle⟩

end LinkFlow.Metrics
