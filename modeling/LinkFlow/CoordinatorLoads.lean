/-
A worker's load and the executions that the table of assignments maps to it
(`internal/executor/app/distributed/coordinator.go`).

The two are kept by different code. `drift` is by how much a worker's load exceeds the number
of its executions; each operation is described by what it adds to the drift of each worker,
and from that follows exactly which calls keep load and table together
(`loads_match_iff`).
-/
import LinkFlow.Coordinator

set_option autoImplicit false

namespace LinkFlow.Distributed

open List Option GoMap

namespace Coordinator

variable {fl : Float64}

/-! ## Loads and executions -/

def mapped (c : Coordinator) (id : String) : ℤ :=
  c.partitions.total (fun _ workerID => if workerID = id then 1 else 0)

/-- `CurrentLoad` of every registered worker is the number of its executions. -/
def Matched (c : Coordinator) : Prop :=
  ∀ id worker, c.workers.lookup id = some worker → worker.currentLoad = c.mapped id

def loadOf (workers : Workers) (id : String) : ℤ :=
  (workers.lookup id).elim 0 WorkerNode.currentLoad

def drift (c : Coordinator) (id : String) : ℤ := loadOf c.workers id - c.mapped id

theorem mapped_eq_length (c : Coordinator) (ρ : RangeOrder) (id : String) :
    c.mapped id = (c.executionsOf ρ id).length := by
  have hcount : ∀ l : List ((_ : String) × String),
      (l.map (fun e => if e.2 = id then (1 : ℤ) else 0)).sum =
        (l.filter (fun e => e.2 = id)).length := by
    intro l
    induction l with
    | nil => rfl
    | cons e l ih =>
      rw [map_cons, sum_cons, ih, filter_cons]
      by_cases he : e.2 = id
      · simp only [he, decide_true, if_true, length_cons]
        push_cast
        ring
      · simp [he]
  rw [mapped, total, hcount, executionsOf, length_map,
    ((ρ.perm 577 c.partitions.entries).filter _).length_eq]

variable {c : Coordinator} {workers : Workers}

theorem Registered.mapped_eq_zero (h : c.Registered) {id : String} (hid : id ∉ c.workers) :
    c.mapped id = 0 := by
  rw [c.mapped_eq_length .stored]
  have hnone : c.executionsOf .stored id = [] := by
    refine eq_nil_iff_forall_not_mem.mpr (fun e he => ?_)
    exact hid (h e id (mem_executionsOf.mp he))
  rw [hnone]
  rfl

/-- The loads are right exactly if no worker's has drifted. -/
theorem Registered.matched_iff (h : c.Registered) : c.Matched ↔ ∀ id, c.drift id = 0 := by
  constructor
  · intro hmatched id
    rw [drift, loadOf]
    cases hid : c.workers.lookup id with
    | none => rw [h.mapped_eq_zero (AList.lookup_eq_none.mp hid)]; rfl
    | some worker =>
      rw [elim_some, hmatched id worker hid]
      exact Int.sub_self _
  · intro hdrift id worker hid
    have := hdrift id
    rw [drift, loadOf, hid, elim_some] at this
    omega

/-! ## What an operation adds to the drift -/

theorem loadOf_addLoad {id : String} (hid : id ∈ workers) (d : ℤ) (k : String) :
    loadOf (workers.addLoad id d) k = loadOf workers k + if k = id then d else 0 := by
  rw [loadOf, Workers.lookup_addLoad, loadOf]
  by_cases hk : k = id
  · obtain ⟨worker, hworker⟩ := isSome_iff_exists.mp (AList.lookup_isSome.mpr hid)
    rw [if_pos hk, if_pos hk, hk, hworker]
    rfl
  · rw [if_neg hk, if_neg hk, add_zero]

theorem loadOf_insert (workers : Workers) (id k : String) (worker : WorkerNode) :
    loadOf (workers.insert id worker) k =
      if k = id then worker.currentLoad else loadOf workers k := by
  rw [loadOf, lookup_insert]
  by_cases hk : k = id
  · rw [if_pos hk, if_pos hk]
    rfl
  · rw [if_neg hk, if_neg hk]
    rfl

theorem mapped_forget (c : Coordinator) (e k : String) :
    (c.forget e).mapped k = c.mapped k - if c.partitions.lookup e = some k then 1 else 0 := by
  have htotal := total_erase (fun _ workerID => if workerID = k then (1 : ℤ) else 0)
    c.partitions e
  rw [mapped, mapped, forget, ← htotal]
  cases he : c.partitions.lookup e with
  | none => simp
  | some id => simp

theorem drift_forget (c : Coordinator) (e k : String) :
    (c.forget e).drift k = c.drift k + if c.partitions.lookup e = some k then 1 else 0 := by
  have hload : loadOf (c.forget e).workers k = loadOf c.workers k := rfl
  rw [drift, mapped_forget, hload, drift]
  omega

variable {e o u : String} {c' : Coordinator} (ρ : RangeOrder)

theorem drift_place {id : String} (he : c.partitions.lookup e = none) (hid : id ∈ c.workers)
    (k : String) : (c.place e id).drift k = c.drift k := by
  have hmapped : (c.place e id).mapped k = c.mapped k + if k = id then 1 else 0 := by
    have htotal := total_insert (fun _ workerID => if workerID = k then (1 : ℤ) else 0)
      c.partitions e id
    rw [he, elim_none, add_zero] at htotal
    rw [mapped, place, htotal, mapped]
    simp only [eq_comm]
  rw [drift, hmapped, place, loadOf_addLoad hid, drift]
  omega

theorem mem_of_lookup {id : String} {worker : WorkerNode} (h : workers.lookup id = some worker) :
    id ∈ workers :=
  AList.lookup_isSome.mp (by rw [h]; rfl)

/-- The worker whose executions are reassigned keeps its load for each of them. -/
theorem drift_reassignLoop {workerID : String} (orders : ℕ → RangeOrder) (i : ℕ)
    (executions : List String) (hnodup : executions.Nodup)
    (hmapped : ∀ e ∈ executions, c.partitions.lookup e = some workerID) (k : String) :
    (reassignLoop fl orders i executions c).drift k =
      c.drift k + if k = workerID then (executions.length : ℤ) else 0 := by
  induction executions generalizing i c with
  | nil =>
    rw [reassignLoop]
    simp
  | cons e rest ih =>
    obtain ⟨hfresh, hnodup⟩ := nodup_cons.mp hnodup
    obtain ⟨he, hrest⟩ := forall_mem_cons.mp hmapped
    have hne : ∀ e' ∈ rest, e' ≠ e := fun e' he' heq => hfresh (heq ▸ he')
    have hforget := c.drift_forget e k
    rw [he] at hforget
    have hkept : ∀ e' ∈ rest, (c.forget e).partitions.lookup e' = some workerID := by
      intro e' he'
      rw [forget, lookup_erase, if_neg (hne e' he')]
      exact hrest e' he'
    rw [reassignLoop, length_cons]
    split
    · rw [ih (i + 1) hnodup hkept, hforget]
      by_cases hk : k = workerID
      · simp only [hk, if_true]
        push_cast
        ring
      · simp [hk, Ne.symm hk]
    · rename_i id hselect
      obtain ⟨worker, hworker, -⟩ := selectWorker_spec hselect
      have hnone : (c.forget e).partitions.lookup e = none := by
        rw [forget, lookup_erase, if_pos rfl]
      rw [ih (i + 1) hnodup, drift_place hnone (mem_of_lookup hworker), hforget]
      · by_cases hk : k = workerID
        · simp only [hk, if_true]
          push_cast
          ring
        · simp [hk, Ne.symm hk]
      · intro e' he'
        rw [place, lookup_insert, if_neg (hne e' he')]
        exact hkept e' he'

theorem executionsOf_nodup (c : Coordinator) (id : String) : (c.executionsOf ρ id).Nodup := by
  refine List.Nodup.sublist (filter_sublist.map Sigma.fst) ?_
  exact rangeKeys_nodup ρ 577 c.partitions

theorem drift_reassign (orders : ℕ → RangeOrder) (c : Coordinator) (workerID k : String) :
    (c.reassignWorkFromWorker fl ρ orders workerID).drift k =
      c.drift k + if k = workerID then c.mapped workerID else 0 := by
  rw [reassignWorkFromWorker, drift_reassignLoop orders 0 _ (c.executionsOf_nodup ρ workerID)
    (fun e he => mem_executionsOf.mp he), c.mapped_eq_length ρ]

/-! ## Rebalancing -/

/-- The condition in the nested loops of `performRebalance`. -/
def Movable (workers : Workers) (o u : String) : Prop :=
  ∃ heavy light, workers.lookup o = some heavy ∧ workers.lookup u = some light ∧
    heavy.currentLoad > heavy.capacity.tdiv 2 ∧ light.currentLoad < light.capacity.tdiv 2

def pairs (fl : Float64) (ρ : RangeOrder) (c : Coordinator) : List (String × String) :=
  (c.overloaded fl ρ).flatMap (fun o => (c.underloaded fl ρ).map (fun u => (o, u)))

theorem mem_pairs {ρ : RangeOrder} {p : String × String} :
    p ∈ c.pairs fl ρ ↔ p.1 ∈ c.overloaded fl ρ ∧ p.2 ∈ c.underloaded fl ρ := by
  rw [pairs, mem_flatMap]
  constructor
  · rintro ⟨o, ho, hp⟩
    obtain ⟨u, hu, rfl⟩ := mem_map.mp hp
    exact ⟨ho, hu⟩
  · rintro ⟨ho, hu⟩
    exact ⟨p.1, ho, mem_map.mpr ⟨p.2, hu, rfl⟩⟩

theorem performRebalance_eq (c : Coordinator) : (c.performRebalance fl ρ).workers =
      (c.pairs fl ρ).foldl (fun workers p => moveWork workers p.1 p.2) c.workers := by
  rw [pairs, foldl_flatMap]
  simp only [foldl_map]
  rfl

theorem moveWork_of_not_movable (h : ¬ Movable workers o u) : moveWork workers o u = workers := by
  obtain heq | ⟨heavy, light, ho, hu, hheavy, hlight, -⟩ := moveWork_cases workers o u
  · exact heq
  · exact absurd ⟨heavy, light, ho, hu, hheavy, hlight⟩ h

theorem loadOf_moveWork_le {k : String} (hk : k ≠ u) :
    loadOf (moveWork workers o u) k ≤ loadOf workers k := by
  obtain heq | ⟨heavy, light, ho, hu, -, -, heq⟩ := moveWork_cases workers o u
  · rw [heq]
  rw [heq, loadOf_addLoad ((Workers.mem_addLoad _ _ _ _).mpr (mem_of_lookup hu)),
    loadOf_addLoad (mem_of_lookup ho), if_neg hk]
  split_ifs
  · omega
  · omega

theorem loadOf_moveWork_lt (hne : o ≠ u) (h : Movable workers o u) :
    loadOf (moveWork workers o u) o < loadOf workers o := by
  obtain ⟨heavy, light, ho, hu, hheavy, hlight⟩ := h
  have hmove : moveWork workers o u = (workers.addLoad o (-1)).addLoad u 1 := by
    simp only [moveWork, ho, hu]
    rw [if_pos ⟨hheavy, hlight⟩]
  rw [hmove, loadOf_addLoad ((Workers.mem_addLoad _ _ _ _).mpr (mem_of_lookup hu)),
    loadOf_addLoad (mem_of_lookup ho), if_neg hne, if_pos rfl]
  omega

/-- The first pair that can move does, and what an overloaded worker gives away does not come
back: it is not underloaded. -/
theorem exists_loadOf_lt (ps : List (String × String)) (hne : ∀ p ∈ ps, ∀ p' ∈ ps, p.1 ≠ p'.2)
    (hmove : ∃ p ∈ ps, Movable workers p.1 p.2) :
    ∃ k, loadOf (ps.foldl (fun workers p => moveWork workers p.1 p.2) workers) k <
      loadOf workers k := by
  have hle : ∀ (qs : List (String × String)) (workers : Workers) (k : String), (∀ p ∈ qs, k ≠ p.2) →
      loadOf (qs.foldl (fun workers p => moveWork workers p.1 p.2) workers) k ≤
        loadOf workers k := by
    intro qs workers k hk
    refine foldlRecOn (motive := fun ws => loadOf ws k ≤ loadOf workers k) qs _ le_rfl ?_
    intro ws hws p hp
    exact (loadOf_moveWork_le (hk p hp)).trans hws
  induction ps with
  | nil =>
    obtain ⟨p, hp, -⟩ := hmove
    cases hp
  | cons p ps ih =>
    rw [foldl_cons]
    by_cases hp : Movable workers p.1 p.2
    · refine ⟨p.1, lt_of_le_of_lt (hle ps _ p.1 ?_) (loadOf_moveWork_lt ?_ hp)⟩
      · exact fun p' hp' => hne p mem_cons_self p' (mem_cons_of_mem p hp')
      · exact hne p mem_cons_self p mem_cons_self
    · rw [moveWork_of_not_movable hp]
      refine ih (fun q hq q' hq' => hne q (mem_cons_of_mem p hq) q'
        (mem_cons_of_mem p hq')) ?_
      obtain ⟨q, hq, hqmove⟩ := hmove
      rcases mem_cons.mp hq with rfl | hq
      · exact absurd hqmove hp
      · exact ⟨q, hq, hqmove⟩

/-- Rebalancing changes no load exactly if there is no pair to move between. -/
theorem rebalance_keeps_iff (c : Coordinator) :
    (∀ k, loadOf (c.performRebalance fl ρ).workers k = loadOf c.workers k) ↔
      ∀ o ∈ c.overloaded fl ρ, ∀ u ∈ c.underloaded fl ρ, ¬ Movable c.workers o u := by
  constructor
  · intro hkeep o ho u hu hmove
    have hne : ∀ p ∈ c.pairs fl ρ, ∀ p' ∈ c.pairs fl ρ, p.1 ≠ p'.2 := fun p hp p' hp' =>
      (overloaded_spec (mem_pairs.mp hp).1 (mem_pairs.mp hp').2).1
    obtain ⟨k, hk⟩ := exists_loadOf_lt (c.pairs fl ρ) hne
      ⟨(o, u), mem_pairs.mpr ⟨ho, hu⟩, hmove⟩
    rw [← performRebalance_eq, hkeep k] at hk
    exact lt_irrefl _ hk
  · intro hnone k
    have hsame : (c.performRebalance fl ρ).workers = c.workers := by
      refine performRebalance_rule (P := fun workers => workers = c.workers) ρ ?_ rfl
      rintro workers o ho u hu rfl
      exact moveWork_of_not_movable (hnone o ho u hu)
    rw [hsame]

/-! ## Which calls keep load and table together -/

/-- An execution in the table is not assigned again while its worker is not active; a worker
registers, and reports, the number of its executions; a rebalance finds nothing to move; work is
reassigned only from a worker that has unregistered or has none; and an execution is completed by
its worker, or by one without executions. -/
def Keeps (fl : Float64) (c : Coordinator) : Action → Prop
  | .assign _ _ e _ => c.activeAssignee e = none → c.partitions.lookup e = none
  | .register _ _ id worker => id ≠ "" → worker.currentLoad = c.mapped id
  | .unregister _ _ _ => True
  | .heartbeat _ id metrics => id ∈ c.workers → metrics.currentLoad = c.mapped id
  | .healthCheck _ _ => True
  | .rebalance ρ => ∀ o ∈ c.overloaded fl ρ, ∀ u ∈ c.underloaded fl ρ, ¬ Movable c.workers o u
  | .reassign _ _ id => c.mapped id = 0
  | .completed e id => (c.partitions.lookup e).elim (c.mapped id = 0) (· = id)

theorem matched_iff_of_drift {c : Coordinator} (h' : c'.Registered) {d : String → ℤ}
    (h : c.Registered) (hm : c.Matched) (hdrift : ∀ k, c'.drift k = c.drift k + d k) :
    c'.Matched ↔ ∀ k, d k = 0 := by
  rw [h'.matched_iff]
  refine forall_congr' (fun k => ?_)
  rw [hdrift k, h.matched_iff.mp hm k, zero_add]

theorem matched_iff_of_loads (c : Coordinator) (h' : c'.Registered)
    (hpartitions : c'.partitions = c.partitions) :
    c'.Matched ↔ ∀ k, loadOf c'.workers k = c.mapped k := by
  have hmapped : ∀ k, c'.mapped k = c.mapped k := fun k => by rw [mapped, hpartitions, mapped]
  rw [h'.matched_iff]
  refine forall_congr' (fun k => ?_)
  rw [drift, hmapped k]
  exact Int.sub_eq_zero

theorem Registered.loadOf_eq (h : c.Registered) (hm : c.Matched) (k : String) :
    loadOf c.workers k = c.mapped k := by
  have := h.matched_iff.mp hm k
  rw [drift] at this
  omega

theorem mapped_nonneg (c : Coordinator) (id : String) : 0 ≤ c.mapped id := by
  rw [c.mapped_eq_length .stored]
  omega

theorem mapped_pos {id : String} (he : c.partitions.lookup e = some id) : 0 < c.mapped id := by
  rw [c.mapped_eq_length .stored]
  have := length_pos_of_mem (mem_executionsOf (ρ := .stored) |>.mpr he)
  omega

theorem matched_insert_iff (h : c.Registered) (hm : c.Matched) (id : String) (worker : WorkerNode) :
    { c with workers := c.workers.insert id worker }.Matched ↔
      worker.currentLoad = c.mapped id := by
  rw [matched_iff_of_loads c (h.insert id worker) rfl]
  constructor
  · intro hloads
    have hid := hloads id
    rwa [loadOf_insert, if_pos rfl] at hid
  · intro hload k
    rw [loadOf_insert]
    by_cases hk : k = id
    · rw [if_pos hk, hload, hk]
    · rw [if_neg hk, h.loadOf_eq hm k]

theorem loadOf_completed (c : Coordinator) (e id k : String) :
    loadOf (c.handleWorkCompleted e id).workers k =
      if k = id then max (loadOf c.workers id - 1) 0 else loadOf c.workers k := by
  have hforget : (c.forget e).workers = c.workers := rfl
  rw [handleWorkCompleted]
  dsimp only
  rw [hforget]
  cases hid : c.workers.lookup id with
  | none =>
    by_cases hk : k = id
    · rw [if_pos hk, hk, loadOf, hid]
      rfl
    · rw [if_neg hk]
  | some worker =>
    have hload : loadOf c.workers id = worker.currentLoad := by rw [loadOf, hid]; rfl
    rw [hload]
    exact loadOf_insert c.workers id k _

theorem drift_completed (h : c.Registered) (hm : c.Matched) (e id k : String) :
    (c.handleWorkCompleted e id).drift k =
      (if k = id then max (c.mapped id - 1) 0 - c.mapped id else 0) +
        if c.partitions.lookup e = some k then 1 else 0 := by
  have hmapped : (c.handleWorkCompleted e id).mapped k = (c.forget e).mapped k := rfl
  rw [drift, loadOf_completed, hmapped, mapped_forget, h.loadOf_eq hm, h.loadOf_eq hm]
  by_cases hk : k = id
  · rw [if_pos hk, if_pos hk, hk]
    omega
  · rw [if_neg hk, if_neg hk]
    omega

/-- The worker that had the execution before keeps its load. -/
theorem drift_assignWork (hnone : c.activeAssignee e = none) (ρ : RangeOrder) (intn : ℕ → ℕ)
    (requirements : WorkRequirements) (k : String) :
    (c.assignWork fl ρ intn e requirements).2.drift k =
      c.drift k + if c.partitions.lookup e = some k then 1 else 0 := by
  obtain ⟨id, hsome, -⟩ | ⟨-, heq | ⟨id, worker, n, hworker, -, heq⟩⟩ :=
    assignWork_cases fl ρ intn c e requirements
  · rw [hnone] at hsome
    cases hsome
  · rw [heq, drift_forget]
  rw [heq, ← drift_forget]
  have hgone : (c.forget e).partitions.lookup e = none := by
    rw [forget, lookup_erase, if_pos rfl]
  exact drift_place (c := c.forget e) hgone (mem_of_lookup hworker) k

theorem drift_unregister (h : c.Registered) (hm : c.Matched) (ρ : RangeOrder)
    (orders : ℕ → RangeOrder) (workerID k : String) :
    (c.unregisterWorker fl ρ orders workerID).2.drift k = 0 := by
  rw [unregisterWorker]
  split
  · exact h.matched_iff.mp hm k
  rename_i worker hworker
  set draining : Coordinator := { c with
    workers := c.workers.insert workerID { worker with status := .draining } } with hdraining
  -- a status does not count
  have hsame : draining.drift k = 0 := by
    have hload : loadOf draining.workers k = loadOf c.workers k := by
      rw [hdraining, loadOf_insert]
      split_ifs with hk
      · rw [hk, loadOf, hworker]
        rfl
      · rfl
    have hzero := h.matched_iff.mp hm k
    rw [drift] at hzero ⊢
    rw [hload]
    exact hzero
  have hdrift : (draining.reassignWorkFromWorker fl ρ orders workerID).drift k =
      draining.drift k + if k = workerID then draining.mapped workerID else 0 :=
    draining.drift_reassign ρ orders workerID k
  by_cases hk : k = workerID
  · -- the worker is gone, and its executions were moved away or dropped
    have hempty : (draining.reassignWorkFromWorker fl ρ orders workerID).executionsOf ρ
        workerID = [] := by
      refine eq_nil_iff_forall_not_mem.mpr (fun e he => ?_)
      exact reassignLoop_leaves orders 0 _ (inactive_draining c workerID worker)
        (fun e he => mem_executionsOf.mpr he) e (mem_executionsOf.mp he)
    have hnone := mapped_eq_length (draining.reassignWorkFromWorker fl ρ orders workerID) ρ
      workerID
    rw [hempty] at hnone
    rw [hk, drift, loadOf, AList.lookup_erase]
    simp only [mapped] at hnone ⊢
    rw [hnone]
    rfl
  · rw [if_neg hk, hsame, drift, loadOf] at hdrift
    rw [drift, loadOf, AList.lookup_erase_ne hk]
    exact hdrift

theorem matched_assign_iff (h : c.Registered) (hm : c.Matched) (ρ : RangeOrder) (intn : ℕ → ℕ)
    (e : String) (requirements : WorkRequirements) :
    (c.step fl (.assign ρ intn e requirements)).Matched ↔
      c.Keeps fl (.assign ρ intn e requirements) := by
  cases hassignee : c.activeAssignee e with
  | some id =>
    have hsame : (c.assignWork fl ρ intn e requirements).2 = c := by
      rw [assignWork, hassignee]
    rw [step, hsame, Keeps, hassignee]
    exact iff_of_true hm (fun hnone => by cases hnone)
  | none =>
    have h' : (c.step fl (.assign ρ intn e requirements)).Registered := h.step _
    rw [matched_iff_of_drift h' h hm (drift_assignWork hassignee ρ intn requirements), Keeps,
      hassignee]
    constructor
    · intro hdrift _
      cases he : c.partitions.lookup e with
      | none => rfl
      | some id => simpa [he] using hdrift id
    · intro hnone k
      rw [hnone rfl]
      rfl

theorem matched_completed_iff (h : c.Registered) (hm : c.Matched) (e id : String) :
    (c.step fl (.completed e id)).Matched ↔ c.Keeps fl (.completed e id) := by
  rw [(h.step (.completed e id)).matched_iff, Keeps, step]
  simp only [drift_completed h hm]
  have hnonneg := c.mapped_nonneg id
  cases he : c.partitions.lookup e with
  | none =>
    rw [elim_none]
    constructor
    · intro hdrift
      have hid := hdrift id
      simp only [if_true, reduceCtorEq, if_false] at hid
      omega
    · intro hzero k
      rw [hzero]
      simp
  | some owner =>
    rw [elim_some]
    have hpos := mapped_pos he
    constructor
    · intro hdrift
      by_contra hne
      have howner := hdrift owner
      rw [if_neg hne, if_pos rfl] at howner
      omega
    · rintro rfl k
      by_cases hk : k = owner
      · rw [if_pos hk, hk, if_pos rfl]
        omega
      · rw [if_neg hk, if_neg (fun heq => hk (some.inj heq).symm)]
        rfl

/-- **One call.** From a coordinator whose loads and table agree, the calls that keep them so. -/
theorem matched_step_iff (h : c.Registered) (hm : c.Matched) (a : Action) :
    (c.step fl a).Matched ↔ c.Keeps fl a := by
  have h' : (c.step fl a).Registered := h.step a
  cases a with
  | assign ρ intn e requirements => exact matched_assign_iff h hm ρ intn e requirements
  | register now registry id worker =>
    rw [Keeps]
    by_cases hid : id = ""
    · have hsame : c.step fl (.register now registry id worker) = c := by
        rw [step, registerWorker, if_pos hid]
      rw [hsame]
      exact iff_of_true hm (fun hne => absurd hid hne)
    · have hnew : c.step fl (.register now registry id worker) =
          { c with workers := c.workers.insert id (worker.registered now) } := by
        rw [step, registerWorker, if_neg hid]
      rw [hnew, matched_insert_iff h hm]
      exact (imp_iff_right hid).symm
  | unregister ρ orders workerID =>
    exact iff_of_true (h'.matched_iff.mpr (drift_unregister h hm ρ orders workerID)) trivial
  | heartbeat now workerID metrics =>
    rw [Keeps]
    cases hworker : c.workers.lookup workerID with
    | none =>
      have hsame : c.step fl (.heartbeat now workerID metrics) = c := by
        rw [step, updateWorkerHeartbeat, hworker]
      rw [hsame]
      exact iff_of_true hm (fun hid => absurd hid (AList.lookup_eq_none.mp hworker))
    | some worker =>
      rw [imp_iff_right (mem_of_lookup hworker), step, updateWorkerHeartbeat, hworker]
      exact matched_insert_iff h hm workerID _
  | healthCheck ρ now =>
    refine iff_of_true ((matched_iff_of_loads c h' rfl).mpr (fun k => ?_)) trivial
    obtain ⟨status, hlookup⟩ := lookup_healthCheck ρ now c k
    rw [← h.loadOf_eq hm k, loadOf, step, hlookup, loadOf]
    cases c.workers.lookup k <;> rfl
  | rebalance ρ =>
    rw [matched_iff_of_loads c h' rfl, Keeps, ← rebalance_keeps_iff]
    refine forall_congr' (fun k => ?_)
    rw [← h.loadOf_eq hm k]
    rfl
  | reassign ρ orders workerID =>
    rw [matched_iff_of_drift h' h hm (c.drift_reassign ρ orders workerID), Keeps]
    constructor
    · intro hdrift
      simpa using hdrift workerID
    · intro hzero k
      rw [hzero, ite_self]
  | completed e id => exact matched_completed_iff h hm e id

/-- **Load and table.** Throughout a sequence of operations the load of every registered worker is
the number of executions the table maps to it, exactly if every call keeps the two together. -/
theorem loads_match_iff (fl : Float64) (as : List Action) :
    Runs.Always (step fl) Matched Coordinator.new as ↔
      Runs.Along (step fl) (Keeps fl) Coordinator.new as := by
  refine Runs.always_iff_along_of_strengthen (Q := fun c => c.Registered ∧ c.Matched)
    (fun c hc => hc.2) ?_ ?_ ⟨inv_new.2, ?_⟩
  · exact fun c a hc ha => ⟨hc.1.step a, (matched_step_iff hc.1 hc.2 a).mpr ha⟩
  · exact fun c a hc ha => (matched_step_iff hc.1 hc.2 a).mp ha
  · intro id worker hworker
    cases hworker

/-- An execution of a worker that goes offline: it is reassigned, and the worker keeps its
load. -/
def failover : List Action :=
  [.register 0 none "a" { capacity := 4, currentLoad := 0 }, .assign .stored id "e1" {},
    .register 70000000000 none "b" { capacity := 4, currentLoad := 0 },
    .healthCheck .stored 70000000000, .reassign .stored (fun _ => .stored) "a"]

/-- An execution that is assigned again when its worker has become unhealthy. -/
def assignedTwice : List Action :=
  [.register 0 none "a" { capacity := 4, currentLoad := 0 }, .assign .stored id "e1" {},
    .register 40000000000 none "b" { capacity := 4, currentLoad := 0 },
    .healthCheck .stored 40000000000, .assign .stored id "e1" {}]

/-- A worker with three of four executions, and one that has just registered. -/
def rebalanced : List Action :=
  [.register 0 none "a" { capacity := 4, currentLoad := 0 }, .assign .stored id "e1" {},
    .assign .stored id "e2" {}, .assign .stored id "e3" {},
    .register 0 none "b" { capacity := 4, currentLoad := 0 }, .rebalance .stored]

/-- The loads and the numbers of executions of the workers `a` and `b` at the end of a run. -/
def loadsAndExecutions (as : List Action) : List (ℤ × ℤ) :=
  let c := as.foldl (step exactFloat) Coordinator.new
  ["a", "b"].map (fun id => (loadOf c.workers id, c.mapped id))

theorem loads_drift : loadsAndExecutions failover = [(1, 0), (1, 1)] ∧
      loadsAndExecutions assignedTwice = [(1, 0), (1, 1)] ∧
      loadsAndExecutions rebalanced = [(2, 3), (1, 0)] := by
  decide +kernel

end Coordinator

end LinkFlow.Distributed
