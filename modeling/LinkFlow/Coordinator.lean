/-
The coordinator of distributed execution
(`internal/executor/app/distributed/coordinator.go`): its workers with their loads, and the
table of assignments.

A worker's ID is its key in the map: the only writes to the map are
`c.workers[worker.ID] = worker`, and a `*WorkerNode` that a function passes on is named by its
ID. Arithmetic on `float64` decides which worker is chosen and which ones are over- or
underloaded; it is a parameter (`Float64`), and nothing below depends on how it rounds.
-/
import LinkFlow.Lib.GoMap
import LinkFlow.Lib.Runs

set_option autoImplicit false

namespace LinkFlow.Distributed

open List Option GoMap

/-! ## Workers and requirements -/

inductive WorkerStatus
  | active
  | unhealthy
  | draining
  | offline
deriving DecidableEq, Repr

/-- `WorkerNode`, without its ID and what the coordinator never reads. Times are nanoseconds. -/
structure WorkerNode where
  (capacity currentLoad : ℤ)
  tags : List String := []
  status : WorkerStatus := .active
  (lastHeartbeat executionsCompleted executionsFailed averageExecutionTime : ℤ := 0)
deriving DecidableEq, Repr

/-- `other` is any string without a case of its own. -/
inductive SelectionStrategy
  | leastLoaded
  | roundRobin
  | random
  | affinity
  | other
deriving DecidableEq, Repr

/-- `RequiredCapacity` is read nowhere. -/
structure WorkRequirements where
  requiresTags : List String := []
  selectionStrategy : SelectionStrategy := .other
  affinityKey : String := ""
deriving DecidableEq, Repr

structure WorkerMetrics where
  currentLoad : ℤ
  (executionsCompleted executionsFailed averageExecutionTime : ℤ := 0)
  healthy : Bool
deriving DecidableEq, Repr

/-- `float64`, as far as the coordinator computes with it. -/
structure Float64 where
  F : Type
  ofInt : ℤ → F
  (div mul : F → F → F)
  lt : F → F → Bool
  toInt : F → ℤ
  (upper lower : F)

/-- An `int` holds 64 bits. -/
def wrap (n : ℤ) : ℤ := Int.bmod n (2 ^ 64)

abbrev Workers := GoMap String WorkerNode

structure Coordinator where
  workers : Workers
  partitions : GoMap String String
  (distributedWork totalExecutions : ℕ := 0)

/-- `NewCoordinator` -/
def Coordinator.new : Coordinator := { workers := ∅, partitions := ∅ }

/-! ## Selecting a worker -/

/-- A worker that `selectWorker` does not pass over. -/
def WorkerNode.eligible (requirements : WorkRequirements) (worker : WorkerNode) : Bool :=
  worker.status = .active && worker.currentLoad < worker.capacity &&
    requirements.requiresTags.all (worker.tags.contains ·)

/-- `float64(worker.CurrentLoad) / float64(worker.Capacity)` -/
def WorkerNode.loadPercentage (fl : Float64) (worker : WorkerNode) : fl.F :=
  fl.div (fl.ofInt worker.currentLoad) (fl.ofInt worker.capacity)

/-- The selected worker and `minLoad`, over the candidates. -/
def selectLeastLoaded (fl : Float64) (candidates : List ((_ : String) × WorkerNode)) :
    Option String :=
  (candidates.foldl (fun (best : Option String × ℤ) worker =>
    let currentLoad := fl.toInt (fl.mul (worker.2.loadPercentage fl) (fl.ofInt 100))
    if currentLoad < best.2 then (some worker.1, currentLoad) else best)
    (none, 2 ^ 63 - 1)).1

def selectRoundRobin (distributedWork : ℕ) (candidates : List ((_ : String) × WorkerNode)) :
    Option String :=
  (candidates[distributedWork % candidates.length]?).map Sigma.fst

/-- `intn` is what `rand.Intn` gives. -/
def selectRandom (intn : ℕ → ℕ) (candidates : List ((_ : String) × WorkerNode)) : Option String :=
  (candidates[intn candidates.length % candidates.length]?).map Sigma.fst

def selectWithAffinity (fl : Float64) (affinityKey : String)
    (candidates : List ((_ : String) × WorkerNode)) : Option String :=
  if affinityKey = "" then selectLeastLoaded fl candidates
  else
    let hash := affinityKey.toList.foldl (fun hash ch => wrap (hash * 31 + ch.toNat)) 0
    (candidates[(hash.tmod candidates.length).natAbs]?).map Sigma.fst

/-- The loop over the workers is the `range` of line 211. -/
def selectWorker (fl : Float64) (ρ : RangeOrder) (intn : ℕ → ℕ) (c : Coordinator)
    (requirements : WorkRequirements) : Option String :=
  let candidates := (ρ.run 211 c.workers.entries).filter (fun e => e.2.eligible requirements)
  match requirements.selectionStrategy with
  | .leastLoaded => selectLeastLoaded fl candidates
  | .roundRobin => selectRoundRobin c.distributedWork candidates
  | .random => selectRandom intn candidates
  | .affinity => selectWithAffinity fl requirements.affinityKey candidates
  | .other => selectLeastLoaded fl candidates

/-! ## The operations -/

/-- A worker with what `RegisterWorker` sets. -/
def WorkerNode.registered (now : ℤ) (worker : WorkerNode) : WorkerNode :=
  { worker with
    capacity := if worker.capacity = 0 then 10 else worker.capacity
    status := .active
    lastHeartbeat := now }

/-- `worker.CurrentLoad += d` for the worker with an ID. -/
def Workers.addLoad (workers : Workers) (id : String) (d : ℤ) : Workers :=
  match workers.lookup id with
  | none => workers
  | some worker => workers.insert id { worker with currentLoad := worker.currentLoad + d }

namespace Coordinator

/-- `c.partitions[executionID] = worker.ID` and `worker.CurrentLoad++` -/
def place (c : Coordinator) (executionID id : String) : Coordinator :=
  { c with partitions := c.partitions.insert executionID id, workers := c.workers.addLoad id 1 }

/-- `delete(c.partitions, executionID)` -/
def forget (c : Coordinator) (executionID : String) : Coordinator :=
  { c with partitions := c.partitions.erase executionID }

def activeAssignee (c : Coordinator) (executionID : String) : Option String :=
  (c.partitions.lookup executionID).filter (fun id =>
    (c.workers.lookup id).any (fun worker => worker.status = .active))

def assignWork (fl : Float64) (ρ : RangeOrder) (intn : ℕ → ℕ) (c : Coordinator)
    (executionID : String) (requirements : WorkRequirements) : Except String String × Coordinator :=
  match c.activeAssignee executionID with
  | some id => (.ok id, c)
  | none =>
    let c := c.forget executionID
    match selectWorker fl ρ intn c requirements with
    | none => (.error "no suitable worker available", c)
    | some id => (.ok id, { c.place executionID id with distributedWork := c.distributedWork + 1 })

/-- `registry` is the error of the registry, if it returns one. -/
def registerWorker (c : Coordinator) (now : ℤ) (registry : Option String) (id : String)
    (worker : WorkerNode) : Option String × Coordinator :=
  if id = "" then (some "worker ID is required", c)
  else
    (registry.map ("failed to register with registry: " ++ ·),
      { c with workers := c.workers.insert id (worker.registered now) })

/-- The loop of `reassignWorkFromWorker` from its iteration `i`, whose call of `selectWorker` visits
the workers in the order `orders i`. -/
def reassignLoop (fl : Float64) (orders : ℕ → RangeOrder) :
    ℕ → List String → Coordinator → Coordinator
  | _, [], c => c
  | i, executionID :: rest, c =>
    let c := c.forget executionID
    let c := match selectWorker fl (orders i) id c { selectionStrategy := .leastLoaded } with
      | none => c
      | some id => c.place executionID id
    reassignLoop fl orders (i + 1) rest c

/-- The executions assigned to a worker, as the `range` of line 577 visits them. -/
def executionsOf (ρ : RangeOrder) (c : Coordinator) (workerID : String) : List String :=
  ((ρ.run 577 c.partitions.entries).filter (fun e => e.2 = workerID)).map Sigma.fst

def reassignWorkFromWorker (fl : Float64) (ρ : RangeOrder) (orders : ℕ → RangeOrder)
    (c : Coordinator) (workerID : String) : Coordinator :=
  reassignLoop fl orders 0 (c.executionsOf ρ workerID) c

def unregisterWorker (fl : Float64) (ρ : RangeOrder) (orders : ℕ → RangeOrder) (c : Coordinator)
    (workerID : String) : Option String × Coordinator :=
  match c.workers.lookup workerID with
  | none => (some ("worker not found: " ++ workerID), c)
  | some worker =>
    let c := { c with workers := c.workers.insert workerID { worker with status := .draining } }
    let c := c.reassignWorkFromWorker fl ρ orders workerID
    (none, { c with workers := c.workers.erase workerID })

def updateWorkerHeartbeat (c : Coordinator) (now : ℤ) (workerID : String)
    (metrics : WorkerMetrics) : Option String × Coordinator :=
  match c.workers.lookup workerID with
  | none => (some ("worker not found: " ++ workerID), c)
  | some worker =>
    (none, { c with workers := c.workers.insert workerID { worker with
      lastHeartbeat := now
      currentLoad := metrics.currentLoad
      executionsCompleted := metrics.executionsCompleted
      executionsFailed := metrics.executionsFailed
      averageExecutionTime := metrics.averageExecutionTime
      status := if worker.status = .unhealthy ∧ metrics.healthy = true then .active
        else worker.status } })

/-- The `switch` of `performHealthCheck`: the status it leaves a worker with. -/
def checkStatus (now : ℤ) (worker : WorkerNode) : WorkerStatus :=
  if now - worker.lastHeartbeat > 60000000000 then .offline
  else if now - worker.lastHeartbeat > 30000000000 then
    if worker.status = .active then .unhealthy else worker.status
  else if worker.status = .unhealthy then .active else worker.status

/-- The coordinator, and the workers for which it starts a `reassignWorkFromWorker` that runs on its
own. -/
def performHealthCheck (ρ : RangeOrder) (now : ℤ) (c : Coordinator) : Coordinator × List String :=
  let visited := GoMap.rangeKeys ρ 457 c.workers
  let workers := visited.foldl (fun (workers : Workers) id => match workers.lookup id with
    | none => workers
    | some worker => workers.insert id { worker with status := checkStatus now worker }) c.workers
  ({ c with workers }, visited.filter (fun id => (c.workers.lookup id).any (fun worker =>
      checkStatus now worker = .offline && worker.status ≠ .offline)))

/-- The body of the two nested loops of `performRebalance`. -/
def moveWork (workers : Workers) (overWorker underWorker : String) : Workers :=
  match workers.lookup overWorker, workers.lookup underWorker with
  | some o, some u =>
    if o.currentLoad > o.capacity.tdiv 2 ∧ u.currentLoad < u.capacity.tdiv 2 then
      (workers.addLoad overWorker (-1)).addLoad underWorker 1
    else workers
  | _, _ => workers

/-- `averageLoadPercentage`, from the sums of the `range` of line 518. -/
def averageLoadPercentage (fl : Float64) (ρ : RangeOrder) (c : Coordinator) : fl.F :=
  let active := (ρ.run 518 c.workers.entries).filter (fun e => e.2.status = .active)
  fl.div (fl.ofInt (active.foldl (fun sum e => wrap (sum + e.2.currentLoad)) 0))
    (fl.ofInt (active.foldl (fun sum e => wrap (sum + e.2.capacity)) 0))

def overloads (fl : Float64) (average : fl.F) (worker : WorkerNode) : Bool :=
  fl.lt (fl.mul average fl.upper) (worker.loadPercentage fl)

/-- `overloaded` and `underloaded`, from the `range` of line 535. -/
def overloaded (fl : Float64) (ρ : RangeOrder) (c : Coordinator) : List String :=
  ((ρ.run 535 c.workers.entries).filter (fun e =>
    e.2.status = .active && overloads fl (c.averageLoadPercentage fl ρ) e.2)).map Sigma.fst

def underloaded (fl : Float64) (ρ : RangeOrder) (c : Coordinator) : List String :=
  ((ρ.run 535 c.workers.entries).filter (fun e =>
    e.2.status = .active && !overloads fl (c.averageLoadPercentage fl ρ) e.2 &&
      fl.lt (e.2.loadPercentage fl)
        (fl.mul (c.averageLoadPercentage fl ρ) fl.lower))).map Sigma.fst

/-- Without an active worker both lists are empty, as they are where one of the two tests before the
loops fails. -/
def performRebalance (fl : Float64) (ρ : RangeOrder) (c : Coordinator) : Coordinator :=
  { c with
    workers := (c.overloaded fl ρ).foldl (fun workers overWorker =>
      (c.underloaded fl ρ).foldl (fun workers underWorker =>
        moveWork workers overWorker underWorker) workers) c.workers }

def handleWorkCompleted (c : Coordinator) (executionID workerID : String) : Coordinator :=
  let c := c.forget executionID
  let workers := match c.workers.lookup workerID with
    | none => c.workers
    | some worker =>
      c.workers.insert workerID { worker with currentLoad := max (worker.currentLoad - 1) 0 }
  { c with workers, totalExecutions := c.totalExecutions + 1 }

end Coordinator

/-- The operations, with what each of them is called with and meets. -/
inductive Action
  | assign (ρ : RangeOrder) (intn : ℕ → ℕ) (executionID : String)
      (requirements : WorkRequirements)
  | register (now : ℤ) (registry : Option String) (id : String) (worker : WorkerNode)
  | unregister (ρ : RangeOrder) (orders : ℕ → RangeOrder) (workerID : String)
  | heartbeat (now : ℤ) (workerID : String) (metrics : WorkerMetrics)
  | healthCheck (ρ : RangeOrder) (now : ℤ)
  | rebalance (ρ : RangeOrder)
  | reassign (ρ : RangeOrder) (orders : ℕ → RangeOrder) (workerID : String)
  | completed (executionID workerID : String)

namespace Coordinator

def step (fl : Float64) (c : Coordinator) : Action → Coordinator
  | .assign ρ intn executionID requirements => (c.assignWork fl ρ intn executionID requirements).2
  | .register now registry id worker => (c.registerWorker now registry id worker).2
  | .unregister ρ orders workerID => (c.unregisterWorker fl ρ orders workerID).2
  | .heartbeat now workerID metrics => (c.updateWorkerHeartbeat now workerID metrics).2
  | .healthCheck ρ now => (c.performHealthCheck ρ now).1
  | .rebalance ρ => c.performRebalance fl ρ
  | .reassign ρ orders workerID => c.reassignWorkFromWorker fl ρ orders workerID
  | .completed executionID workerID => c.handleWorkCompleted executionID workerID

end Coordinator

/-! ## Loads within capacities, assignments to registered workers -/

/-- The load lies between 0 and the capacity, which is positive. -/
def WorkerNode.Bounded (worker : WorkerNode) : Prop :=
  0 < worker.capacity ∧ 0 ≤ worker.currentLoad ∧ worker.currentLoad ≤ worker.capacity

def Workers.Bounded (workers : Workers) : Prop :=
  ∀ id worker, workers.lookup id = some worker → worker.Bounded

namespace Coordinator

/-- Every execution in the table points to a registered worker. -/
def Registered (c : Coordinator) : Prop :=
  ∀ executionID id, c.partitions.lookup executionID = some id → id ∈ c.workers

/-- The load of the active workers. -/
def activeLoad (c : Coordinator) : ℤ :=
  c.workers.total (fun _ worker => if worker.status = .active then worker.currentLoad else 0)

/-- A worker registers, and reports, a load within its capacity, where none given means 10. -/
def Reports (c : Coordinator) : Action → Prop
  | .register now _ _ worker => (worker.registered now).Bounded
  | .heartbeat _ workerID metrics => ∀ worker, c.workers.lookup workerID = some worker →
      0 ≤ metrics.currentLoad ∧ metrics.currentLoad ≤ worker.capacity
  | _ => True

instance (worker : WorkerNode) : Decidable worker.Bounded := inferInstanceAs (Decidable (_ ∧ _))

instance (c : Coordinator) : ∀ a, Decidable (c.Reports a)
  | .register now _ _ worker => inferInstanceAs (Decidable (worker.registered now).Bounded)
  | .heartbeat _ workerID metrics => inferInstanceAs
      (Decidable (∀ worker ∈ c.workers.lookup workerID,
        0 ≤ metrics.currentLoad ∧ metrics.currentLoad ≤ worker.capacity))
  | .assign _ _ _ _ | .unregister _ _ _ | .healthCheck _ _ | .rebalance _ | .reassign _ _ _
  | .completed _ _ => isTrue trivial

end Coordinator

/-! ## One worker at a time -/

namespace Workers

theorem lookup_addLoad (workers : Workers) (id k : String) (d : ℤ) :
    (workers.addLoad id d).lookup k = if k = id then (workers.lookup id).map
        (fun worker => { worker with currentLoad := worker.currentLoad + d })
      else workers.lookup k := by
  rw [addLoad]
  cases hid : workers.lookup id with
  | none =>
    by_cases hk : k = id
    · rw [if_pos hk, hk, hid, map_none]
    · rw [if_neg hk]
  | some worker => exact lookup_insert workers id k _

theorem mem_addLoad (workers : Workers) (id k : String) (d : ℤ) :
    k ∈ workers.addLoad id d ↔ k ∈ workers := by
  rw [← AList.lookup_isSome, ← AList.lookup_isSome, lookup_addLoad]
  by_cases hk : k = id
  · rw [if_pos hk, isSome_map, hk]
  · rw [if_neg hk]

variable {workers : Workers}

theorem Bounded.addLoad (h : workers.Bounded) {id : String} {d : ℤ}
    (hd : ∀ worker, workers.lookup id = some worker → 0 ≤ worker.currentLoad + d ∧
      worker.currentLoad + d ≤ worker.capacity) : (workers.addLoad id d).Bounded := by
  intro k worker hk
  rw [lookup_addLoad] at hk
  split_ifs at hk with hkid
  · obtain ⟨before, hbefore, rfl⟩ := map_eq_some_iff.mp hk
    exact ⟨(h id before hbefore).1, hd before hbefore⟩
  · exact h k worker hk

theorem Bounded.insert (h : workers.Bounded) {id : String} {worker : WorkerNode}
    (hworker : worker.Bounded) : Bounded (workers.insert id worker) :=
  forall_insert h hworker

theorem Bounded.erase (h : workers.Bounded) (id : String) : Bounded (workers.erase id) :=
  forall_erase h id

end Workers

/-! ## The selected worker -/

/-- `int(loadPercentage * 100)` -/
def WorkerNode.percent (fl : Float64) (worker : WorkerNode) : ℤ :=
  fl.toInt (fl.mul (worker.loadPercentage fl) (fl.ofInt 100))

/-- The worker with the least percentage is selected, if that is below the largest `int`. -/
theorem selectLeastLoaded_spec (fl : Float64) (l : List ((_ : String) × WorkerNode)) :
    (selectLeastLoaded fl l = none ∧ ∀ e ∈ l, 2 ^ 63 - 1 ≤ e.2.percent fl) ∨
      ∃ e ∈ l, selectLeastLoaded fl l = some e.1 ∧ e.2.percent fl < 2 ^ 63 - 1 ∧
        ∀ e' ∈ l, e.2.percent fl ≤ e'.2.percent fl := by
  let pick (best : Option String × ℤ) (e : (_ : String) × WorkerNode) : Option String × ℤ :=
    if e.2.percent fl < best.2 then (some e.1, e.2.percent fl) else best
  suffices h : (l.foldl pick (none, 2 ^ 63 - 1) = (none, 2 ^ 63 - 1) ∧
        ∀ e ∈ l, 2 ^ 63 - 1 ≤ e.2.percent fl) ∨
      ∃ e ∈ l, l.foldl pick (none, 2 ^ 63 - 1) = (some e.1, e.2.percent fl) ∧
        e.2.percent fl < 2 ^ 63 - 1 ∧ ∀ e' ∈ l, e.2.percent fl ≤ e'.2.percent fl from
    h.imp (fun h => ⟨congrArg Prod.fst h.1, h.2⟩)
      (fun ⟨e, he, heq, hmin⟩ => ⟨e, he, congrArg Prod.fst heq, hmin⟩)
  induction l using reverseRecOn with
  | nil => exact .inl ⟨rfl, by simp⟩
  | append_singleton l e ih =>
    rw [foldl_concat]
    simp only [mem_append, mem_singleton]
    rcases ih with ⟨hnone, hall⟩ | ⟨first, hfirst, hfound, hbelow, hmin⟩
    · rw [hnone]
      by_cases hlt : e.2.percent fl < 2 ^ 63 - 1
      · refine .inr ⟨e, .inr rfl, if_pos hlt, hlt, ?_⟩
        rintro e' (he' | rfl)
        · exact hlt.le.trans (hall e' he')
        · exact le_rfl
      · refine .inl ⟨if_neg hlt, ?_⟩
        rintro e' (he' | rfl)
        · exact hall e' he'
        · exact not_lt.mp hlt
    · rw [hfound]
      by_cases hlt : e.2.percent fl < first.2.percent fl
      · refine .inr ⟨e, .inr rfl, if_pos hlt, hlt.trans hbelow, ?_⟩
        rintro e' (he' | rfl)
        · exact hlt.le.trans (hmin e' he')
        · exact le_rfl
      · refine .inr ⟨first, .inl hfirst, if_neg hlt, hbelow, ?_⟩
        rintro e' (he' | rfl)
        · exact hmin e' he'
        · exact not_lt.mp hlt

theorem selectLeastLoaded_mem {fl : Float64} {candidates : List ((_ : String) × WorkerNode)}
    {id : String} (h : selectLeastLoaded fl candidates = some id) : ∃ e ∈ candidates, e.1 = id := by
  obtain ⟨hnone, -⟩ | ⟨e, he, heq, -⟩ := selectLeastLoaded_spec fl candidates
  · cases hnone.symm.trans h
  · exact ⟨e, he, some.inj (heq.symm.trans h)⟩

theorem getElem?_fst_mem {l : List ((_ : String) × WorkerNode)} {i : ℕ} {id : String}
    (h : l[i]?.map Sigma.fst = some id) : ∃ e ∈ l, e.1 = id := by
  obtain ⟨e, he, hid⟩ := map_eq_some_iff.mp h
  exact ⟨e, mem_of_getElem? he, hid⟩

variable {requirements : WorkRequirements}

/-- Every strategy selects a registered worker that is eligible. -/
theorem selectWorker_spec {fl : Float64} {ρ : RangeOrder} {intn : ℕ → ℕ} {c : Coordinator}
    {id : String} (h : selectWorker fl ρ intn c requirements = some id) :
    ∃ worker, c.workers.lookup id = some worker ∧ worker.eligible requirements = true := by
  have hmem : ∃ e ∈ (ρ.run 211 c.workers.entries).filter (fun e => e.2.eligible requirements),
      e.1 = id := by
    rw [selectWorker] at h
    split at h
    · exact selectLeastLoaded_mem h
    · exact getElem?_fst_mem h
    · exact getElem?_fst_mem h
    · rw [selectWithAffinity] at h
      split_ifs at h
      · exact selectLeastLoaded_mem h
      · exact getElem?_fst_mem h
    · exact selectLeastLoaded_mem h
  obtain ⟨e, he, rfl⟩ := hmem
  obtain ⟨hentry, heligible⟩ := mem_filter.mp he
  exact ⟨e.2, lookup_of_entry ((ρ.mem_run _ _ e).mp hentry), heligible⟩

theorem WorkerNode.eligible_spec {worker : WorkerNode} (h : worker.eligible requirements = true) :
    worker.status = .active ∧ worker.currentLoad < worker.capacity := by
  rw [eligible, Bool.and_eq_true, Bool.and_eq_true, decide_eq_true_iff, decide_eq_true_iff] at h
  exact h.1

namespace Coordinator

variable {fl : Float64}

/-! ## Assigning and reassigning -/

/-- What an assignment can do: nothing, or forget the execution and then perhaps place it with
an eligible worker. -/
theorem assignWork_cases (fl : Float64) (ρ : RangeOrder) (intn : ℕ → ℕ) (c : Coordinator)
    (executionID : String) (requirements : WorkRequirements) :
    (∃ id, c.activeAssignee executionID = some id ∧
        (c.assignWork fl ρ intn executionID requirements).2 = c) ∨
      (c.activeAssignee executionID = none ∧
        ((c.assignWork fl ρ intn executionID requirements).2 = c.forget executionID ∨
          ∃ id worker n, c.workers.lookup id = some worker ∧
            worker.eligible requirements = true ∧
            (c.assignWork fl ρ intn executionID requirements).2 =
              { (c.forget executionID).place executionID id with distributedWork := n })) := by
  rw [assignWork]
  split
  · rename_i id hid
    exact .inl ⟨id, hid, rfl⟩
  rename_i hnone
  refine .inr ⟨hnone, ?_⟩
  dsimp only
  split
  · exact .inl rfl
  · rename_i id hselect
    obtain ⟨worker, hworker, heligible⟩ := selectWorker_spec hselect
    exact .inr ⟨id, worker, _, hworker, heligible, rfl⟩

variable {c : Coordinator} {worker : WorkerNode} {ρ : RangeOrder}

/-- Whatever survives that an execution is forgotten, and that one is placed with an eligible
worker, survives a reassignment. -/
theorem reassignLoop_rule {P : Coordinator → Prop} (hforget : ∀ c e, P c → P (c.forget e))
    (hplace : ∀ c e id worker, P c → c.workers.lookup id = some worker →
      worker.status = .active → worker.currentLoad < worker.capacity → P (c.place e id))
    (orders : ℕ → RangeOrder) (i : ℕ) (executions : List String) (h : P c) :
    P (reassignLoop fl orders i executions c) := by
  induction executions generalizing i c with
  | nil => exact h
  | cons e rest ih =>
    rw [reassignLoop]
    refine ih (i + 1) ?_
    split
    · exact hforget c e h
    rename_i id hselect
    obtain ⟨worker, hworker, heligible⟩ := selectWorker_spec hselect
    obtain ⟨hactive, hroom⟩ := worker.eligible_spec heligible
    exact hplace _ e id worker (hforget c e h) hworker hactive hroom

theorem bounded_place (h : c.workers.Bounded) (e : String) {id : String}
    (hworker : c.workers.lookup id = some worker) (hroom : worker.currentLoad < worker.capacity) :
    (c.place e id).workers.Bounded := by
  refine h.addLoad (fun found hfound => ?_)
  obtain rfl := some.inj (hworker.symm.trans hfound)
  have := (h id worker hworker).2.1
  omega

theorem Registered.forget (h : c.Registered) (e : String) : (c.forget e).Registered :=
  forall_erase h e

theorem Registered.place (h : c.Registered) (e : String) {id : String}
    (hworker : c.workers.lookup id = some worker) : (c.place e id).Registered := by
  have hid : id ∈ c.workers := AList.lookup_isSome.mp (by rw [hworker]; rfl)
  have hplaced := forall_insert (P := fun _ k => k ∈ c.workers) h (k := e) hid
  intro executionID k hk
  rw [Coordinator.place, Workers.mem_addLoad]
  exact hplaced executionID k hk

theorem Registered.insert (h : c.Registered) (id : String) (worker : WorkerNode) :
    { c with workers := c.workers.insert id worker }.Registered :=
  fun e k hk => (AList.mem_insert _).mpr (.inr (h e k hk))

variable {workerID o u : String}

theorem reassignLoop_leaves (orders : ℕ → RangeOrder) (i : ℕ) (executions : List String)
    (hinactive : ∀ worker, c.workers.lookup workerID = some worker → worker.status ≠ .active)
    (hrest : ∀ e, c.partitions.lookup e = some workerID → e ∈ executions) (e : String) :
    (reassignLoop fl orders i executions c).partitions.lookup e ≠ some workerID := by
  induction executions generalizing i c with
  | nil => exact fun he => by simpa using hrest e he
  | cons first rest ih =>
    have hforget : ∀ e, (c.forget first).partitions.lookup e = some workerID → e ∈ rest := by
      intro e he
      rw [forget, lookup_erase] at he
      split_ifs at he with hne
      exact (mem_cons.mp (hrest e he)).resolve_left hne
    rw [reassignLoop]
    split
    · exact ih (i + 1) hinactive hforget
    rename_i id hselect
    obtain ⟨worker, hworker, heligible⟩ := selectWorker_spec hselect
    have hne : workerID ≠ id := by
      rintro rfl
      exact hinactive worker hworker (worker.eligible_spec heligible).1
    refine ih (i + 1) ?_ ?_
    · intro found hfound
      rw [place, Workers.lookup_addLoad, if_neg hne] at hfound
      exact hinactive found hfound
    · intro e he
      rw [place, lookup_insert] at he
      split_ifs at he with hfirst
      · exact absurd (some.inj he).symm hne
      · exact hforget e he

theorem inactive_draining (c : Coordinator) (workerID : String) (worker : WorkerNode) :
    ∀ found, AList.lookup workerID (c.workers.insert workerID
      { worker with status := .draining }) = some found → found.status ≠ .active := by
  intro found hfound
  rw [AList.lookup_insert] at hfound
  cases hfound
  exact WorkerStatus.noConfusion

theorem mem_executionsOf {e : String} :
    e ∈ c.executionsOf ρ workerID ↔ c.partitions.lookup e = some workerID := by
  rw [executionsOf, List.mem_map]
  constructor
  · rintro ⟨entry, hentry, rfl⟩
    obtain ⟨hmem, hid⟩ := mem_filter.mp hentry
    rw [lookup_of_entry ((ρ.mem_run _ _ entry).mp hmem), of_decide_eq_true hid]
  · intro he
    refine ⟨⟨e, workerID⟩, mem_filter.mpr ⟨?_, by simp⟩, rfl⟩
    exact (ρ.mem_run _ _ _).mpr (AList.mem_lookup_iff.mp he)

/-! ## Rebalancing -/

theorem overloaded_spec (ho : o ∈ c.overloaded fl ρ) (hu : u ∈ c.underloaded fl ρ) :
    o ≠ u ∧ ∃ heavy light, c.workers.lookup o = some heavy ∧ heavy.status = .active ∧
      c.workers.lookup u = some light ∧ light.status = .active := by
  obtain ⟨eo, heo, rfl⟩ := mem_map.mp ho
  obtain ⟨eu, heu, rfl⟩ := mem_map.mp hu
  obtain ⟨hmo, hover⟩ := mem_filter.mp heo
  obtain ⟨hmu, hunder⟩ := mem_filter.mp heu
  have hlo := lookup_of_entry ((ρ.mem_run _ _ eo).mp hmo)
  have hlu := lookup_of_entry ((ρ.mem_run _ _ eu).mp hmu)
  simp only [Bool.and_eq_true, decide_eq_true_eq, Bool.not_eq_true'] at hover hunder
  refine ⟨?_, eo.2, eu.2, hlo, hover.1, hlu, hunder.1.1⟩
  intro heq
  rw [heq] at hlo
  have hsame := some.inj (hlo.symm.trans hlu)
  rw [hsame, hunder.1.2] at hover
  cases hover.2

theorem performRebalance_rule {P : Workers → Prop} (ρ : RangeOrder)
    (hmove : ∀ workers, ∀ o ∈ c.overloaded fl ρ, ∀ u ∈ c.underloaded fl ρ, P workers →
      P (moveWork workers o u)) (h : P c.workers) : P (c.performRebalance fl ρ).workers := by
  refine foldlRecOn _ _ h (fun workers hworkers o ho => ?_)
  exact foldlRecOn _ _ hworkers (fun workers hworkers u hu => hmove workers o ho u hu hworkers)

/-- What a move does: nothing, or it takes one off an overloaded worker's load and adds it to an
underloaded one's. -/
theorem moveWork_cases (workers : Workers) (o u : String) : moveWork workers o u = workers ∨
      ∃ heavy light, workers.lookup o = some heavy ∧ workers.lookup u = some light ∧
        heavy.currentLoad > heavy.capacity.tdiv 2 ∧ light.currentLoad < light.capacity.tdiv 2 ∧
        moveWork workers o u = (workers.addLoad o (-1)).addLoad u 1 := by
  rw [moveWork]
  split
  · rename_i heavy light ho hu
    split_ifs with hload
    · exact .inr ⟨heavy, light, ho, hu, hload.1, hload.2, rfl⟩
    · exact .inl rfl
  · exact .inl rfl

theorem bounded_moveWork {workers : Workers} (h : workers.Bounded) (hne : o ≠ u) :
    (moveWork workers o u).Bounded := by
  obtain heq | ⟨heavy, light, ho, hu, hover, hunder, heq⟩ := moveWork_cases workers o u
  · rw [heq]
    exact h
  rw [heq]
  obtain ⟨hcap, -, hle⟩ := h o heavy ho
  obtain ⟨hcap', hload', -⟩ := h u light hu
  refine (h.addLoad (fun found hfound => ?_)).addLoad (fun found hfound => ?_)
  · obtain rfl := some.inj (ho.symm.trans hfound)
    have := Int.tdiv_nonneg hcap.le (by decide : (0 : ℤ) ≤ 2)
    omega
  · rw [Workers.lookup_addLoad, if_neg hne.symm] at hfound
    obtain rfl := some.inj (hu.symm.trans hfound)
    have := Int.tdiv_le_self (b := 2) hcap'.le
    omega

theorem total_addLoad (workers : Workers) {id : String} (hid : workers.lookup id = some worker)
    (hactive : worker.status = .active) (d : ℤ) :
    GoMap.total (fun _ worker => if worker.status = .active then worker.currentLoad else 0)
        (workers.addLoad id d) =
      GoMap.total (fun _ worker => if worker.status = .active then worker.currentLoad else 0)
        workers + d := by
  have htotal := total_insert
    (fun _ worker => if worker.status = .active then worker.currentLoad else 0) workers id
    { worker with currentLoad := worker.currentLoad + d }
  rw [hid] at htotal
  simp only [elim_some, if_pos hactive] at htotal
  rw [Workers.addLoad, hid]
  dsimp only
  omega

/-- Rebalancing moves load and makes none. -/
theorem activeLoad_rebalance (ρ : RangeOrder) (c : Coordinator) :
    (c.performRebalance fl ρ).activeLoad = c.activeLoad := by
  -- beside the sum, the status of every worker is kept
  suffices hkept : (c.performRebalance fl ρ).activeLoad = c.activeLoad ∧
      ∀ id, ((c.performRebalance fl ρ).workers.lookup id).map WorkerNode.status =
        (c.workers.lookup id).map WorkerNode.status from hkept.1
  refine performRebalance_rule (P := fun workers =>
    total (fun _ worker => if worker.status = .active then worker.currentLoad else 0)
        workers = c.activeLoad ∧
      ∀ id, (workers.lookup id).map WorkerNode.status =
        (c.workers.lookup id).map WorkerNode.status) ρ ?_ ⟨rfl, fun _ => rfl⟩
  rintro workers o ho u hu ⟨htotal, hstatus⟩
  obtain heq | ⟨heavy, light, hheavy, hlight, -, -, heq⟩ := moveWork_cases workers o u
  · rw [heq]
    exact ⟨htotal, hstatus⟩
  obtain ⟨hne, heavy₀, light₀, hheavy₀, hactive, hlight₀, hactive'⟩ := overloaded_spec ho hu
  have hho := hstatus o
  have hhu := hstatus u
  rw [hheavy, hheavy₀] at hho
  rw [hlight, hlight₀] at hhu
  have hlight' : (workers.addLoad o (-1)).lookup u = some light := by
    rw [Workers.lookup_addLoad, if_neg hne.symm, hlight]
  rw [heq]
  constructor
  · rw [total_addLoad _ hlight' ((some.inj hhu).trans hactive'),
      total_addLoad _ hheavy ((some.inj hho).trans hactive), htotal]
    ring
  · intro id
    rw [Workers.lookup_addLoad, Workers.lookup_addLoad, Workers.lookup_addLoad, ← hstatus id]
    split_ifs with hu' huo ho'
    · exact absurd huo.symm hne
    · rw [hu', Option.map_map]
      rfl
    · rw [ho', Option.map_map]
      rfl
    · rfl

theorem mem_workers_rebalance (k : String) :
    k ∈ (c.performRebalance fl ρ).workers ↔ k ∈ c.workers := by
  refine performRebalance_rule (P := fun workers => k ∈ workers ↔ k ∈ c.workers) ρ ?_ Iff.rfl
  intro workers o _ u _ h
  obtain heq | ⟨-, -, -, -, -, -, heq⟩ := moveWork_cases workers o u
  · rw [heq]
    exact h
  · rw [heq, Workers.mem_addLoad, Workers.mem_addLoad]
    exact h

/-! ## Health checks -/

theorem lookup_healthCheck (ρ : RangeOrder) (now : ℤ) (c : Coordinator) (id : String) :
    ∃ status : WorkerNode → WorkerStatus, (c.performHealthCheck ρ now).1.workers.lookup id =
      (c.workers.lookup id).map (fun worker => { worker with status := status worker }) := by
  rw [performHealthCheck]
  refine foldlRecOn (motive := fun workers : Workers =>
    ∃ status : WorkerNode → WorkerStatus, workers.lookup id =
      (c.workers.lookup id).map (fun worker => { worker with status := status worker }))
    (rangeKeys ρ 457 c.workers) _ ?_ ?_
  · refine ⟨WorkerNode.status, ?_⟩
    rw [Option.map_id']
  rintro workers ⟨status, h⟩ k -
  split
  · exact ⟨status, h⟩
  rename_i worker hworker
  by_cases hid : id = k
  · subst hid
    rw [hworker] at h
    obtain ⟨before, hbefore, hsame⟩ := map_eq_some_iff.mp h.symm
    refine ⟨fun _ => checkStatus now worker, ?_⟩
    rw [lookup_insert, if_pos rfl, hbefore, map_some, ← hsame]
  · refine ⟨status, ?_⟩
    rw [lookup_insert, if_neg hid, h]

theorem mem_workers_healthCheck (ρ : RangeOrder) (now : ℤ) (c : Coordinator) (k : String) :
    k ∈ (c.performHealthCheck ρ now).1.workers ↔ k ∈ c.workers := by
  obtain ⟨status, h⟩ := lookup_healthCheck ρ now c k
  rw [← AList.lookup_isSome, h, isSome_map, AList.lookup_isSome]

/-! ## Every operation -/

theorem Registered.reassign (h : c.Registered) (ρ : RangeOrder) (orders : ℕ → RangeOrder)
    (workerID : String) : (c.reassignWorkFromWorker fl ρ orders workerID).Registered :=
  reassignLoop_rule (P := Registered) (fun _ e h => h.forget e)
    (fun _ e _ _ h hworker _ _ => h.place e hworker) orders 0 _ h

theorem inv_new : Coordinator.new.workers.Bounded ∧ Coordinator.new.Registered := by
  constructor
  · intro id worker hworker
    cases hworker
  · intro e id hid
    cases hid

/-- **The table.** No operation leaves an execution with a worker that is not registered. -/
theorem Registered.step (h : c.Registered) (a : Action) : (c.step fl a).Registered := by
  cases a with
  | assign ρ intn e requirements =>
    obtain ⟨id, -, heq⟩ | ⟨-, heq | ⟨id, worker, n, hworker, -, heq⟩⟩ :=
      assignWork_cases fl ρ intn c e requirements
    · rw [Coordinator.step, heq]
      exact h
    · rw [Coordinator.step, heq]
      exact h.forget e
    · rw [Coordinator.step, heq]
      exact (h.forget e).place e hworker
  | register now registry id worker =>
    rw [Coordinator.step, registerWorker]
    split_ifs
    · exact h
    · exact h.insert id _
  | unregister ρ orders workerID =>
    rw [Coordinator.step, unregisterWorker]
    split
    · exact h
    rename_i worker hworker
    -- the worker is draining while its executions are reassigned
    have hreg := h.insert workerID { worker with status := .draining }
    intro e k hk
    refine AList.mem_erase.mpr ⟨?_, hreg.reassign ρ orders workerID e k hk⟩
    rintro rfl
    exact reassignLoop_leaves orders 0 _ (inactive_draining c _ worker)
      (fun e he => mem_executionsOf.mpr he) e hk
  | heartbeat now workerID metrics =>
    rw [Coordinator.step, updateWorkerHeartbeat]
    split
    · exact h
    · exact h.insert workerID _
  | healthCheck ρ now => exact fun e k hk => (mem_workers_healthCheck ρ now c k).mpr (h e k hk)
  | rebalance ρ => exact fun e k hk => (mem_workers_rebalance k).mpr (h e k hk)
  | reassign ρ orders workerID => exact h.reassign ρ orders workerID
  | completed e workerID =>
    have hforget := h.forget e
    rw [Coordinator.step, handleWorkCompleted]
    split
    · exact hforget
    · exact hforget.insert workerID _

theorem bounded_reassign (h : c.workers.Bounded) (ρ : RangeOrder) (orders : ℕ → RangeOrder)
    (workerID : String) : (c.reassignWorkFromWorker fl ρ orders workerID).workers.Bounded :=
  reassignLoop_rule (P := fun c => c.workers.Bounded) (fun _ _ h => h)
    (fun _ e _ _ h hworker _ hroom => bounded_place h e hworker hroom) orders 0 _ h

/-- **The loads.** No operation takes a load out of its bounds, if workers register and report
loads within them. -/
theorem bounded_step (h : c.workers.Bounded) {a : Action} (ha : c.Reports a) :
    (c.step fl a).workers.Bounded := by
  cases a with
  | assign ρ intn e requirements =>
    obtain ⟨id, -, heq⟩ | ⟨-, heq | ⟨id, worker, n, hworker, heligible, heq⟩⟩ :=
      assignWork_cases fl ρ intn c e requirements
    · rw [step, heq]
      exact h
    · rw [step, heq]
      exact h
    · rw [step, heq]
      exact bounded_place (c := c.forget e) h e hworker (worker.eligible_spec heligible).2
  | register now registry id worker =>
    rw [step, registerWorker]
    split_ifs
    · exact h
    · exact h.insert ha
  | unregister ρ orders workerID =>
    rw [step, unregisterWorker]
    split
    · exact h
    · rename_i worker hworker
      refine (bounded_reassign ?_ ρ orders workerID).erase workerID
      exact h.insert (h workerID worker hworker)
  | heartbeat now workerID metrics =>
    rw [step, updateWorkerHeartbeat]
    split
    · exact h
    · rename_i worker hworker
      exact h.insert ⟨(h workerID worker hworker).1, ha worker hworker⟩
  | healthCheck ρ now =>
    intro id worker hworker
    obtain ⟨status, hlookup⟩ := lookup_healthCheck ρ now c id
    obtain ⟨before, hbefore, rfl⟩ := map_eq_some_iff.mp (hlookup.symm.trans hworker)
    exact h id before hbefore
  | rebalance ρ =>
    refine performRebalance_rule (P := Workers.Bounded) ρ ?_ h
    exact fun workers o ho u hu hworkers =>
      bounded_moveWork hworkers (overloaded_spec ho hu).1
  | reassign ρ orders workerID => exact bounded_reassign h ρ orders workerID
  | completed e workerID =>
    rw [step, handleWorkCompleted]
    dsimp only
    split
    · exact h
    · rename_i worker hworker
      obtain ⟨hcap, hload, hle⟩ := h workerID worker hworker
      exact h.insert ⟨hcap, by dsimp only; omega, by dsimp only; omega⟩

/-- **The coordinator's bookkeeping.** If workers register and report loads within their capacities,
every load stays there, every execution points to a registered worker, and a rebalance keeps the
load of the active workers. -/
theorem loads_bounded (fl : Float64) (as : List Action)
    (h : Runs.Along (step fl) Reports Coordinator.new as) :
    Runs.Always (step fl) (fun c => c.workers.Bounded ∧ c.Registered) Coordinator.new as ∧
      Runs.Along (step fl) (fun c a => ∀ ρ, a = .rebalance ρ →
        (c.step fl a).activeLoad = c.activeLoad) Coordinator.new as := by
  constructor
  · exact h.always (fun c a hc ha => ⟨bounded_step hc.1 ha, hc.2.step a⟩) inv_new
  · rw [Runs.along_iff]
    rintro pre a post - ρ rfl
    exact activeLoad_rebalance ρ _

/-- Arithmetic that does not round. -/
def exactFloat : Float64 where
  F := ℚ
  ofInt n := n
  div := (· / ·)
  mul := (· * ·)
  lt x y := x < y
  toInt x := x.num.tdiv x.den
  upper := 6 / 5
  lower := 4 / 5

/-- Two workers register, one of them full; work is assigned, moved, reported and completed, and
the full one leaves. -/
def twoWorkers : List Action :=
  [.register 0 none "a" { capacity := 4, currentLoad := 4 },
    .register 0 none "b" { capacity := 0, currentLoad := 0 },
    .assign .stored id "e1" {}, .rebalance .stored,
    .heartbeat 5 "a" { currentLoad := 2, healthy := true },
    .assign .stored id "e2" { selectionStrategy := .affinity, affinityKey := "k" },
    .completed "e1" "b", .unregister .stored (fun _ => .stored) "a"]

theorem loads_bounded_twoWorkers : Runs.Along (step exactFloat) Reports Coordinator.new twoWorkers ∧
      Runs.Always (step exactFloat) (fun c => c.workers.Bounded ∧ c.Registered) Coordinator.new
        twoWorkers := by
  have h : Runs.Along (step exactFloat) Reports Coordinator.new twoWorkers := by decide +kernel
  exact ⟨h, (loads_bounded exactFloat twoWorkers h).1⟩

end Coordinator

end LinkFlow.Distributed
