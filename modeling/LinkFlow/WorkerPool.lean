/-
The workers of a `WorkerPool` (`internal/execution/app/queue/worker_pool.go`): `Start`,
`addWorker`, `removeWorker` and `checkScaling`.

The slice `workers` holds pointers. A pointer is a position in `started`, the list of all
workers the pool ever made, and a worker keeps its stop channel there after it has left the
slice. `addWorker` numbers workers by the length of the slice, and `removeWorker` takes out
every worker with the ID of the one it stops: the numbering decides whether these are one
(`pool_sound_iff`).
-/
import LinkFlow.Lib.Runs
import Mathlib

set_option autoImplicit false

namespace LinkFlow.Pool

open List

/-! ## The pool -/

/-- `stopped` says that its `stopCh` is closed. -/
structure Worker where
  id : ℕ
  (isActive stopped : Bool := false)
deriving DecidableEq, Repr

/-- `WorkerPoolConfig`, as far as the number of workers goes. -/
structure WorkerPoolConfig where
  (minWorkers maxWorkers : ℤ)
deriving DecidableEq, Repr

structure WorkerPool where
  started : List Worker := []
  workers : List ℕ := []
  (minWorkers maxWorkers : ℤ)
  valid : ∀ p ∈ workers, p < started.length

/-- `NewWorkerPool`, with the number of processors. The slice is made with `MaxWorkers` as its
capacity, and `make` panics on a negative one. -/
def newWorkerPool (numCPU : ℕ) (config : WorkerPoolConfig) : Option WorkerPool :=
  let minWorkers := if config.minWorkers = 0 then 2 else config.minWorkers
  let maxWorkers : ℤ := if config.maxWorkers = 0 then numCPU * 2 else config.maxWorkers
  if maxWorkers < 0 then none
  else some { minWorkers, maxWorkers, valid := by simp }

namespace WorkerPool

def worker (wp : WorkerPool) (p : ℕ) : Worker := wp.started.getD p { id := 0 }

/-- `len(wp.workers)`, `TotalWorkers` -/
def totalWorkers (wp : WorkerPool) : ℕ := wp.workers.length

def loops (wp : WorkerPool) : ℕ := wp.started.countP (fun w => !w.stopped)

def ids (wp : WorkerPool) : List ℕ := wp.workers.map (fun p => (wp.worker p).id)

def addWorker (wp : WorkerPool) : Except String WorkerPool :=
  if wp.maxWorkers ≤ wp.totalWorkers then .error "worker pool is at maximum capacity"
  else .ok { wp with
    started := wp.started ++ [{ id := wp.totalWorkers + 1 }]
    workers := wp.workers ++ [wp.started.length]
    valid := by
      intro p hp
      rw [List.length_append, List.length_singleton]
      rcases List.mem_append.mp hp with hp | hp
      · have := wp.valid p hp
        omega
      · rw [List.mem_singleton.mp hp]
        omega }

def removeWorker (wp : WorkerPool) : Except String WorkerPool :=
  if (wp.totalWorkers : ℤ) ≤ wp.minWorkers then .error "worker pool is at minimum capacity"
  else
    match wp.workers.find? (fun p => !(wp.worker p).isActive) with
    | none => .error "no idle workers to remove"
    | some p => .ok { wp with
        started := wp.started.modify p (fun w => { w with stopped := true })
        workers := wp.workers.filter (fun q => (wp.worker q).id ≠ (wp.worker p).id)
        valid := by
          intro q hq
          rw [List.length_modify]
          exact wp.valid q (List.mem_of_mem_filter hq) }

/-- A worker's loop begins or ends a task: `isActive.Store`. -/
def setActive (p : ℕ) (active : Bool) (wp : WorkerPool) : WorkerPool :=
  { wp with
    started := wp.started.modify p (fun w => { w with isActive := active })
    valid := by
      intro q hq
      rw [List.length_modify]
      exact wp.valid q hq }

/-- The loop of `Start`, from its iteration `i`. -/
def startFrom (wp : WorkerPool) (i : ℕ) : ℕ → Except String WorkerPool
  | 0 => .ok wp
  | n + 1 =>
    match wp.addWorker with
    | .error err => .error ("failed to start worker " ++ toString i ++ ": " ++ err)
    | .ok wp => startFrom wp (i + 1) n

/-- `Start`, as far as the workers go. -/
def start (wp : WorkerPool) : Except String WorkerPool := wp.startFrom 0 wp.minWorkers.toNat

inductive Action
  | add
  | remove
  | active (p : ℕ) (active : Bool)
deriving DecidableEq, Repr

def step (wp : WorkerPool) : Action → WorkerPool
  | .add => match wp.addWorker with
      | .error _ => wp
      | .ok wp => wp
  | .remove => match wp.removeWorker with
      | .error _ => wp
      | .ok wp => wp
  | .active p active => wp.setActive p active

/-- The comparisons of the clock with the cooldown and of the utilization with the two thresholds
are arguments, and so is `len(wp.taskQueue)` with its capacity. -/
def checkScaling (cooling above below : Bool) (queueSize queueCap : ℕ) (wp : WorkerPool) :
    WorkerPool :=
  if cooling = true then wp
  else if wp.totalWorkers = 0 then wp
  else if (above = true ∨ queueCap / 2 < queueSize) ∧ (wp.totalWorkers : ℤ) < wp.maxWorkers then
    wp.step .add
  else if below = true ∧ queueSize = 0 ∧ wp.minWorkers < (wp.totalWorkers : ℤ) then wp.step .remove
  else wp

/-! ## One call -/

theorem worker_append {wp : WorkerPool} {p : ℕ} (hp : p < wp.started.length) (w : Worker) :
    (wp.started ++ [w]).getD p { id := 0 } = wp.worker p := by
  rw [worker, getD_append _ _ _ _ hp]

theorem getD_modify {β : Type} (g : Worker → β) (l : List Worker) (p q : ℕ)
    {f : Worker → Worker} (hf : ∀ w, g (f w) = g w) :
    g ((l.modify p f).getD q { id := 0 }) = g (l.getD q { id := 0 }) := by
  rw [getD_eq_getElem?_getD, getD_eq_getElem?_getD, getElem?_modify]
  cases l[q]? with
  | none => rfl
  | some w =>
    by_cases hpq : p = q
    · simp [hpq, hf]
    · simp [hpq]

variable {wp wp' : WorkerPool}

theorem addWorker_eq_ok (h : wp.addWorker = .ok wp') : (wp.totalWorkers : ℤ) < wp.maxWorkers ∧
      wp'.ids = wp.ids ++ [wp.totalWorkers + 1] ∧
      wp'.started = wp.started ++ [{ id := wp.totalWorkers + 1 }] ∧
      wp'.workers = wp.workers ++ [wp.started.length] ∧
      wp'.minWorkers = wp.minWorkers ∧ wp'.maxWorkers = wp.maxWorkers := by
  rw [addWorker] at h
  split_ifs at h with hfull
  cases h
  refine ⟨by omega, ?_, rfl, rfl, rfl, rfl⟩
  rw [ids, map_append, map_singleton]
  congr 1
  · refine map_congr_left (fun p hp => ?_)
    exact congrArg Worker.id (worker_append (wp.valid p hp) _)
  · simp [worker]

theorem removeWorker_eq_ok (h : wp.removeWorker = .ok wp') : wp.minWorkers < (wp.totalWorkers : ℤ) ∧
      ∃ p ∈ wp.workers, wp'.started = wp.started.modify p (fun w => { w with stopped := true }) ∧
        wp'.workers = wp.workers.filter (fun q => (wp.worker q).id ≠ (wp.worker p).id) ∧
        wp'.minWorkers = wp.minWorkers ∧ wp'.maxWorkers = wp.maxWorkers := by
  rw [removeWorker] at h
  split_ifs at h with hmin
  split at h
  · cases h
  · rename_i p hfind
    cases h
    exact ⟨by omega, p, mem_of_find?_eq_some hfind, rfl, rfl, rfl, rfl⟩

/-! ## The slice and the loops -/

/-- What the slice says of the pool is right. -/
structure Sound (wp : WorkerPool) : Prop where
  distinct : wp.ids.Nodup
  min_le : wp.minWorkers ≤ wp.totalWorkers
  le_max : (wp.totalWorkers : ℤ) ≤ wp.maxWorkers
  loops_eq : wp.loops = wp.totalWorkers

instance (wp : WorkerPool) : Decidable wp.Sound :=
  decidable_of_iff (wp.ids.Nodup ∧ wp.minWorkers ≤ wp.totalWorkers ∧
      (wp.totalWorkers : ℤ) ≤ wp.maxWorkers ∧ wp.loops = wp.totalWorkers)
    ⟨fun ⟨h1, h2, h3, h4⟩ => ⟨h1, h2, h3, h4⟩, fun ⟨h1, h2, h3, h4⟩ => ⟨h1, h2, h3, h4⟩⟩

def Running (wp : WorkerPool) : Prop := ∀ p ∈ wp.workers, (wp.worker p).stopped = false

/-- A call that adds or removes a worker changes their number by one. -/
def ChangesByOne (wp : WorkerPool) : Action → Prop
  | .add => ∀ wp', wp.addWorker = .ok wp' → wp'.totalWorkers = wp.totalWorkers + 1
  | .remove => ∀ wp', wp.removeWorker = .ok wp' → wp'.totalWorkers + 1 = wp.totalWorkers
  | .active _ _ => True

/-- A worker that is added gets an ID that none in the slice has. -/
def FreshID (wp : WorkerPool) : Action → Prop
  | .add => (wp.totalWorkers : ℤ) < wp.maxWorkers → wp.totalWorkers + 1 ∉ wp.ids
  | .remove => True
  | .active _ _ => True

instance (wp : WorkerPool) : ∀ a, Decidable (wp.FreshID a)
  | .add => inferInstanceAs (Decidable (_ → _))
  | .remove => isTrue trivial
  | .active _ _ => isTrue trivial

theorem countP_modify {q : Worker → Bool} {f : Worker → Worker} {l : List Worker} {p : ℕ}
    (hp : p < l.length) : (l.modify p f).countP q + (if q (l.getD p { id := 0 }) then 1 else 0) =
      l.countP q + (if q (f (l.getD p { id := 0 })) then 1 else 0) := by
  induction l generalizing p with
  | nil => simp at hp
  | cons w l ih =>
    cases p with
    | zero =>
      simp only [modify_zero_cons, countP_cons, getD_cons_zero]
      omega
    | succ p =>
      simp only [modify_succ_cons, countP_cons, getD_cons_succ]
      have := ih (p := p) (by simpa using hp)
      omega

theorem totalWorkers_add (h : wp.addWorker = .ok wp') : wp'.totalWorkers = wp.totalWorkers + 1 := by
  obtain ⟨-, -, -, hworkers, -⟩ := addWorker_eq_ok h
  rw [totalWorkers, hworkers, length_append, length_singleton, totalWorkers]

theorem loops_add (h : wp.addWorker = .ok wp') : wp'.loops = wp.loops + 1 := by
  obtain ⟨-, -, hstarted, -⟩ := addWorker_eq_ok h
  rw [loops, hstarted, countP_append, loops]
  rfl

theorem totalWorkers_remove (hs : wp.Sound) (h : wp.removeWorker = .ok wp') :
    wp'.totalWorkers + 1 = wp.totalWorkers := by
  obtain ⟨-, p, hp, -, hworkers, -⟩ := removeWorker_eq_ok h
  have hfilter : wp.workers.filter (fun q => (wp.worker q).id ≠ (wp.worker p).id) =
      wp.workers.erase p := by
    rw [(List.Nodup.of_map _ hs.distinct).erase_eq_filter]
    refine filter_congr (fun q hq => ?_)
    rw [Bool.eq_iff_iff, decide_eq_true_iff, bne_iff_ne, not_iff_not]
    exact ⟨inj_on_of_nodup_map hs.distinct hq hp, fun hqp => by rw [hqp]⟩
  rw [totalWorkers, hworkers, hfilter]
  exact length_erase_add_one hp

/-- A new worker gets one more than the number of workers as its ID, taken or not. -/
theorem sound_add_iff (hs : wp.Sound) (h : wp.addWorker = .ok wp') :
    wp'.Sound ↔ wp.totalWorkers + 1 ∉ wp.ids := by
  obtain ⟨hlt, hids, -, -, hmin, hmax⟩ := addWorker_eq_ok h
  have htotal := totalWorkers_add h
  have hdistinct : wp'.ids.Nodup ↔ wp.totalWorkers + 1 ∉ wp.ids := by
    rw [hids, ← concat_eq_append, nodup_concat]
    exact and_iff_left hs.distinct
  refine ⟨fun hs' => hdistinct.mp hs'.distinct, fun hfresh => ⟨hdistinct.mpr hfresh, ?_, ?_, ?_⟩⟩
  · have := hs.min_le
    omega
  · omega
  · rw [loops_add h, htotal, hs.loops_eq]

theorem running_add (hr : wp.Running) (h : wp.addWorker = .ok wp') : wp'.Running := by
  obtain ⟨-, -, hstarted, hworkers, -⟩ := addWorker_eq_ok h
  intro p hp
  rw [worker, hstarted]
  rw [hworkers] at hp
  rcases mem_append.mp hp with hp | hp
  · rw [worker_append (wp.valid p hp)]
    exact hr p hp
  · rw [mem_singleton.mp hp]
    simp

theorem sound_remove (hs : wp.Sound) (hr : wp.Running) (h : wp.removeWorker = .ok wp') :
    wp'.Sound := by
  have htotal := totalWorkers_remove hs h
  obtain ⟨hlt, p, hp, hstarted, hworkers, hmin, hmax⟩ := removeWorker_eq_ok h
  refine ⟨?_, by omega, ?_, ?_⟩
  · have hids : wp'.ids = wp'.workers.map (fun q => (wp.worker q).id) := by
      refine map_congr_left (fun q _ => ?_)
      rw [worker, hstarted]
      exact getD_modify Worker.id _ _ _ (fun _ => rfl)
    rw [hids, hworkers]
    exact hs.distinct.sublist (filter_sublist.map _)
  · have := hs.le_max
    omega
  · have hcount := countP_modify (q := fun w => !w.stopped)
      (f := fun w => { w with stopped := true }) (wp.valid p hp)
    have hlive : wp.started.getD p { id := 0 } = wp.worker p := rfl
    rw [hlive, hr p hp, ← hstarted] at hcount
    have := hs.loops_eq
    rw [loops] at this ⊢
    simp only [Bool.not_false, Bool.not_true, Bool.false_eq_true, if_true, if_false] at hcount
    omega

theorem running_remove (hr : wp.Running) (h : wp.removeWorker = .ok wp') : wp'.Running := by
  obtain ⟨-, p, -, hstarted, hworkers, -⟩ := removeWorker_eq_ok h
  intro q hq
  rw [hworkers] at hq
  obtain ⟨hq, hne⟩ := mem_filter.mp hq
  have hpq : p ≠ q := by
    rintro rfl
    simp at hne
  rw [worker, hstarted, getD_eq_getElem?_getD, getElem?_modify_ne _ _ hpq, ← getD_eq_getElem?_getD]
  exact hr q hq

theorem sound_setActive {wp : WorkerPool} (p : ℕ) (active : Bool) (hs : wp.Sound) :
    (wp.setActive p active).Sound := by
  have hids : (wp.setActive p active).ids = wp.ids :=
    map_congr_left (fun q _ => getD_modify Worker.id _ p q (fun _ => rfl))
  have hloops : (wp.setActive p active).loops = wp.loops := by
    change (wp.started.modify p _).countP _ = wp.started.countP _
    by_cases hp : p < wp.started.length
    · exact Nat.add_right_cancel (countP_modify hp)
    · rw [modify_eq_self (by omega)]
  exact ⟨hids ▸ hs.distinct, hs.min_le, hs.le_max, hloops.trans hs.loops_eq⟩

theorem running_setActive {wp : WorkerPool} (p : ℕ) (active : Bool) (hr : wp.Running) :
    (wp.setActive p active).Running := by
  intro q hq
  have hkeep := getD_modify Worker.stopped wp.started p q
    (f := fun w => { w with isActive := active }) (fun _ => rfl)
  exact hkeep.trans (hr q hq)

/-! ## Runs -/

/-- Steps with fresh IDs keep the counters right and every loop running. -/
theorem sound_step {wp : WorkerPool} {a : Action} (h : wp.Sound ∧ wp.Running)
    (hfresh : wp.FreshID a) : (wp.step a).Sound ∧ (wp.step a).Running := by
  obtain ⟨hs, hr⟩ := h
  cases a with
  | add =>
    rw [step]
    split
    · exact ⟨hs, hr⟩
    · rename_i wp' hadd
      have hnew := hfresh (addWorker_eq_ok hadd).1
      exact ⟨(sound_add_iff hs hadd).mpr hnew, running_add hr hadd⟩
  | remove =>
    rw [step]
    split
    · exact ⟨hs, hr⟩
    · rename_i wp' hremove
      exact ⟨sound_remove hs hr hremove, running_remove hr hremove⟩
  | active p active => exact ⟨sound_setActive p active hs, running_setActive p active hr⟩

theorem freshID_of_sound {wp : WorkerPool} {a : Action} (hs : wp.Sound)
    (h : (wp.step a).Sound) : wp.FreshID a := by
  cases a with
  | add =>
    intro hlt
    have hadd : wp.addWorker = .ok (wp.step .add) := by
      rw [step, addWorker, if_neg (by omega)]
    exact (sound_add_iff hs hadd).mp h
  | remove => trivial
  | active p active => trivial

theorem changesByOne {wp : WorkerPool} (a : Action) (hs : wp.Sound) : wp.ChangesByOne a := by
  cases a with
  | add => exact fun wp' h => totalWorkers_add h
  | remove => exact fun wp' h => totalWorkers_remove hs h
  | active p active => trivial

theorem startFrom_spec {wp : WorkerPool} (n i : ℕ) (hids : wp.ids = List.range' 1 wp.totalWorkers)
    (hloops : wp.loops = wp.totalWorkers) (hr : wp.Running)
    (hroom : (wp.totalWorkers + n : ℤ) ≤ wp.maxWorkers) :
    ∃ wp', wp.startFrom i n = .ok wp' ∧ wp'.ids = List.range' 1 wp'.totalWorkers ∧
      wp'.totalWorkers = wp.totalWorkers + n ∧ wp'.loops = wp'.totalWorkers ∧ wp'.Running ∧
      wp'.minWorkers = wp.minWorkers ∧ wp'.maxWorkers = wp.maxWorkers := by
  induction n generalizing wp i with
  | zero => exact ⟨wp, rfl, hids, rfl, hloops, hr, rfl, rfl⟩
  | succ n ih =>
    obtain ⟨wp₁, hadd⟩ : ∃ wp₁, wp.addWorker = .ok wp₁ := by
      rw [addWorker, if_neg (by omega)]
      exact ⟨_, rfl⟩
    obtain ⟨-, hids₁, -, -, hmin₁, hmax₁⟩ := addWorker_eq_ok hadd
    have htotal₁ := totalWorkers_add hadd
    have hrange : wp₁.ids = range' 1 wp₁.totalWorkers := by
      rw [hids₁, hids, htotal₁, range'_concat, Nat.one_mul, Nat.add_comm 1]
    obtain ⟨wp', hstart, hids', htotal, hloops', hr', hmin, hmax⟩ :=
      ih (i + 1) hrange (by rw [loops_add hadd, hloops, htotal₁]) (running_add hr hadd)
        (by push_cast at hroom ⊢; omega)
    refine ⟨wp', ?_, hids', by omega, hloops', hr', hmin.trans hmin₁, hmax.trans hmax₁⟩
    rw [startFrom, hadd]
    exact hstart

theorem newWorkerPool_eq_some {numCPU : ℕ} {config : WorkerPoolConfig} {wp : WorkerPool}
    (hnew : newWorkerPool numCPU config = some wp) :
    0 ≤ wp.maxWorkers ∧ wp.started = [] ∧ wp.workers = [] := by
  rw [newWorkerPool] at hnew
  generalize (if config.maxWorkers = 0 then (numCPU : ℤ) * 2 else config.maxWorkers) = most at hnew
  by_cases hneg : most < 0
  · rw [if_pos hneg] at hnew
    cases hnew
  · rw [if_neg hneg] at hnew
    cases hnew
    exact ⟨Int.not_lt.mp hneg, rfl, rfl⟩

theorem start_spec {numCPU : ℕ} {config : WorkerPoolConfig} {wp : WorkerPool}
    (hnew : newWorkerPool numCPU config = some wp) (hle : wp.minWorkers ≤ wp.maxWorkers) :
    ∃ wp', wp.start = .ok wp' ∧ wp'.Sound ∧ wp'.Running := by
  obtain ⟨hmost, hnone, hempty⟩ := newWorkerPool_eq_some hnew
  have hzero : wp.totalWorkers = 0 := by rw [totalWorkers, hempty, length_nil]
  obtain ⟨wp', hstart, hids, htotal, hloops, hr, hmin, hmax⟩ :=
    startFrom_spec wp.minWorkers.toNat 0 (by rw [ids, hempty, hzero]; rfl)
      (by rw [loops, hnone, hzero]; rfl) (by simp [Running, hempty]) (by omega)
  exact ⟨wp', hstart, ⟨hids ▸ nodup_range', by omega, by omega, hloops⟩, hr⟩

/-- **The pool's bookkeeping.** A pool with `minWorkers ≤ maxWorkers` starts, and over any calls the
workers have distinct IDs, as many as the bounds allow and as many as loops run, and each call
changes their number by one, exactly when every worker that is added gets an ID that no worker has.
-/
theorem pool_sound_iff {numCPU : ℕ} {config : WorkerPoolConfig} {wp : WorkerPool}
    (hnew : newWorkerPool numCPU config = some wp) (hle : wp.minWorkers ≤ wp.maxWorkers) :
    ∃ started, wp.start = .ok started ∧ ∀ as : List Action,
      (Runs.Always step Sound started as ∧ Runs.Along step ChangesByOne started as) ↔
        Runs.Along step FreshID started as := by
  obtain ⟨started, hstart, h0⟩ := start_spec hnew hle
  refine ⟨started, hstart, fun as => ?_⟩
  rw [← Runs.always_iff_along_of_strengthen (fun _ h => h.1) (fun _ _ => sound_step)
    (fun _ _ h => freshID_of_sound h.1) h0]
  refine and_iff_left_of_imp (fun hsound => ?_)
  rw [Runs.along_iff]
  intro pre a post heq
  exact changesByOne a (hsound pre ⟨a :: post, heq.symm⟩)

/-- A pool of one worker and room for a second one, which comes and goes while the first is
busy. -/
theorem pool_sound_scaled : ∃ wp, newWorkerPool 1 { minWorkers := 1, maxWorkers := 2 } = some wp ∧
      ∃ started, wp.start = .ok started ∧
        Runs.Always step Sound started [.add, .active 0 true, .remove] ∧
        Runs.Along step ChangesByOne started [.add, .active 0 true, .remove] := by
  have hnew : newWorkerPool 1 { minWorkers := 1, maxWorkers := 2 } =
      some { minWorkers := 1, maxWorkers := 2, valid := by simp } := rfl
  refine ⟨_, hnew, ?_⟩
  obtain ⟨started, hstart, h⟩ := pool_sound_iff hnew (by decide)
  refine ⟨started, hstart, (h _).mpr ?_⟩
  cases hstart
  decide

/-- A third worker is added, the first one leaves, and the next one gets the ID of the third. When
the second is busy, removing a worker takes both out of the slice: one worker is left of two that
must be, and two loops run. -/
theorem pool_counts_wrong : ∃ wp, newWorkerPool 1 { minWorkers := 2, maxWorkers := 4 } = some wp ∧
      ∃ started, wp.start = .ok started ∧
        (List.foldl step started [.add, .remove, .add]).ids = [2, 3, 3] ∧
        (List.foldl step started [.add, .remove, .add, .active 1 true]).totalWorkers = 3 ∧
        (List.foldl step started [.add, .remove, .add, .active 1 true, .remove]).ids = [2] ∧
        (List.foldl step started [.add, .remove, .add, .active 1 true, .remove]).loops = 2 := by
  refine ⟨_, rfl, _, rfl, ?_⟩
  decide

end WorkerPool

end LinkFlow.Pool
