/-
How long the queues of the queue manager get.

`Enqueue` compares the size with `maxQueueSize` in one critical section and inserts in
another. A call that has passed the comparison inserts for certain, so what counts is the
number of requests queued or about to be (`load`): a section that lets a call through found
the size below the bound, and no other section raises it (`bounded_step`). With at most `k`
calls between the two sections at any time the queues hold at most `maxQueueSize + k - 1`
requests (`size_le_of_admitted_le`); the bound itself is kept if these calls come one at a
time.
-/
import LinkFlow.QueueRuns

set_option autoImplicit false

namespace LinkFlow.Queue

theorem QueueManager.size_insert (now : ℤ) (request : ExecutionRequest) (qm : QueueManager) :
    (qm.insert now request).2.getQueueSize = qm.getQueueSize + 1 := by
  rw [getQueueSize_eq, getQueueSize_eq, (qm.requests_insert now request).length_eq,
    List.length_cons]
  push_cast
  rfl

theorem QueueManager.size_dequeue {qm qm' : QueueManager} {request : ExecutionRequest}
    (h : qm.dequeue = .ok (request, qm')) : qm'.getQueueSize + 1 = qm.getQueueSize := by
  rw [getQueueSize_eq, getQueueSize_eq, (dequeue_eq_ok h).1.length_eq, List.length_cons]
  push_cast
  rfl

/-- The room that the next section of a call gives back to the bound. -/
def Call.spare : Call → ℤ
  | .admitted _ _ => 1
  | _ => 0

theorem Call.spare_eq (c : Call) : c.spare = if c.isAdmitted = true then 1 else 0 := by
  cases c with
  | admitted request requeue => rfl
  | enqueue request requeue | running request requeue => rfl
  | dequeued request | failing id | found id request => rfl

namespace World

variable {D : Type} {js : Json D} {ρ : RangeOrder} {w : World D}

/-- The calls that have passed the size check and have yet to insert. -/
def admitted (w : World D) : ℕ := w.calls.countP Call.isAdmitted

/-- What is queued or about to be. -/
def load (w : World D) : ℤ := w.qm.getQueueSize + w.admitted

/-- A section of the system, or a call of `Dequeue` from outside. -/
inductive Access
  | inside (a : Action)
  | dequeue

def access (js : Json D) (ρ : RangeOrder) (w : World D) : Access → World D
  | .inside a => step js ρ w a
  | .dequeue => w.dequeue.2

theorem load_call {c : Call} (h : c.isAdmitted = false) : (w.call c).load = w.load := by
  rw [load, load, admitted, admitted, call_qm, call_calls, List.countP_append,
    List.countP_singleton, h]
  rfl

theorem load_leave {c : Call} (h : c ∈ w.calls) : (w.leave c).load + c.spare = w.load := by
  rw [load, load, admitted, admitted, leave_qm, leave_calls,
    (List.perm_cons_erase h).countP_eq Call.isAdmitted, List.countP_cons, c.spare_eq]
  push_cast
  omega

/-- What a section may do to the size: it takes up no more than it leaves, or it has found
room. -/
def Bounded (w w' : World D) (spare : ℤ) : Prop :=
  w'.qm.maxQueueSize = w.qm.maxQueueSize ∧
    (w'.load ≤ w.load + spare ∨ w'.qm.getQueueSize < w.qm.maxQueueSize)

theorem bounded_of_eq {w' : World D} (hmax : w'.qm.maxQueueSize = w.qm.maxQueueSize)
    (hsize : w'.qm.getQueueSize = w.qm.getQueueSize) (hadmitted : w'.admitted = w.admitted) :
    Bounded w w' 0 := by
  refine ⟨hmax, .inl ?_⟩
  rw [load, load, hsize, hadmitted]
  omega

theorem bounded_call {c : Call} (h : c.isAdmitted = false) : Bounded w (w.call c) 0 := by
  refine ⟨rfl, .inl ?_⟩
  rw [load_call h]
  omega

theorem bounded_resume (now : ℤ) (submitted : Bool) (c : Call) :
    Bounded w (resume js now submitted w c) c.spare := by
  cases c with
  | enqueue request requeue =>
    rw [resume]
    split_ifs
    · exact bounded_of_eq rfl rfl rfl
    · exact bounded_call rfl
  | running request requeue =>
    rw [resume]
    split_ifs with hfull
    · exact bounded_of_eq rfl rfl rfl
    · exact ⟨rfl, .inr (not_le.mp hfull)⟩
  | admitted request requeue =>
    have hsize := QueueManager.size_insert now request w.qm
    refine ⟨?_, .inl ?_⟩
    · rw [resume, spawn_qm]
      exact (QueueManager.insert_settings now request w.qm).1
    rw [resume, load, load, World.admitted, World.admitted, spawn_qm, spawn_calls]
    dsimp only [Call.spare]
    rw [hsize]
    omega
  | dequeued request =>
    rw [resume]
    split_ifs
    · exact bounded_of_eq rfl rfl rfl
    · exact bounded_call rfl
  | failing executionID =>
    rw [resume]
    split
    · exact bounded_call rfl
    refine bounded_of_eq ?_ ?_ ?_
    · rw [returnFailure_qm]
    · rw [returnFailure_qm]
    · rw [World.admitted, World.admitted, returnFailure_calls]
  | found executionID request =>
    rw [resume]
    split
    · refine bounded_of_eq ?_ ?_ ?_
      · rw [returnFailure_qm]
      · rw [returnFailure_qm]
        rfl
      · rw [World.admitted, World.admitted, returnFailure_calls]
    · exact bounded_of_eq rfl rfl rfl

theorem bounded_dequeue (w : World D) : Bounded w w.dequeue.2 0 := by
  rw [World.dequeue]
  split
  · exact bounded_of_eq rfl rfl rfl
  rename_i request qm hdeq
  have hsize := QueueManager.size_dequeue hdeq
  refine ⟨?_, .inl ?_⟩
  · rw [spawn_qm]
    exact (QueueManager.dequeue_eq_ok hdeq).2.1
  · rw [load, load, admitted, admitted, spawn_qm, spawn_calls]
    dsimp only
    omega

/-- **One section.** -/
theorem bounded_step (w : World D) (a : Action) : Bounded w (step js ρ w a) 0 := by
  cases a with
  | enqueue request => exact bounded_call rfl
  | process available =>
    rw [step]
    split_ifs
    · have hdeq := bounded_dequeue w
      split
      · rename_i heq
        rw [heq] at hdeq
        refine ⟨hdeq.1, hdeq.2.imp_left ?_⟩
        intro hload
        rw [load_call rfl]
        exact hload
      · rename_i heq
        rw [heq] at hdeq
        exact hdeq
    · exact bounded_of_eq rfl rfl rfl
  | advance c now submitted =>
    rw [step]
    split_ifs with hmem
    · have hleave := load_leave hmem
      have hresume : Bounded (w.leave c) (resume js now submitted (w.leave c) c) c.spare :=
        bounded_resume now submitted c
      refine ⟨hresume.1, hresume.2.imp_left ?_⟩
      intro hload
      omega
    · exact bounded_of_eq rfl rfl rfl
  | background task now =>
    rw [step]
    split_ifs
    · exact bounded_of_eq rfl rfl rfl
    · exact bounded_of_eq rfl rfl rfl
  | stop => exact bounded_of_eq rfl rfl rfl
  | report executionID success =>
    have hdone : Bounded w (({ w with qm := w.qm.countReport success } : World D).finish
        executionID) 0 := by
      refine bounded_of_eq ?_ ?_ ?_
      · rw [finish_qm, QueueManager.countReport_maxQueueSize]
      · rw [finish_qm, QueueManager.getQueueSize_eq, QueueManager.getQueueSize_eq,
          QueueManager.countReport_requests]
      · rw [admitted, admitted, finish_calls]
    rw [step]
    split_ifs
    · refine ⟨hdone.1, hdone.2.imp_left ?_⟩
      intro hload
      rw [load_call rfl]
      exact hload
    · exact hdone

theorem bounded_access (js : Json D) (ρ : RangeOrder) (w : World D) (a : Access) :
    Bounded w (access js ρ w a) 0 := by
  cases a with
  | inside a => exact bounded_step w a
  | dequeue => exact bounded_dequeue w

/-- With at most `k` calls between the check and the insertion, the queues overrun the bound
by less than `k`. -/
theorem size_le_of_admitted_le (js : Json D) (ρ : RangeOrder) (config : QueueConfig)
    (redis : Redis D) (hmax : 0 ≤ config.maxQueueSize) {k : ℕ} (hk : 1 ≤ k) {as : List Access}
    (h : Runs.Along (access js ρ) (fun w a => (access js ρ w a).admitted ≤ k)
      (start config redis) as) : Runs.Always (access js ρ)
      (fun w => w.qm.getQueueSize ≤ config.maxQueueSize + k - 1) (start config redis) as := by
  have hload : Runs.Always (access js ρ)
      (fun w => w.qm.maxQueueSize = config.maxQueueSize ∧ w.load ≤ config.maxQueueSize + k - 1)
      (start config redis) as := by
    refine h.always ?_ ⟨rfl, ?_⟩
    · rintro w a ⟨hsame, hle⟩ hadmitted
      obtain ⟨hkeep, hbound⟩ := bounded_access js ρ w a
      refine ⟨hkeep.trans hsame, ?_⟩
      rcases hbound with hbound | hroom
      · omega
      · rw [load]
        omega
    · have hzero : (start config redis).load = 0 := rfl
      omega
  intro pre hpre
  have hpref := (hload pre hpre).2
  rw [load] at hpref
  omega

/-- **The bound.** The queues never hold more than `maxQueueSize` requests if no two calls of
`Enqueue` are between the size check and the insertion at once. -/
theorem size_le_of_serial (js : Json D) (ρ : RangeOrder) (config : QueueConfig)
    (redis : Redis D) (hmax : 0 ≤ config.maxQueueSize) (as : List Access)
    (h : Runs.Along (access js ρ) (fun w a => (access js ρ w a).admitted ≤ 1)
      (start config redis) as) :
    Runs.Always (access js ρ) (fun w => w.qm.getQueueSize ≤ config.maxQueueSize)
      (start config redis) as := by
  intro pre hpre
  have hle := size_le_of_admitted_le js ρ config redis hmax le_rfl h pre hpre
  push_cast at hle
  omega

/-- Room for one request. -/
def smallConfig : QueueConfig :=
  { maxQueueSize := 1, persistToRedis := false, enableDeadLetter := false, maxRetries := 0 }

/-- The second `Enqueue` starts after the first has ended, and is refused; after a `Dequeue`
there is room again. -/
def serialRun : List Access :=
  (enqueueSections { id := "a" } 0 ++ enqueueSections { id := "b" } 1).map .inside ++
    .dequeue :: (enqueueSections { id := "b" } 2).map .inside

theorem serialRun_bounded :
    Runs.Always (access plainJson RangeOrder.stored) (fun w => w.qm.getQueueSize ≤ 1)
      (start smallConfig ∅) serialRun :=
  size_le_of_serial plainJson RangeOrder.stored smallConfig ∅ (by decide) serialRun
    (by decide +kernel)

/-- Both calls of `Enqueue` see an empty queue before either inserts. -/
def overlappingRun : List Access :=
  [.inside (.enqueue { id := "a" }), .inside (.enqueue { id := "b" }),
    .inside (.advance (.enqueue { id := "a" } false) 0 true),
    .inside (.advance (.enqueue { id := "b" } false) 0 true),
    .inside (.advance (.running { id := "a" } false) 0 true),
    .inside (.advance (.running { id := "b" } false) 0 true),
    .inside (.advance (.admitted { id := "a" } false) 0 true),
    .inside (.advance (.admitted { id := "b" } false) 0 true)]

/-- Two requests are queued where one is allowed. -/
theorem overlappingRun_overruns : (overlappingRun.foldl (access plainJson RangeOrder.stored)
      (start smallConfig ∅)).qm.getQueueSize = 2 ∧ smallConfig.maxQueueSize = 1 := by
  refine ⟨?_, rfl⟩
  decide +kernel

end World

end LinkFlow.Queue
