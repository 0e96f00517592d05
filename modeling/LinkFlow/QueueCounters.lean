/-
The counters of the queue manager, over calls that run one after the other.

`queuedCount` is written by `Enqueue` and `Dequeue`, `processingCount` by `Dequeue` and
`HandleExecutionComplete`. Work comes into the queues by `restoreQueues` as well, and it
leaves `Dequeue` for the worker pool only if `Submit` takes it. `step_drifts` says for every
call by how much each counter then drifts away from what it counts; neither drift is ever
made good.
-/
import LinkFlow.QueuePersistence

set_option autoImplicit false

namespace LinkFlow.Queue

open List

namespace QueueManager

/-- `deadLetterQueue.Add`, if there is a queue and the request was found. -/
def deadLetter (now : ℤ) (found : Option ExecutionRequest) (qm : QueueManager) : QueueManager :=
  match qm.deadLetterQueue, found with
  | some dlq, some request =>
    { qm with deadLetterQueue := some (dlq.add now request "execution failed").2 }
  | _, _ => qm

/-- `found` is what `retrieveRequest` returns. -/
def handleExecutionComplete (now : ℤ) (success : Bool) (found : Option ExecutionRequest)
    (qm : QueueManager) : QueueManager :=
  if success then qm.countReport true else (qm.countReport false).deadLetter now found

/-! ## What each call does to the counters -/

def counts (qm : QueueManager) : ℤ × ℤ × ℤ := (qm.queuedCount, qm.processingCount, qm.getQueueSize)

theorem counts_insert (now : ℤ) (request : ExecutionRequest) (qm : QueueManager) :
    (qm.insert now request).2.counts =
      (qm.queuedCount + 1, qm.processingCount, qm.getQueueSize + 1) := by
  have hlen := (requests_insert now request qm).length_eq
  have hsize : (qm.insert now request).2.getQueueSize = qm.getQueueSize + 1 := by
    rw [getQueueSize_eq, getQueueSize_eq, hlen, length_cons]
    push_cast
    rfl
  rw [counts, hsize, insert]
  split
  · rfl
  · rfl
  · rfl

theorem counts_enqueue {now : ℤ} {request : ExecutionRequest} {qm qm' : QueueManager}
    {item : QueueItem} (h : qm.enqueue now request = .ok (item, qm')) :
    qm'.counts = (qm.queuedCount + 1, qm.processingCount, qm.getQueueSize + 1) := by
  have hinsert := counts_insert now request qm
  rw [enqueue] at h
  split_ifs at h
  rw [Except.ok.inj h] at hinsert
  exact hinsert

theorem counts_dequeue {qm qm' : QueueManager} {request : ExecutionRequest}
    (h : qm.dequeue = .ok (request, qm')) :
    qm'.counts = (qm.queuedCount - 1, qm.processingCount + 1, qm.getQueueSize - 1) := by
  have hlen := (dequeue_eq_ok h).1.length_eq
  have hsize : qm'.getQueueSize = qm.getQueueSize - 1 := by
    rw [getQueueSize_eq, getQueueSize_eq, hlen, length_cons]
    push_cast
    ring
  rw [counts, hsize]
  rw [dequeue] at h
  split at h
  · cases h
  rename_i item qm₁ htake
  obtain ⟨-, rfl⟩ := Prod.mk.inj (Except.ok.inj h)
  -- taking the item touches no counter
  rw [takeItem] at htake
  split_ifs at htake
  · rw [← (Prod.mk.inj htake).2]
  · rw [← (Prod.mk.inj htake).2]
  · rw [← (Prod.mk.inj htake).2]
  · cases htake

theorem counts_deadLetter (now : ℤ) (found : Option ExecutionRequest) (qm : QueueManager) :
    (qm.deadLetter now found).counts = qm.counts := by
  unfold deadLetter
  split
  · rfl
  · rfl

theorem counts_handleExecutionComplete (now : ℤ) (success : Bool)
    (found : Option ExecutionRequest) (qm : QueueManager) :
    (qm.handleExecutionComplete now success found).counts =
      (qm.queuedCount, qm.processingCount - 1, qm.getQueueSize) := by
  cases success with
  | true => rfl
  | false =>
    rw [handleExecutionComplete, if_neg Bool.false_ne_true, counts_deadLetter]
    rfl

end QueueManager

theorem restoreLoop_counters {D : Type} (js : Json D) (fault : Key → Option String) (now : ℤ)
    (redis : Redis D) (ps : List ExecutionPriority) (qm : QueueManager) :
    (restoreLoop js fault now redis ps qm).2.queuedCount = qm.queuedCount ∧
      (restoreLoop js fault now redis ps qm).2.processingCount = qm.processingCount := by
  induction ps generalizing qm with
  | nil => exact ⟨rfl, rfl⟩
  | cons p ps ih =>
    rw [restoreLoop]
    split
    · exact ⟨rfl, rfl⟩
    split
    · exact ih qm
    split
    · exact ⟨rfl, rfl⟩
    rename_i items hdecode
    have hset : ∀ q : PriorityQueue, (qm.setQueue q p).queuedCount = qm.queuedCount ∧
        (qm.setQueue q p).processingCount = qm.processingCount := by
      intro q
      cases p <;> exact ⟨rfl, rfl⟩
    have hrest := ih (qm.setQueue ((qm.queueOf p).enqueueAll items) p)
    rw [(hset _).1, (hset _).2] at hrest
    exact hrest

/-- `GET` answers, and what it returns can be decoded. -/
def readable {D : Type} (js : Json D) (fault : Key → Option String) (now : ℤ) (redis : Redis D)
    (p : ExecutionPriority) : Bool :=
  (fault (.queue p)).isNone && ((redis.lookup (.queue p)).filter (Expiring.Store.live now)).all
    (fun e => (js.items.decode e.value).isSome)

/-- The items that a restore finds: those under the queue keys before the first that it cannot
read. -/
def foundItems {D : Type} (js : Json D) (fault : Key → Option String) (now : ℤ) (redis : Redis D)
    (ps : List ExecutionPriority) : List QueueItem :=
  (ps.takeWhile (readable js fault now redis)).flatMap (storedItems js now redis)

theorem getQueueSize_setQueue (qm : QueueManager) (items : List QueueItem) (p : ExecutionPriority) :
    (qm.setQueue ((qm.queueOf p).enqueueAll items) p).getQueueSize =
      qm.getQueueSize + items.length := by
  have hlen : ∀ q : PriorityQueue, ((q.enqueueAll items).items.length : ℤ) =
      items.length + q.items.length := by
    intro q
    have hperm := (q.contents_enqueueAll items).length_eq
    simp only [PriorityQueue.contents, length_map, length_append] at hperm
    omega
  cases p <;> simp only [QueueManager.getQueueSize, QueueManager.setQueue, QueueManager.queueOf,
    hlen] <;> ring

/-- A restore adds the items that it finds. -/
theorem getQueueSize_restoreLoop {D : Type} (js : Json D) (fault : Key → Option String) (now : ℤ)
    (redis : Redis D) (ps : List ExecutionPriority) (qm : QueueManager) :
    (restoreLoop js fault now redis ps qm).2.getQueueSize =
      qm.getQueueSize + (foundItems js fault now redis ps).length := by
  induction ps generalizing qm with
  | nil => simp [restoreLoop, foundItems]
  | cons p ps ih =>
    rw [restoreLoop, foundItems, takeWhile_cons, readable]
    cases hfault : fault (.queue p) with
    | some err => simp
    | none =>
      cases hlive : (redis.lookup (.queue p)).filter (Expiring.Store.live now) with
      | none => simp [ih, foundItems, storedItems, hlive]
      | some entry =>
        cases hdecode : js.items.decode entry.value with
        | none => simp [hdecode]
        | some items =>
          have hstored : storedItems js now redis p = items := by
            rw [storedItems, hlive]
            simp [hdecode]
          simp only [hdecode, ih, getQueueSize_setQueue, foundItems]
          simp [hdecode, hstored]
          ring

/-! ## Calls one after the other -/

/-- The manager and the tasks that the worker pool has and has not completed. -/
structure Service where
  qm : QueueManager
  pool : List ExecutionRequest := []

inductive ServiceCall (D : Type)
  /-- `Start`, with what its restore finds in Redis -/
  | start (ρ : RangeOrder) (fault : Key → Option String) (now : ℤ) (redis : Redis D)
  | enqueue (now : ℤ) (request : ExecutionRequest)
  | dequeue
  /-- `processNextItem`, with the answers of `HasAvailableWorker` and `Submit` -/
  | process (now : ℤ) (available submitted : Bool)
  /-- `HandleExecutionComplete` for a task of the pool, with what `retrieveRequest` returns -/
  | complete (now : ℤ) (executionID : String) (success : Bool) (found : Option ExecutionRequest)

namespace Service

variable {D : Type} (js : Json D)

/-- A new manager, and no tasks. -/
def new (config : QueueConfig) : Service where
  qm := newQueueManager config

def step (s : Service) : ServiceCall D → Service
  | .start ρ fault now redis =>
    if s.qm.persistQueue then { s with qm := (s.qm.restoreQueues js ρ fault now redis).2 }
    else s
  | .enqueue now request =>
    match s.qm.enqueue now request with
    | .error _ => s
    | .ok (_, qm) => { s with qm }
  | .dequeue =>
    match s.qm.dequeue with
    | .error _ => s
    | .ok (_, qm) => { s with qm }
  | .process now available submitted =>
    if available then
      match s.qm.dequeue with
      | .error _ => s
      | .ok (request, qm) =>
        if submitted then { qm, pool := s.pool ++ [request] }
        else
          match qm.enqueue now request with
          | .error _ => { s with qm }
          | .ok (_, qm) => { s with qm }
    else s
  | .complete now executionID success found =>
    match s.pool.find? (fun r => r.id = executionID) with
    | some request =>
      { qm := s.qm.handleExecutionComplete now success found, pool := s.pool.erase request }
    | none => s

/-- The queued counter is the size of the queues, and the processing counter the number of
tasks with the pool. -/
def Counted (s : Service) : Prop :=
  s.qm.queuedCount = s.qm.getQueueSize ∧ s.qm.processingCount = s.pool.length

instance (s : Service) : Decidable s.Counted :=
  inferInstanceAs (Decidable (_ ∧ _))

/-- The number of items that a call restores: those that Redis has under the queue keys that a
`Start` with persistence reads. -/
def restores (s : Service) : ServiceCall D → ℤ
  | .start ρ fault now redis =>
    if s.qm.persistQueue then (foundItems js fault now redis (ρ.run 373 queues)).length else 0
  | _ => 0

/-- The call takes a request off the queues that the pool does not get. -/
def strands (s : Service) : ServiceCall D → Bool
  | .dequeue => s.qm.dequeue.isOk
  | .process _ true false => s.qm.dequeue.isOk
  | _ => false

variable {js}

variable {qm : QueueManager} {request : ExecutionRequest} {s : Service}

theorem counts_inj {a b c : ℤ} (h : qm.counts = (a, b, c)) :
    qm.queuedCount = a ∧ qm.processingCount = b ∧ qm.getQueueSize = c := by
  obtain ⟨h₁, h₂⟩ := Prod.mk.inj h
  exact ⟨h₁, Prod.mk.inj h₂⟩

theorem length_erase_find {pool : List ExecutionRequest} {executionID : String}
    (h : pool.find? (fun r => r.id = executionID) = some request) :
    ((pool.erase request).length : ℤ) = pool.length - 1 := by
  have hmem := mem_of_find?_eq_some h
  have hpos : 0 < pool.length := length_pos_of_mem hmem
  rw [length_erase_of_mem hmem]
  omega

/-- The counters of two states differ from what they count by the same amounts, but for
`restored` items and `stranded` requests. -/
def Drifts (s s' : Service) (restored stranded : ℤ) : Prop :=
  s'.qm.queuedCount - s'.qm.getQueueSize = s.qm.queuedCount - s.qm.getQueueSize - restored ∧
    s'.qm.processingCount - s'.pool.length = s.qm.processingCount - s.pool.length + stranded

theorem drifts_refl (s : Service) : Drifts s s 0 0 := by
  rw [Drifts]
  omega

theorem drifts_enqueue {now : ℤ} {item : QueueItem}
    (h : s.qm.enqueue now request = .ok (item, qm)) : Drifts s { s with qm } 0 0 := by
  obtain ⟨h₁, h₂, h₃⟩ := counts_inj (QueueManager.counts_enqueue h)
  rw [Drifts]
  dsimp only
  omega

theorem drifts_dequeue (h : s.qm.dequeue = .ok (request, qm)) : Drifts s { s with qm } 0 1 := by
  obtain ⟨h₁, h₂, h₃⟩ := counts_inj (QueueManager.counts_dequeue h)
  rw [Drifts]
  dsimp only
  omega

theorem drifts_submit (s : Service) (request : ExecutionRequest) :
    Drifts s { s with pool := s.pool ++ [request] } 0 (-1) := by
  have hlen : (s.pool ++ [request]).length = s.pool.length + 1 := by
    rw [length_append, length_singleton]
  rw [Drifts]
  dsimp only
  omega

theorem drifts_complete {executionID : String}
    (h : s.pool.find? (fun r => r.id = executionID) = some request) (now : ℤ) (success : Bool)
    (found : Option ExecutionRequest) :
    Drifts s { qm := s.qm.handleExecutionComplete now success found
               pool := s.pool.erase request } 0 0 := by
  obtain ⟨h₁, h₂, h₃⟩ := counts_inj
    (QueueManager.counts_handleExecutionComplete now success found s.qm)
  have hlen := length_erase_find h
  rw [Drifts]
  dsimp only
  omega

theorem Drifts.trans {s s' s'' : Service} {r r' t t' : ℤ} (h : Drifts s s' r t)
    (h' : Drifts s' s'' r' t') : Drifts s s'' (r + r') (t + t') := by
  rw [Drifts] at h h' ⊢
  omega

/-- **The balance of one call.** The queued counter loses the restored items, and the
processing counter gains the stranded requests. -/
theorem step_drifts (s : Service) (a : ServiceCall D) :
    Drifts s (s.step js a) (s.restores js a) (if s.strands a then 1 else 0) := by
  cases a with
  | start ρ fault now redis =>
    obtain ⟨hqueued, hprocessing⟩ := restoreLoop_counters js fault now redis
      (ρ.run 373 queues) s.qm
    have hsize := getQueueSize_restoreLoop js fault now redis (ρ.run 373 queues) s.qm
    have hstrands : s.strands (.start ρ fault now redis : ServiceCall D) = false := rfl
    rw [Drifts, restores, step, hstrands, if_neg Bool.false_ne_true]
    split_ifs with hpersist
    · dsimp only [QueueManager.restoreQueues]
      omega
    · omega
  | enqueue now request =>
    rw [step]
    split
    · exact drifts_refl s
    · rename_i h
      exact drifts_enqueue h
  | dequeue =>
    rw [strands, step]
    split
    · rename_i h
      rw [h]
      exact drifts_refl s
    · rename_i h
      rw [h]
      exact drifts_dequeue h
  | process now available submitted =>
    cases available with
    | false => exact drifts_refl s
    | true =>
      rw [step, if_pos rfl]
      split
      · rename_i h
        have hstrands : s.strands (.process now true submitted : ServiceCall D) = false := by
          cases submitted with
          | true => rfl
          | false =>
            rw [strands, h]
            rfl
        rw [hstrands]
        exact drifts_refl s
      · rename_i request qm h
        have htaken := drifts_dequeue h
        cases submitted with
        | true => exact htaken.trans (drifts_submit { s with qm } request)
        | false =>
          rw [strands, h, if_neg Bool.false_ne_true]
          split
          · exact htaken
          · rename_i henqueue
            exact htaken.trans (drifts_enqueue (s := { s with qm }) henqueue)
  | complete now executionID success found =>
    rw [step]
    split
    · rename_i request hfind
      exact drifts_complete hfind now success found
    · exact drifts_refl s

/-- **When the counters are right**: throughout a sequence of calls exactly if no `Start`
restores an item, and no request that is taken off the queues misses the pool. -/
theorem counted_iff (js : Json D) (config : QueueConfig) (calls : List (ServiceCall D)) :
    Runs.Always (step js) Counted (new config) calls ↔
      Runs.Along (step js) (fun s a => s.restores js a = 0 ∧ s.strands a = false)
        (new config) calls := by
  refine Runs.always_iff_along ?_ ⟨rfl, rfl⟩
  rintro s a ⟨hqueued, hprocessing⟩
  have hdrifts : Drifts s (s.step js a) (s.restores js a) (if s.strands a then 1 else 0) :=
    step_drifts s a
  obtain ⟨hbalance, hbalance'⟩ := hdrifts
  rw [Counted]
  cases hstrands : s.strands a with
  | true =>
    rw [hstrands, if_pos rfl] at hbalance'
    constructor
    · rintro ⟨-, h⟩
      omega
    · rintro ⟨-, h⟩
      cases h
  | false =>
    rw [hstrands, if_neg Bool.false_ne_true] at hbalance'
    constructor
    · rintro ⟨h, -⟩
      exact ⟨by omega, rfl⟩
    rintro ⟨h, -⟩
    constructor
    · omega
    · omega

def restartCalls : List (ServiceCall World.PlainText) :=
  [.start RangeOrder.stored (fun _ => none) 9 (history World.plainJson savedOnce)]

def refusedCalls : List (ServiceCall World.PlainText) :=
  [.enqueue 0 World.testRequest, .process 1 true false]

/-- After the first sequence a request is queued and the counter is 0; after the second the
processing counter is 1 and the pool has no task. -/
theorem counters_drift :
    ((restartCalls.foldl (step World.plainJson) (new World.testConfig)).qm.getQueueSize = 1 ∧
        (restartCalls.foldl (step World.plainJson) (new World.testConfig)).qm.queuedCount = 0) ∧
      (refusedCalls.foldl (step World.plainJson) (new World.testConfig)).qm.processingCount = 1 ∧
      (refusedCalls.foldl (step World.plainJson) (new World.testConfig)).pool = [] := by
  refine ⟨⟨?_, ?_⟩, ?_, ?_⟩
  · decide +kernel
  · decide +kernel
  · decide +kernel
  · decide +kernel

end Service

end LinkFlow.Queue
