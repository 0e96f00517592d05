/-
The queue manager (`internal/execution/app/queue/manager.go`) and its dead letter queue
(`priority_queue.go`), with the calls in flight around them.

`QueueManager` is what its lock protects: three priority queues and four counters. A call of
`Enqueue` looks at the stop flag, then at the size under the read lock, and inserts under the
lock; `processNextItem` takes a request off the queues, hands it to the worker pool and, if
the pool refuses it, calls `Enqueue` and drops the answer. Writing and deleting the record
of a request in Redis (`queue:item:<id>`) are goroutines of their own, and
`HandleExecutionComplete` reads that record to find the request it may have to put into the
dead letter queue.

`World.step` runs one such section: a check, a critical section, a command to Redis. Calls
are kept as what they have left to do, so a schedule is a list of actions. Redis commands
succeed. The worker pool is seen from outside: whether it has a free worker and whether it
takes a task are part of the schedule.
-/
import LinkFlow.PriorityQueue
import LinkFlow.Lib.Codec
import LinkFlow.Lib.Expiring
import LinkFlow.Lib.GoMap

set_option autoImplicit false

namespace LinkFlow.Queue

open List

/-! ## The dead letter queue -/

structure DeadLetterItem where
  request : ExecutionRequest
  error : String
  failedAt : ℤ
  retryCount : ℤ := 0
  lastRetryAt : Option ℤ := none
  canRetry : Bool := true
deriving DecidableEq, Repr

structure DeadLetterQueue where
  items : List DeadLetterItem := []
  maxRetries : ℤ
deriving DecidableEq, Repr

namespace DeadLetterQueue

/-- The request is in the queue. -/
def has (id : String) (dlq : DeadLetterQueue) : Bool := dlq.items.any (fun x => x.request.id = id)

theorem has_iff (id : String) (dlq : DeadLetterQueue) :
    dlq.has id = true ↔ ∃ x ∈ dlq.items, x.request.id = id := by
  simp [has]

/-- `DeadLetterQueue.Add`, with the item it persists. A request that is there already is
counted as a retry and moves to the end. -/
def add (now : ℤ) (request : ExecutionRequest) (err : String) (dlq : DeadLetterQueue) :
    DeadLetterItem × DeadLetterQueue :=
  match dlq.items.find? (fun x => x.request.id = request.id) with
  | some existing =>
    let existing := { existing with
      retryCount := existing.retryCount + 1, lastRetryAt := some now, error := err,
      canRetry := existing.retryCount + 1 < dlq.maxRetries }
    (existing, { dlq with
      items := dlq.items.eraseP (fun x => x.request.id = request.id) ++ [existing] })
  | none =>
    let item := { request := request, error := err, failedAt := now }
    (item, { dlq with items := dlq.items ++ [item] })

theorem has_add (now : ℤ) (request : ExecutionRequest) (err : String) (dlq : DeadLetterQueue)
    (id : String) :
    (dlq.add now request err).2.has id = true ↔ request.id = id ∨ dlq.has id = true := by
  rw [add]
  split
  · rename_i existing hfind
    have hid : existing.request.id = request.id := by simpa using find?_some hfind
    rw [has_iff, has_iff]
    dsimp only
    constructor
    · rintro ⟨x, hx, rfl⟩
      rcases mem_append.mp hx with hx | hx
      · exact .inr ⟨x, mem_of_mem_eraseP hx, rfl⟩
      · rw [mem_singleton.mp hx]
        exact .inl hid.symm
    · rintro (rfl | ⟨x, hx, rfl⟩)
      · exact ⟨_, mem_append_right _ (mem_singleton_self _), hid⟩
      · by_cases hsame : x.request.id = request.id
        · exact ⟨_, mem_append_right _ (mem_singleton_self _), hid.trans hsame.symm⟩
        · have hkeep := (mem_eraseP_of_neg
            (p := fun x : DeadLetterItem => x.request.id = request.id)
            (by simpa using hsame)).mpr hx
          exact ⟨x, mem_append_left _ hkeep, rfl⟩
  · rw [has, has, any_append]
    simp [or_comm]

end DeadLetterQueue

/-! ## The manager -/

/-- `WorkerCount` is not read. -/
structure QueueConfig where
  maxQueueSize : ℤ
  (persistToRedis enableDeadLetter : Bool)
  maxRetries : ℤ
deriving DecidableEq, Repr

/-- `QueueManager`, without its worker pool and its connections. -/
structure QueueManager where
  (highQueue normalQueue lowQueue : PriorityQueue)
  (queuedCount processingCount completedCount failedCount : ℤ := 0)
  maxQueueSize : ℤ
  persistQueue : Bool
  deadLetterQueue : Option DeadLetterQueue
  stopped : Bool := false
deriving DecidableEq, Repr

def newQueueManager (config : QueueConfig) : QueueManager where
  highQueue := PriorityQueue.newPriorityQueue .high
  normalQueue := PriorityQueue.newPriorityQueue .normal
  lowQueue := PriorityQueue.newPriorityQueue .low
  maxQueueSize := config.maxQueueSize
  persistQueue := config.persistToRedis
  deadLetterQueue :=
    if config.enableDeadLetter then some { maxRetries := config.maxRetries } else none

namespace QueueManager

def getQueueSize (qm : QueueManager) : ℤ :=
  qm.highQueue.items.length + qm.normalQueue.items.length + qm.lowQueue.items.length

/-- The critical section of `Enqueue`, with the item it makes. -/
def insert (now : ℤ) (request : ExecutionRequest) (qm : QueueManager) : QueueItem × QueueManager :=
  let item := { request := request, priority := request.priority, enqueuedAt := now }
  match request.priority with
  | .high => (item, { qm with
      highQueue := qm.highQueue.enqueue item, queuedCount := qm.queuedCount + 1 })
  | .low => (item, { qm with
      lowQueue := qm.lowQueue.enqueue item, queuedCount := qm.queuedCount + 1 })
  | _ => (item, { qm with
      normalQueue := qm.normalQueue.enqueue item, queuedCount := qm.queuedCount + 1 })

/-- `Enqueue`, run without interruption. -/
def enqueue (now : ℤ) (request : ExecutionRequest) (qm : QueueManager) :
    Except String (QueueItem × QueueManager) :=
  if qm.stopped = true then .error "queue manager is stopped"
  else if qm.maxQueueSize ≤ qm.getQueueSize then
    .error ("queue is full (max size: " ++ toString qm.maxQueueSize ++ ")")
  else .ok (qm.insert now request)

/-- The item `Dequeue` takes: high priority first, then normal, then low. -/
def takeItem (qm : QueueManager) : Option QueueItem × QueueManager :=
  if qm.highQueue.items.length ≠ 0 then
    (qm.highQueue.dequeue.1, { qm with highQueue := qm.highQueue.dequeue.2 })
  else if qm.normalQueue.items.length ≠ 0 then
    (qm.normalQueue.dequeue.1, { qm with normalQueue := qm.normalQueue.dequeue.2 })
  else if qm.lowQueue.items.length ≠ 0 then
    (qm.lowQueue.dequeue.1, { qm with lowQueue := qm.lowQueue.dequeue.2 })
  else (none, qm)

def dequeue (qm : QueueManager) : Except String (ExecutionRequest × QueueManager) :=
  match qm.takeItem with
  | (none, _) => .error "no items in queue"
  | (some item, qm) => .ok (item.request, { qm with
      processingCount := qm.processingCount + 1, queuedCount := qm.queuedCount - 1 })

/-- The counters of `HandleExecutionComplete`. -/
def countReport (success : Bool) (qm : QueueManager) : QueueManager :=
  if success then
    { qm with processingCount := qm.processingCount - 1, completedCount := qm.completedCount + 1 }
  else { qm with processingCount := qm.processingCount - 1, failedCount := qm.failedCount + 1 }

@[simp] theorem countReport_deadLetterQueue (success : Bool) (qm : QueueManager) :
    (qm.countReport success).deadLetterQueue = qm.deadLetterQueue := by
  unfold countReport
  split <;> rfl

@[simp] theorem countReport_maxQueueSize (success : Bool) (qm : QueueManager) :
    (qm.countReport success).maxQueueSize = qm.maxQueueSize := by
  unfold countReport
  split <;> rfl

/-- The requests in the three queues. -/
def requests (qm : QueueManager) : List ExecutionRequest :=
  qm.highQueue.requests ++ qm.normalQueue.requests ++ qm.lowQueue.requests

@[simp] theorem countReport_requests (success : Bool) (qm : QueueManager) :
    (qm.countReport success).requests = qm.requests := by
  unfold countReport
  split <;> rfl

theorem getQueueSize_eq (qm : QueueManager) : qm.getQueueSize = qm.requests.length := by
  rw [getQueueSize, requests, length_append, length_append, PriorityQueue.requests,
    PriorityQueue.requests, PriorityQueue.requests, length_map, length_map, length_map]
  push_cast
  rfl

theorem requests_insert (now : ℤ) (request : ExecutionRequest) (qm : QueueManager) :
    (qm.insert now request).2.requests.Perm (request :: qm.requests) := by
  rw [insert]
  split
  · exact ((PriorityQueue.requests_enqueue _ qm.highQueue).append_right _).append_right _
  · refine (List.Perm.append_left _ (PriorityQueue.requests_enqueue _ qm.lowQueue)).trans ?_
    exact perm_middle
  refine ((List.Perm.append_left _ (PriorityQueue.requests_enqueue _
    qm.normalQueue)).append_right _).trans ?_
  rw [requests, append_assoc, append_assoc, cons_append]
  exact perm_middle

/-- The parts of a manager that `Enqueue` and `Dequeue` leave alone. -/
def SameSettings (qm qm' : QueueManager) : Prop :=
  qm'.maxQueueSize = qm.maxQueueSize ∧ qm'.persistQueue = qm.persistQueue ∧
    qm'.deadLetterQueue = qm.deadLetterQueue ∧ qm'.stopped = qm.stopped

theorem insert_settings (now : ℤ) (request : ExecutionRequest) (qm : QueueManager) :
    SameSettings qm (qm.insert now request).2 := by
  rw [insert]
  split
  · exact ⟨rfl, rfl, rfl, rfl⟩
  · exact ⟨rfl, rfl, rfl, rfl⟩
  · exact ⟨rfl, rfl, rfl, rfl⟩

theorem takeItem_eq_some {qm qm' : QueueManager} {item : QueueItem}
    (h : qm.takeItem = (some item, qm')) :
    qm.requests.Perm (item.request :: qm'.requests) ∧ SameSettings qm qm' := by
  rw [takeItem] at h
  split_ifs at h
  · obtain ⟨hitem, rfl⟩ := Prod.mk.inj h
    have hperm := PriorityQueue.requests_dequeue hitem
    exact ⟨(hperm.append_right _).append_right _, rfl, rfl, rfl, rfl⟩
  · obtain ⟨hitem, rfl⟩ := Prod.mk.inj h
    have hperm := PriorityQueue.requests_dequeue hitem
    refine ⟨((List.Perm.append_left _ hperm).append_right _).trans ?_, rfl, rfl, rfl, rfl⟩
    rw [requests, append_assoc, append_assoc, cons_append]
    exact perm_middle
  · obtain ⟨hitem, rfl⟩ := Prod.mk.inj h
    have hperm := PriorityQueue.requests_dequeue hitem
    exact ⟨(List.Perm.append_left _ hperm).trans perm_middle, rfl, rfl, rfl, rfl⟩
  · cases h

theorem dequeue_eq_ok {qm qm' : QueueManager} {request : ExecutionRequest}
    (h : qm.dequeue = .ok (request, qm')) :
    qm.requests.Perm (request :: qm'.requests) ∧ SameSettings qm qm' := by
  rw [dequeue] at h
  split at h
  · cases h
  rename_i item qm₁ htake
  obtain ⟨hrequest, hqm⟩ := Prod.mk.inj (Except.ok.inj h)
  obtain ⟨hperm, hsettings⟩ := takeItem_eq_some htake
  rw [← hrequest, ← hqm]
  exact ⟨hperm, hsettings⟩

end QueueManager

/-! ## Redis -/

/-- The keys: `queue:item:<id>`, `dlq:item:<id>` and `queue:high`, `queue:normal`,
`queue:low`. -/
inductive Key
  | item (id : String)
  | deadLetter (id : String)
  | queue (priority : ExecutionPriority)
deriving DecidableEq, Repr

/-- The JSON texts. An item's `index` is not exported, so what is encoded is the item with
index 0. -/
structure Json (D : Type) where
  item : Codec QueueItem D
  items : Codec (List QueueItem) D
  deadLetter : Codec DeadLetterItem D

abbrev Redis (D : Type) := Expiring.Store Key D ℤ

/-- A goroutine that was started and has one command to run. -/
inductive Task
  | persist (item : QueueItem)
  | remove (id : String)
deriving DecidableEq, Repr

def day : ℤ := 24 * 60 * 60 * 1000000000

section Commands

variable {D : Type} (js : Json D)

/-- `persistItem` and `removePersistedItem` -/
def Task.run (now : ℤ) (redis : Redis D) : Task → Redis D
  | .persist item =>
    match js.item.encode { item with index := 0 } with
    | none => redis
    | some data => redis.set (.item item.request.id) data (now + day)
  | .remove id => redis.del (.item id)

def retrieveRequest (now : ℤ) (executionID : String) (redis : Redis D) :
    Option ExecutionRequest := do
  let entry ← (redis.lookup (.item executionID)).filter (Expiring.Store.live now)
  let item ← js.item.decode entry.value
  return item.request

/-- `DeadLetterQueue.persistItem` -/
def persistDeadLetter (now : ℤ) (item : DeadLetterItem) (redis : Redis D) : Redis D :=
  match js.deadLetter.encode item with
  | none => redis
  | some data => redis.set (.deadLetter item.request.id) data (now + 7 * day)

/-- The loop of `saveQueues`: an empty queue is passed over, and the first queue that does
not marshal ends it. -/
def saveQueues (redis : Redis D) : List (Key × PriorityQueue) → Redis D
  | [] => redis
  | (key, queue) :: rest =>
    if queue.items.length = 0 then saveQueues redis rest
    else
      match js.items.encode (queue.items.map (fun x => { x with index := 0 })) with
      | none => redis
      | some data => saveQueues (redis.insert key ⟨data, none⟩) rest

end Commands

/-! ## Calls in flight -/

/-- What a call has left to do. In the first three, `requeue` marks the `Enqueue` that
`processNextItem` calls. -/
inductive Call
  /-- `Enqueue`, from its start -/
  | enqueue (request : ExecutionRequest) (requeue : Bool)
  /-- `Enqueue`, from the size check -/
  | running (request : ExecutionRequest) (requeue : Bool)
  /-- `Enqueue`, from its critical section -/
  | admitted (request : ExecutionRequest) (requeue : Bool)
  /-- `processNextItem`, from `Submit` -/
  | dequeued (request : ExecutionRequest)
  /-- `HandleExecutionComplete`, from `retrieveRequest` -/
  | failing (executionID : String)
  /-- `HandleExecutionComplete`, from `DeadLetterQueue.Add` -/
  | found (executionID : String) (request : ExecutionRequest)
deriving DecidableEq, Repr

namespace Call

def holds : Call → Option ExecutionRequest
  | .enqueue request true => some request
  | .running request true => some request
  | .admitted request true => some request
  | .dequeued request => some request
  | _ => none

def isAdmitted : Call → Bool
  | .admitted _ _ => true
  | _ => false

end Call

/-- The manager, Redis, the calls in flight and the tasks with the worker pool. The last three
fields record the past: the requests that `Enqueue` accepted, those whose execution was reported,
and the accepted ones for which a report of a failure has returned. -/
structure World (D : Type) where
  qm : QueueManager
  redis : Redis D
  background : List Task := []
  calls : List Call := []
  (pool accepted finished : List ExecutionRequest := [])
  failed : List String := []

inductive Action
  /-- a call of `Enqueue` -/
  | enqueue (request : ExecutionRequest)
  /-- a call of `processNextItem`, with the answer of `HasAvailableWorker` -/
  | process (available : Bool)
  /-- the next section of a call; `submitted` is the answer of `Submit` -/
  | advance (c : Call) (now : ℤ) (submitted : Bool)
  | background (task : Task) (now : ℤ)
  /-- a call of `Stop` -/
  | stop
  /-- a call of `HandleExecutionComplete` -/
  | report (executionID : String) (success : Bool)
deriving DecidableEq, Repr

namespace World

variable {D : Type} (js : Json D) (ρ : RangeOrder)

/-- A call goes on as `c`. -/
def call (c : Call) (w : World D) : World D := { w with calls := w.calls ++ [c] }

/-- The call `c` is taken up. -/
def leave (c : Call) (w : World D) : World D := { w with calls := w.calls.erase c }

def spawn (task : Task) (w : World D) : World D :=
  if w.qm.persistQueue then { w with background := w.background ++ [task] } else w

/-- The execution of a task with the pool is over. -/
def finish (executionID : String) (w : World D) : World D :=
  match w.pool.find? (fun r => r.id = executionID) with
  | some request => { w with pool := w.pool.erase request, finished := w.finished ++ [request] }
  | none => w

/-- A call of `HandleExecutionComplete` for a failure returns. -/
def returnFailure (executionID : String) (w : World D) : World D :=
  if w.accepted.any (fun r => r.id = executionID) then
    { w with failed := w.failed ++ [executionID] }
  else w

section Fields

variable (c : Call) (task : Task) (executionID : String) (w : World D)

@[simp] theorem call_qm : (w.call c).qm = w.qm := rfl
@[simp] theorem call_calls : (w.call c).calls = w.calls ++ [c] := rfl
@[simp] theorem call_pool : (w.call c).pool = w.pool := rfl
@[simp] theorem call_accepted : (w.call c).accepted = w.accepted := rfl
@[simp] theorem call_finished : (w.call c).finished = w.finished := rfl

@[simp] theorem leave_qm : (w.leave c).qm = w.qm := rfl
@[simp] theorem leave_redis : (w.leave c).redis = w.redis := rfl
@[simp] theorem leave_calls : (w.leave c).calls = w.calls.erase c := rfl
@[simp] theorem leave_pool : (w.leave c).pool = w.pool := rfl
@[simp] theorem leave_accepted : (w.leave c).accepted = w.accepted := rfl
@[simp] theorem leave_finished : (w.leave c).finished = w.finished := rfl

@[simp] theorem spawn_qm : (w.spawn task).qm = w.qm := by unfold spawn; split <;> rfl
@[simp] theorem spawn_redis : (w.spawn task).redis = w.redis := by unfold spawn; split <;> rfl
@[simp] theorem spawn_calls : (w.spawn task).calls = w.calls := by unfold spawn; split <;> rfl
@[simp] theorem spawn_pool : (w.spawn task).pool = w.pool := by unfold spawn; split <;> rfl
@[simp] theorem spawn_accepted : (w.spawn task).accepted = w.accepted := by
  unfold spawn; split <;> rfl
@[simp] theorem spawn_finished : (w.spawn task).finished = w.finished := by
  unfold spawn; split <;> rfl
@[simp] theorem spawn_failed : (w.spawn task).failed = w.failed := by unfold spawn; split <;> rfl

@[simp] theorem finish_qm : (w.finish executionID).qm = w.qm := by unfold finish; split <;> rfl
@[simp] theorem finish_redis : (w.finish executionID).redis = w.redis := by
  unfold finish; split <;> rfl
@[simp] theorem finish_calls : (w.finish executionID).calls = w.calls := by
  unfold finish; split <;> rfl
@[simp] theorem finish_accepted : (w.finish executionID).accepted = w.accepted := by
  unfold finish; split <;> rfl
@[simp] theorem finish_failed : (w.finish executionID).failed = w.failed := by
  unfold finish; split <;> rfl

@[simp] theorem returnFailure_qm : (w.returnFailure executionID).qm = w.qm := by
  unfold returnFailure; split <;> rfl
@[simp] theorem returnFailure_redis : (w.returnFailure executionID).redis = w.redis := by
  unfold returnFailure; split <;> rfl
@[simp] theorem returnFailure_calls : (w.returnFailure executionID).calls = w.calls := by
  unfold returnFailure; split <;> rfl
@[simp] theorem returnFailure_pool : (w.returnFailure executionID).pool = w.pool := by
  unfold returnFailure; split <;> rfl
@[simp] theorem returnFailure_accepted : (w.returnFailure executionID).accepted = w.accepted := by
  unfold returnFailure; split <;> rfl
@[simp] theorem returnFailure_finished : (w.returnFailure executionID).finished = w.finished := by
  unfold returnFailure; split <;> rfl

end Fields

/-- The next section of a call that has been taken from `calls`. -/
def resume (now : ℤ) (submitted : Bool) (w : World D) : Call → World D
  | .enqueue request requeue => if w.qm.stopped = true then w else w.call (.running request requeue)
  | .running request requeue =>
    if w.qm.maxQueueSize ≤ w.qm.getQueueSize then w else w.call (.admitted request requeue)
  | .admitted request requeue =>
    let (item, qm) := w.qm.insert now request
    { w with qm, accepted := if requeue then w.accepted else w.accepted ++ [request] }.spawn
      (.persist item)
  | .dequeued request =>
    if submitted then { w with pool := w.pool ++ [request] }
    else w.call (.enqueue request true)
  | .failing executionID =>
    match retrieveRequest js now executionID w.redis with
    | some request => w.call (.found executionID request)
    | none => w.returnFailure executionID
  | .found executionID request =>
    match w.qm.deadLetterQueue with
    | some dlq =>
      let (item, dlq) := dlq.add now request "execution failed"
      { w with
        qm := { w.qm with deadLetterQueue := some dlq },
        redis := persistDeadLetter js now item w.redis }.returnFailure executionID
    | none => w

/-- `Dequeue` in `processNextItem` and elsewhere: the request, and the goroutine that deletes
its record. -/
def dequeue (w : World D) : Option ExecutionRequest × World D :=
  match w.qm.dequeue with
  | .error _ => (none, w)
  | .ok (request, qm) => (some request, { w with qm }.spawn (.remove request.id))

/-- One section of the system. -/
def step (w : World D) : Action → World D
  | .enqueue request => w.call (.enqueue request false)
  | .process available =>
    if available then
      match w.dequeue with
      | (some request, w) => w.call (.dequeued request)
      | (none, w) => w
    else w
  | .advance c now submitted => if c ∈ w.calls then resume js now submitted (w.leave c) c else w
  | .background task now =>
    if task ∈ w.background then
      { w with background := w.background.erase task, redis := task.run js now w.redis }
    else w
  | .stop =>
    { w with
      qm := { w.qm with stopped := true }
      redis := if w.qm.persistQueue then
          saveQueues js w.redis (ρ.run 341 [(.queue .high, w.qm.highQueue),
            (.queue .normal, w.qm.normalQueue), (.queue .low, w.qm.lowQueue)])
        else w.redis }
  | .report executionID success =>
    let w := { w with qm := w.qm.countReport success }.finish executionID
    if success = false ∧ w.qm.deadLetterQueue.isSome then w.call (.failing executionID) else w

/-- A new manager over some Redis, and no calls. -/
def start (config : QueueConfig) (redis : Redis D) : World D where
  qm := newQueueManager config
  redis := redis

end World

end LinkFlow.Queue
