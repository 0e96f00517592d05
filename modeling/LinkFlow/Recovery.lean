/-
The recovery of executions (`execution/app/recovery/manager.go`).

`RecoverExecution` runs as a whole under the lock. It makes a task and starts `performRecovery` in
a goroutine of its own, whose sections run between those of others: the status `in_progress`, the
recovery with the status after it, the start of the next attempt after a delay, and the removal of
the task from the map. What `performRecovery` does outside the lock, the attempts and the two
counters of results, belongs to the section before it.

A task is its number in the order in which the tasks were made, as the map holds pointers. The
events and logs are left out, and so is `ActiveRecoveries` of the metrics.
-/
import LinkFlow.Lib.GoMap

set_option autoImplicit false

namespace LinkFlow.Recovery

/-! ## Tasks -/

inductive RecoveryStatus
  | pending
  | inProgress
  | completed
  | failed
deriving DecidableEq, Repr

inductive RecoveryStrategy
  | resume
  | restart
  | rollback
  | skip
  | other (name : String)
deriving DecidableEq, Repr

/-- The parts of `persistence.Checkpoint` that a recovery reads: the nodes of its state, and the
node of every error. -/
structure Checkpoint where
  (pendingNodes completedNodes errors : List String := [])
deriving DecidableEq, Repr

structure RecoveryTask where
  executionID : String
  checkpoint : Checkpoint
  recoveryStrategy : RecoveryStrategy
  attempts : ℤ := 0
  lastError : Option String := none
  status : RecoveryStatus := .pending
deriving DecidableEq, Repr

/-- What a recovery gets from the orchestrator and the store. -/
structure Outside where
  executeWorkflow : Option String := none
  listCheckpoints : Except String (List Checkpoint) := .ok []

/-- Nothing but logs, and no error -/
def resumeFromCheckpoint (checkpoint : Checkpoint) : Option String × Checkpoint :=
  (none, checkpoint)

def rollbackToCheckpoint (outside : Outside) (checkpoint : Checkpoint) :
    Option String × Checkpoint :=
  match outside.listCheckpoints with
  | .error e => (some ("failed to list checkpoints: " ++ e), checkpoint)
  | .ok (_ :: previousCheckpoint :: _) => resumeFromCheckpoint previousCheckpoint
  | .ok _ => (some "no previous checkpoint to rollback to", checkpoint)

def skipFailedNode (checkpoint : Checkpoint) : Option String × Checkpoint :=
  match checkpoint.errors.getLast? with
  | none => (some "no failed node to skip", checkpoint)
  | some failedNodeID =>
    resumeFromCheckpoint
      { checkpoint with
        pendingNodes := checkpoint.pendingNodes.filter (fun nodeID => nodeID ≠ failedNodeID)
        completedNodes := checkpoint.completedNodes ++ [failedNodeID] }

def RecoveryTask.recover (task : RecoveryTask) (outside : Outside) : Option String × Checkpoint :=
  match task.recoveryStrategy with
  | .resume => resumeFromCheckpoint task.checkpoint
  | .restart => (outside.executeWorkflow, task.checkpoint)
  | .rollback => rollbackToCheckpoint outside task.checkpoint
  | .skip => skipFailedNode task.checkpoint
  | .other name => (some ("unknown recovery strategy: " ++ name), task.checkpoint)

/-! ## The goroutine of a task -/

/-- Where it stands: `performRecovery` is started, the strategy is at work, the delay before the
next attempt, the task is still to be removed, and the end. -/
inductive Place
  | starting
  | recovering
  | waiting
  | cleaning
  | returned
deriving DecidableEq, Repr

structure Worker where
  task : RecoveryTask
  place : Place := .starting
deriving DecidableEq, Repr

/-- What a section does to the manager besides. -/
structure Effect where
  (total successful failed : ℤ := 0)
  delete : Bool := false
deriving DecidableEq, Repr

/-- The next section of `performRecovery`. `updateTaskStatus` counts every status. -/
def Worker.advance (maxRecoveryAttempts : ℤ) (outside : Outside) (r : Worker) : Worker × Effect :=
  match r.place with
  | .starting =>
    ({ task := { r.task with status := .inProgress }, place := .recovering }, { total := 1 })
  | .recovering =>
    match r.task.recover outside with
    | (some err, checkpoint) =>
      let task := { r.task with
        checkpoint := checkpoint, lastError := some err, attempts := r.task.attempts + 1 }
      if maxRecoveryAttempts ≤ task.attempts then
        ({ task := { task with status := .failed }, place := .returned },
          { total := 1, failed := 1 })
      else ({ task := { task with status := .pending }, place := .waiting }, { total := 1 })
    | (none, checkpoint) =>
      ({ task := { r.task with checkpoint := checkpoint, status := .completed },
         place := .cleaning }, { total := 1, successful := 1 })
  | .waiting => ({ r with place := .starting }, {})
  | .cleaning => ({ r with place := .returned }, { delete := true })
  | .returned => (r, {})

/-! ## The manager -/

/-- `Manager`, with all tasks there have been. -/
structure Manager where
  recoveringExecutions : GoMap String ℕ := ∅
  recoveries : List Worker := []
  (totalRecoveries successfulRecoveries failedRecoveries : ℤ := 0)

namespace Manager

def recovering (m : Manager) (executionID : String) : Bool :=
  match (m.recoveringExecutions.lookup executionID).bind (fun i => m.recoveries[i]?) with
  | some r => r.task.status = .inProgress
  | none => false

/-- A new task in the map, and its goroutine. -/
def start (m : Manager) (executionID : String) (strategy : RecoveryStrategy)
    (checkpoint : Checkpoint) : Manager :=
  { m with
    recoveringExecutions := m.recoveringExecutions.insert executionID m.recoveries.length
    recoveries := m.recoveries ++
      [{ task := { executionID := executionID, checkpoint := checkpoint,
                   recoveryStrategy := strategy } }] }

/-- `checkpoint` is what `GetLatestCheckpoint` returns. -/
def recoverExecution (m : Manager) (executionID : String) (strategy : RecoveryStrategy)
    (checkpoint : Except String Checkpoint) : Except String Manager :=
  if m.recovering executionID then
    .error ("execution " ++ executionID ++ " is already being recovered")
  else
    match checkpoint with
    | .error e => .error ("failed to get checkpoint: " ++ e)
    | .ok checkpoint => .ok (m.start executionID strategy checkpoint)

/-- The state after a section of task `i`. -/
def settle (m : Manager) (i : ℕ) (r : Worker × Effect) : Manager where
  recoveringExecutions :=
    if r.2.delete then m.recoveringExecutions.erase r.1.task.executionID
    else m.recoveringExecutions
  recoveries := m.recoveries.set i r.1
  totalRecoveries := m.totalRecoveries + r.2.total
  successfulRecoveries := m.successfulRecoveries + r.2.successful
  failedRecoveries := m.failedRecoveries + r.2.failed

/-- A call of `RecoverExecution`, or the next section of a task. -/
inductive Event
  | recoverExecution (executionID : String) (strategy : RecoveryStrategy)
      (checkpoint : Except String Checkpoint)
  | next (i : ℕ) (outside : Outside)

def step (maxRecoveryAttempts : ℤ) (m : Manager) : Event → Manager
  | .recoverExecution executionID strategy checkpoint =>
    match m.recoverExecution executionID strategy checkpoint with
    | .ok m' => m'
    | .error _ => m
  | .next i outside =>
    match m.recoveries[i]? with
    | some r => m.settle i (r.advance maxRecoveryAttempts outside)
    | none => m

end Manager

end LinkFlow.Recovery
