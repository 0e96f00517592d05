/-
A workflow run from `Orchestrator.ExecuteWorkflow` to the end of
`WorkflowExecutor.Execute` (`execution/app/orchestrator/orchestrator.go`): the
records it writes, the events it publishes and the context it works under.

`World` is everything a run reads and writes, and `Surroundings` what it cannot
choose: when the context is found done, clock readings, fresh IDs, the stored
workflows and the answers of the executor service. Each use takes the answer for
the current `tick` and moves on, so one `Surroundings` is one way a run can go. A
repository operation under a context that is done fails and changes nothing; any
other succeeds.

Go's maps are references. `execution.Data`, `context.Variables` and the input data
of every node record are one map, so a record is written with the variables of the
moment. A nil input map stays nil, and merging into it panics; like a retry that
never succeeds, that is a call of `executeNode` that does not return.
-/
import LinkFlow.Executor
import LinkFlow.StateMachine

set_option autoImplicit false

namespace LinkFlow

/-! ## Records and events -/

inductive ExecutionStatus
  | pending | queued | running | paused | completed | failed | cancelled | timeout
deriving DecidableEq, Repr

inductive NodeExecutionStatus
  | pending | running | completed | failed | skipped | cancelled
deriving DecidableEq, Repr

structure WorkflowExecution where
  (id workflowID : String)
  version : ℤ
  status : ExecutionStatus
  startedAt : ℤ
  finishedAt : Option ℤ
  executionTime : ℤ
  data : Option Data
  error : String
  createdAt : ℤ
deriving DecidableEq

structure NodeExecution where
  (id executionID nodeID : String)
  status : NodeExecutionStatus
  startedAt : ℤ
  finishedAt : Option ℤ
  (inputData outputData : Option Data)
  error : String
  retryCount : ℤ
deriving DecidableEq

/-- The events of a run, with the payloads it builds. -/
inductive BusEvent
  | executionStarted (id workflowID : String)
  | stateChanged (id workflowID : String) (fromState toState : ExecutionState)
      (event : ExecutionEvent) (metadata : Option Data)
  | nodeExecutionStarted (id executionID nodeID nodeType : String)
  | nodeExecuteRequest (executionID requestID nodeID nodeType : String) (inputData : Option Data)
  | nodeExecutionCompleted (id : String) (status : NodeExecutionStatus)
  | executionFailed (id error : String)
  | executionCompleted (id workflowID : String) (duration : ℤ)
deriving DecidableEq

/-- How a request to the executor service ends. -/
inductive ServiceAnswer
  | publishFailed (err : String)
  | result (data : Data)
  | cancelled
  | timeout

/-- One way the surroundings of a run can behave. A context that was found done is
done from then on, and in particular at the run's last write. -/
structure Surroundings where
  done : ℕ → Bool
  doneAtEnd : Bool
  done_mono : ∀ m n, m ≤ n → done m = true → done n = true
  done_end : ∀ n, done n = true → doneAtEnd = true
  ctxErr : String
  now : ℕ → ℤ
  uuid : ℕ → String
  workflows : String → Option Workflow
  serves : ℕ → ServiceAnswer

/-- What exists before a run: the repository's two tables and the bus. -/
structure Store where
  tick : ℕ
  executions : GoMap String WorkflowExecution
  nodeExecutions : GoMap String NodeExecution
  published : List BusEvent

/-- The state of a run: the store, and the fields of the executor. -/
structure World extends Store where
  execution : WorkflowExecution
  /-- `context.Variables` -/
  vars : Option Data
  machine : ExecutionStateMachine

/-- `Duration.Milliseconds` of an interval in nanoseconds. -/
def milliseconds (d : ℤ) : ℤ := d.tdiv 1000000

variable (S : Surroundings)

/-! ## `ExecuteWorkflow` -/

def newExecution (w : Workflow) (workflowID : String) (inputData : Option Data) (tick : ℕ) :
    WorkflowExecution where
  id := S.uuid tick
  workflowID := workflowID
  version := w.version
  status := .running
  startedAt := S.now tick
  finishedAt := none
  executionTime := 0
  data := inputData
  error := ""
  createdAt := S.now (tick + 1)

/-- `ExecuteWorkflow` up to `go executor.Execute(execCtx)`: the workflow and the state
the executor starts in. -/
def executeWorkflow (workflowID : String) (inputData : Option Data) (st : Store) :
    Except String (Workflow × World) :=
  if S.done st.tick then .error ("failed to get workflow: " ++ S.ctxErr)
  else
    match S.workflows workflowID with
    | none => .error "failed to get workflow: workflow not found"
    | some w =>
      if ¬ w.isActive then .error "workflow is not active"
      else if S.done (st.tick + 1) then .error ("failed to create execution: " ++ S.ctxErr)
      else
        let execution := newExecution S w workflowID inputData (st.tick + 1)
        -- the executor goes on with the record just stored, and with its input map
        .ok (w,
          { tick := st.tick + 4
            executions := st.executions.insert execution.id execution
            nodeExecutions := st.nodeExecutions
            published := st.published ++ [.executionStarted execution.id workflowID]
            execution := execution
            vars := inputData
            machine := newExecutionStateMachine execution.id workflowID (S.now (st.tick + 3)) })

/-! ## The pieces of a run -/

namespace World

/-- But for the request to the executor service its error is logged or dropped. -/
def publish (e : BusEvent) (s : World) : World :=
  { s with published := s.published ++ [e], tick := s.tick + 1 }

/-- `stateMachine.Transition`, with the event it publishes. -/
def transition (event : ExecutionEvent) (metadata : Option Data) (s : World) :
    Option String × World :=
  let t : Readings := ⟨S.now s.tick, S.now (s.tick + 1), S.now (s.tick + 2)⟩
  match s.machine.transition t event metadata with
  | .error err => (some err, s)
  | .ok m =>
    (none, publish (.stateChanged m.id m.workflowID s.machine.state m.state event metadata)
      { s with machine := m, tick := s.tick + 3 })

def createNodeExecution (n : NodeExecution) (s : World) : Option String × World :=
  if S.done s.tick then (some S.ctxErr, { s with tick := s.tick + 1 })
  else (none, { s with nodeExecutions := s.nodeExecutions.insert n.id n, tick := s.tick + 1 })

/-- `repository.UpdateNodeExecution`, whose error the run drops. -/
def updateNodeExecution (n : NodeExecution) (s : World) : World :=
  if S.done s.tick then { s with tick := s.tick + 1 }
  else { s with nodeExecutions := s.nodeExecutions.insert n.id n, tick := s.tick + 1 }

/-- `repository.Update` at the end of a run, whose error the run drops. -/
def update (s : World) : World :=
  if S.doneAtEnd then s
  else
    { s with executions := s.executions.insert s.execution.id { s.execution with data := s.vars } }

def sendToExecutorService (node : Node) (s : World) : Except String (Option Data) × World :=
  let requestID := S.uuid s.tick
  let s := publish (.nodeExecuteRequest s.execution.id requestID node.id node.type s.vars)
    { s with tick := s.tick + 1 }
  -- `Publish`, then the `select` on the answer, the context and a ten-second timer
  match S.serves s.tick with
  | .publishFailed err => (.error ("failed to send to executor service: " ++ err), s)
  | .result data => (.ok (some data), s)
  | .cancelled => (.error S.ctxErr, s)
  | .timeout => (.error "timeout waiting for node execution response", s)

/-- `executeHTTPNode`'s answer. -/
def httpOutput : Data :=
  (AList.insert "status" (Value.num 200) ∅).insert "body" (Value.str "HTTP request executed")

/-- `executeCodeNode`'s answer. -/
def codeOutput : Data := AList.insert "result" (Value.str "Code executed successfully") ∅

def executeNodeByType (node : Node) (s : World) : Except String (Option Data) × World :=
  if node.type = nodeTypeTrigger then (.ok s.vars, s)
  else if node.type = nodeTypeHTTPRequest then (.ok (some httpOutput), s)
  else if node.type = nodeTypeCode then (.ok (some codeOutput), s)
  else if node.type = nodeTypeCondition then (.ok s.vars, s)
  else if node.type = nodeTypeLoop then (.ok s.vars, s)
  else sendToExecutorService S node s

/-- `for k, v := range outputData { Variables[k] = v }`; `none` is the panic of an
assignment to a nil map. -/
def mergeOutput : Option Data → Option Data → Option (Option Data)
  | none, vars => some vars
  | some output, some vars => some (some (output.entries.foldl (fun m e => m.insert e.1 e.2) vars))
  | some output, none => if output.entries.length = 0 then some none else none

/-- The record `executeNode` creates for an attempt. -/
def newNodeExecution (nodeID : String) (s : World) : NodeExecution where
  id := S.uuid s.tick
  executionID := s.execution.id
  nodeID := nodeID
  status := .running
  startedAt := S.now s.tick
  finishedAt := none
  inputData := s.vars
  outputData := none
  error := ""
  retryCount := 0

/-- The end of `executeNode`: the record is saved and the event published. -/
def finishNode (n : NodeExecution) (s : World) : World :=
  publish (.nodeExecutionCompleted n.id n.status)
    (updateNodeExecution S { n with inputData := s.vars } s)

/-- `executeNode`, with fuel for its retries; `none` when they run out or it panics. A retry starts
over with a new record. -/
def executeNode (w : Workflow) : ℕ → String → World → Option (Option String × World)
  | 0, _, _ => none
  | fuel + 1, nodeID, s =>
    match w.nodes.find? (fun n => n.id = nodeID) with
    | none => some (some ("node not found: " ++ nodeID), s)
    | some node =>
      if node.disabled then some (none, s)
      else
        let n := newNodeExecution S nodeID s
        match createNodeExecution S n { s with tick := s.tick + 1 } with
        | (some err, s) => some (some ("failed to create node execution: " ++ err), s)
        | (none, s) =>
          let s := publish (.nodeExecutionStarted n.id s.execution.id nodeID node.type) s
          match executeNodeByType S node s with
          | (.error err, s) =>
            -- the count is that of the record made above, so it is still zero
            if 0 < node.retryCount ∧ n.retryCount < node.retryCount then
              executeNode w fuel nodeID { s with tick := s.tick + 1 }
            else
              let n := { n with finishedAt := some (S.now s.tick), status := .failed, error := err }
              some (some err, finishNode S n { s with tick := s.tick + 1 })
          | (.ok output, s) =>
            match mergeOutput output s.vars with
            | none => none
            | some vars =>
              let n := { n with
                finishedAt := some (S.now s.tick), status := .completed, outputData := output }
              some (none, finishNode S n
                { s with tick := s.tick + 1, vars := vars })

/-- What the loop of `executeNodes` sees of the run. -/
def nodeEnv (w : Workflow) (fuel : ℕ) : NodeEnv World where
  done := fun s => (S.done s.tick, { s with tick := s.tick + 1 })
  executeNode := fun nodeID s => executeNode S w fuel nodeID s

/-- `executeNodes`, for `fuel` iterations. -/
def executeNodes (w : Workflow) (fuel : ℕ) (s : World) : Option (Option String × World) :=
  let final := LoopState.run (nodeEnv S w fuel) w s fuel
  match final.phase with
  | .returned err => some (err, final.world)
  | .running | .hung => none

/-- The record as `handleExecutionError` and `completeExecution` finish it. -/
def finished (status : ExecutionStatus) (err : String) (finishedAt : ℤ) (e : WorkflowExecution) :
    WorkflowExecution :=
  { e with
    status := status, error := err, finishedAt := some finishedAt,
    executionTime := milliseconds (finishedAt - e.startedAt) }

def handleExecutionError (err : String) (s : World) : World :=
  let metadata : Data :=
    (AList.insert "error" (Value.str err) ∅).insert "timestamp" (Value.time (S.now s.tick))
  -- an invalid transition is logged and the run goes on
  let s := (transition S .fail (some metadata) { s with tick := s.tick + 1 }).2
  let s := update S { s with execution := finished .failed err (S.now s.tick) s.execution }
  publish (.executionFailed s.execution.id err) s

def completeExecution (w : Workflow) (s : World) : World :=
  let s := (transition S .complete none s).2
  let s := update S
    { s with execution := finished .completed s.execution.error (S.now s.tick) s.execution }
  publish (.executionCompleted s.execution.id w.id s.execution.executionTime) s

/-- `none` when it does not return within the fuel. -/
def execute (w : Workflow) (fuel : ℕ) (s : World) : Option World :=
  match transition S .start none s with
  | (some err, s) => some (handleExecutionError S err s)
  | (none, s) =>
    match executeNodes S w fuel s with
    | none => none
    | some (some err, s) => some (handleExecutionError S err s)
    | some (none, s) => some (completeExecution S w s)

end World

end LinkFlow
