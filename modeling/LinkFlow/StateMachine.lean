/-
`ExecutionStateMachine` of `execution/app/orchestrator/state_machine.go`.

States and events are named string constants in the source and the transition
table is a literal, so both are enumerations here and the table a function; the
`String` readings of the names are what the error texts and published events
show. The machine's lock is held throughout `Transition`.

`Transition` reads the clock three times (the history entry, `UpdatedAt`, and the
state's own timestamp); the readings are an argument.
-/
import LinkFlow.Lib.GoMap

set_option autoImplicit false

namespace LinkFlow

/-! ## Data -/

/-- The dynamic values the orchestrator itself puts into maps. -/
inductive Value
  | str (s : String)
  | num (n : ℤ)
  | bool (b : Bool)
  | time (t : ℤ)
deriving DecidableEq, Repr

/-- `map[string]interface{}` -/
abbrev Data := GoMap String Value

/-! ## States and events -/

inductive ExecutionState
  | pending | queued | running | paused | success | failed | cancelled | timeout
deriving DecidableEq, Repr

inductive ExecutionEvent
  | start | pause | resume | complete | fail | cancel | timeout | queue
deriving DecidableEq, Repr

def ExecutionState.name : ExecutionState → String
  | .pending => "pending"
  | .queued => "queued"
  | .running => "running"
  | .paused => "paused"
  | .success => "success"
  | .failed => "failed"
  | .cancelled => "cancelled"
  | .timeout => "timeout"

def ExecutionEvent.name : ExecutionEvent → String
  | .start => "start"
  | .pause => "pause"
  | .resume => "resume"
  | .complete => "complete"
  | .fail => "fail"
  | .cancel => "cancel"
  | .timeout => "timeout"
  | .queue => "queue"

/-- Every state has an entry in the table. -/
def validTransitions : ExecutionState → ExecutionEvent → Option ExecutionState
  | .pending, .queue => some .queued
  | .pending, .start => some .running
  | .pending, .cancel => some .cancelled
  | .queued, .start => some .running
  | .queued, .cancel => some .cancelled
  | .queued, .timeout => some .timeout
  | .running, .pause => some .paused
  | .running, .complete => some .success
  | .running, .fail => some .failed
  | .running, .cancel => some .cancelled
  | .running, .timeout => some .timeout
  | .paused, .resume => some .running
  | .paused, .cancel => some .cancelled
  | .paused, .timeout => some .timeout
  | .failed, .start => some .running
  | _, _ => none

/-! ## The machine -/

structure StateTransition where
  (fromState toState : ExecutionState)
  event : ExecutionEvent
  timestamp : ℤ
  metadata : Option Data
deriving DecidableEq

/-- Nothing sets its node ID. -/
structure ExecutionError where
  (code message : String)
  details : Data
  timestamp : ℤ
  retryable : Bool
deriving DecidableEq

structure ExecutionStateMachine where
  (id workflowID : String)
  state : ExecutionState
  history : List StateTransition
  (createdAt updatedAt : ℤ)
  (startedAt completedAt pausedAt : Option ℤ)
  error : Option ExecutionError
deriving DecidableEq

def newExecutionStateMachine (id workflowID : String) (now : ℤ) : ExecutionStateMachine where
  id := id
  workflowID := workflowID
  state := .pending
  history := []
  createdAt := now
  updatedAt := now
  startedAt := none
  completedAt := none
  pausedAt := none
  error := none

/-- The clock readings of one `Transition`. -/
structure Readings where
  (entry updated now : ℤ)
deriving DecidableEq, Repr

namespace ExecutionStateMachine

/-- `isRetryable` on metadata that is not nil. -/
def isRetryable (metadata : Data) : Bool :=
  match metadata.lookup "retryable" with
  | some (.bool b) => b
  | _ =>
    match metadata.lookup "code" with
    | some (.str code) => code = "TIMEOUT" ∨ code = "RATE_LIMIT" ∨ code = "TEMPORARY_FAILURE"
    | _ => false

/-- The state's own timestamps. -/
def stamp (t : Readings) (m : ExecutionStateMachine) : ExecutionState → ExecutionStateMachine
  -- only the first start counts, and nothing is cleared on the way
  | .running => if m.startedAt = none then { m with startedAt := some t.now } else m
  | .paused => { m with pausedAt := some t.now }
  | .success | .failed | .cancelled | .timeout => { m with completedAt := some t.now }
  | .pending | .queued => m

def recordError (t : Readings) (event : ExecutionEvent) (metadata : Option Data)
    (m : ExecutionStateMachine) : ExecutionStateMachine :=
  match event, metadata with
  | .fail, some md =>
    match md.lookup "error" with
    | some (.str errMsg) =>
      { m with error := some ⟨"EXECUTION_FAILED", errMsg, md, t.now, isRetryable md⟩ }
    | _ => m
  | _, _ => m

/-- `Transition`, without the event it publishes. A rejected event shows the zero
value for the state it would have led to. -/
def transition (t : Readings) (event : ExecutionEvent) (metadata : Option Data)
    (m : ExecutionStateMachine) : Except String ExecutionStateMachine :=
  match validTransitions m.state event with
  | none =>
    .error ("invalid transition: " ++ m.state.name ++ " -> " ++ "" ++
      " (event: " ++ event.name ++ ")")
  | some newState =>
    -- the entry, `UpdatedAt` and the state's timestamps are three readings of the clock
    let entry : StateTransition := ⟨m.state, newState, event, t.entry, metadata⟩
    let m := { m with history := m.history ++ [entry], state := newState, updatedAt := t.updated }
    .ok (recordError t event metadata (stamp t m newState))

end ExecutionStateMachine

end LinkFlow
