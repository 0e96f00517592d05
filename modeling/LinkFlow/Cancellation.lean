/-
The cancellation of one execution (`execution/app/cancellation/manager.go`): calls of
`CancelExecution`, timeouts that make such calls, and the goroutines that carry them out.

A call that finds a cancellation in progress or completed is refused. But a new one is pending until
its goroutine gets to its first statement, and a call that finds a pending one replaces it and
starts a second goroutine. So there is at most one goroutine, and one `execution.cancelled`,
exactly if no call meets a pending cancellation (`cancelled_once_iff`).

The sections under the lock are single steps. The execution has not completed, so nothing is removed
from the map. The metrics and the context's `CancelFunc`, which nobody sets, are left out.
-/
import LinkFlow.Lib.Runs

set_option autoImplicit false

namespace LinkFlow.Cancellation

/-- `CancellationStatus`. `failed` is left out: `cleanupResources` returns nil. -/
inductive Status
  | pending | inProgress | completed
deriving DecidableEq, Repr

structure CancelConfig where
  (workflowID reason requestedBy : String := "")
  gracePeriod : ℤ := 0
  forceCancel : Bool := false
deriving DecidableEq, Repr

/-- What `performCancellation` does next. -/
inductive Place
  | start | stopRunningNodes | cleanupResources | updateExecutionState | publishCancellationEvent
  | complete | returned
deriving DecidableEq, Repr

/-- `CancellationContext`, with its goroutine. -/
structure CancellationContext where
  config : CancelConfig
  status : Status := .pending
  resourcesCleaned : Bool := false
  place : Place := .start
deriving DecidableEq, Repr

inductive Event
  | nodesStopRequest
  | stateChanged (reason : String)
  | cancelled (reason requestedBy : String)
deriving DecidableEq, Repr

/-- The contexts made for the execution, the last of which is in the map; whether its timeout
cancels it; and the calls of `handleTimeout` that are about to. -/
structure State where
  contexts : List CancellationContext := []
  timeout : Option Bool := none
  expired : ℕ := 0
  published : List Event := []
deriving DecidableEq, Repr

def cancelExecution (executionID : String) (config : CancelConfig) (s : State) :
    Option String × State :=
  match s.contexts.getLast?.map CancellationContext.status with
  | some .completed => (some ("execution " ++ executionID ++ " already cancelled"), s)
  | some .inProgress => (some ("execution " ++ executionID ++ " cancellation in progress"), s)
  | some .pending | none => (none, { s with contexts := s.contexts ++ [{ config := config }] })

/-- The next section of `performCancellation`. -/
def CancellationContext.perform (c : CancellationContext) : CancellationContext × List Event :=
  match c.place with
  | .start => ({ c with status := .inProgress, place := .stopRunningNodes }, [])
  | .stopRunningNodes => ({ c with place := .cleanupResources }, [.nodesStopRequest])
  | .cleanupResources => ({ c with resourcesCleaned := true, place := .updateExecutionState }, [])
  | .updateExecutionState =>
    ({ c with place := .publishCancellationEvent }, [.stateChanged c.config.reason])
  | .publishCancellationEvent =>
    ({ c with place := .complete }, [.cancelled c.config.reason c.config.requestedBy])
  | .complete => ({ c with status := .completed, place := .returned }, [])
  | .returned => (c, [])

inductive Action
  | cancel (config : CancelConfig)
  | setTimeout (autoCancel : Bool)
  | clearTimeout
  /-- `handleTimeout` reads the timeout. -/
  | timeout
  /-- `handleTimeout` cancels the execution. -/
  | autoCancel
  | perform (i : ℕ)

/-- What `handleTimeout` asks for. -/
def timeoutConfig : CancelConfig := { reason := "Execution timeout", forceCancel := true }

def step (executionID : String) (s : State) : Action → State
  | .cancel config => (cancelExecution executionID config s).2
  | .setTimeout autoCancel => { s with timeout := some autoCancel }
  | .clearTimeout => { s with timeout := none }
  | .timeout => if s.timeout = some true then { s with expired := s.expired + 1 } else s
  | .autoCancel =>
    if s.expired = 0 then s
    else (cancelExecution executionID timeoutConfig { s with expired := s.expired - 1 }).2
  | .perform i =>
    match s.contexts[i]? with
    | none => s
    | some c =>
      { s with contexts := s.contexts.set i c.perform.1, published := s.published ++ c.perform.2 }

/-! ## At most one cancellation -/

def Event.isCancelled : Event → Bool
  | .cancelled _ _ => true
  | .nodesStopRequest | .stateChanged _ => false

/-- At most one goroutine is scheduled or running, and the event was published at most once. -/
def State.Once (s : State) : Prop :=
  s.contexts.countP (fun c => c.place ≠ .returned) ≤ 1 ∧ s.published.countP Event.isCancelled ≤ 1

/-- If the action is a call of `CancelExecution`, it does not meet a pending cancellation. -/
def NotPending (s : State) (a : Action) : Prop :=
  (∃ config, a = .cancel config) ∨ a = .autoCancel ∧ s.expired ≠ 0 →
    s.contexts.getLast?.map CancellationContext.status ≠ some .pending

/-- A context whose goroutine stands at its place, with `n` events published. -/
def CancellationContext.At (c : CancellationContext) (n : ℕ) : Prop :=
  (c.status = .pending ↔ c.place = .start) ∧
    n = if c.place = .complete ∨ c.place = .returned then 1 else 0

def State.Single (s : State) : Prop :=
  (s.contexts = [] ∧ s.published.countP Event.isCancelled = 0) ∨
    ∃ c, s.contexts = [c] ∧ c.At (s.published.countP Event.isCancelled)

theorem State.Single.once {s : State} (h : s.Single) : s.Once := by
  rcases h with ⟨hnil, h0⟩ | ⟨c, hone, -, hcount⟩
  · exact ⟨by rw [hnil]; exact Nat.zero_le _, by omega⟩
  · refine ⟨by rw [hone]; exact List.countP_le_length, ?_⟩
    rw [hcount]
    split_ifs <;> omega

theorem CancellationContext.At.perform {c : CancellationContext} {n : ℕ} (h : c.At n) :
    c.perform.1.At (n + c.perform.2.countP Event.isCancelled) := by
  obtain ⟨hstatus, hn⟩ := h
  unfold CancellationContext.perform
  cases hplace : c.place with
  | start => simp_all [CancellationContext.At]
  | stopRunningNodes => simp_all [CancellationContext.At, Event.isCancelled]
  | cleanupResources => simp_all [CancellationContext.At]
  | updateExecutionState => simp_all [CancellationContext.At, Event.isCancelled]
  | publishCancellationEvent => simp_all [CancellationContext.At, Event.isCancelled]
  | complete => simp_all [CancellationContext.At]
  | returned => simp_all [CancellationContext.At]

theorem State.Single.cancelExecution {s : State} (h : s.Single) (executionID : String)
    (config : CancelConfig)
    (hpending : s.contexts.getLast?.map CancellationContext.status ≠ some .pending) :
    (Cancellation.cancelExecution executionID config s).2.Single := by
  rcases h with ⟨hnil, h0⟩ | ⟨c, hone, hat⟩
  · rw [Cancellation.cancelExecution, hnil]
    exact .inr ⟨{ config := config }, rfl, Iff.rfl.trans (by simp), h0⟩
  rw [hone] at hpending
  rw [Cancellation.cancelExecution, hone]
  cases hstatus : c.status with
  | pending => simp [hstatus] at hpending
  | inProgress => simpa [hstatus] using .inr ⟨c, hone, hat⟩
  | completed => simpa [hstatus] using .inr ⟨c, hone, hat⟩

theorem not_once_cancelExecution {s : State} (h : s.Single) (executionID : String)
    (config : CancelConfig)
    (hpending : s.contexts.getLast?.map CancellationContext.status = some .pending) :
    ¬ (cancelExecution executionID config s).2.Once := by
  rcases h with ⟨hnil, -⟩ | ⟨c, hone, hat⟩
  · rw [hnil] at hpending
    cases hpending
  have hstatus : c.status = .pending := by simpa [hone] using hpending
  have hplace := hat.1.mp hstatus
  rw [cancelExecution, hpending, hone]
  simp [State.Once, hplace]

/-- One cancellation at a time: the next begins when the last is not pending. -/
theorem single_step (executionID : String) (s : State) (a : Action) (h : s.Single)
    (hok : NotPending s a) : (step executionID s a).Single := by
  cases a with
  | cancel config => exact h.cancelExecution executionID config (hok (.inl ⟨config, rfl⟩))
  | setTimeout autoCancel => exact h
  | clearTimeout => exact h
  | timeout =>
    unfold step
    dsimp only
    split_ifs
    · exact h
    · exact h
  | autoCancel =>
    unfold step
    dsimp only
    split_ifs with h0
    · exact h
    · have h' : State.Single { s with expired := s.expired - 1 } := h
      exact h'.cancelExecution executionID timeoutConfig (hok (.inr ⟨rfl, h0⟩))
  | perform i =>
    unfold step
    dsimp only
    cases hi : s.contexts[i]? with
    | none => exact h
    | some c =>
      rcases h with ⟨hnil, -⟩ | ⟨c', hone, hat⟩
      · rw [hnil] at hi
        cases hi
      rw [hone, List.getElem?_singleton] at hi
      split_ifs at hi with h0
      cases hi
      refine .inr ⟨_, by rw [hone, h0]; rfl, ?_⟩
      dsimp only
      rw [List.countP_append]
      exact hat.perform

/-- **At most one cancellation** is scheduled or running and at most one `execution.cancelled`
published in all states of a run, exactly if no call of `CancelExecution` meets a pending
cancellation. -/
theorem cancelled_once_iff (executionID : String) (as : List Action) :
    Runs.Always (step executionID) State.Once {} as ↔
      Runs.Along (step executionID) NotPending {} as := by
  refine Runs.always_iff_along_of_strengthen (Q := State.Single) (fun s => State.Single.once)
    (single_step executionID) (fun s a hs honce hcall hpending => ?_) (.inl ⟨rfl, rfl⟩)
  rcases hcall with ⟨config, rfl⟩ | ⟨rfl, h0⟩
  · exact not_once_cancelExecution hs executionID config hpending honce
  · have hs' : State.Single { s with expired := s.expired - 1 } := hs
    rw [step, if_neg h0] at honce
    exact not_once_cancelExecution hs' executionID timeoutConfig hpending honce

/-- Two users cancel before the first goroutine runs: both goroutines run to the end. -/
theorem two_users_two_events : ([Action.cancel { reason := "a" }, .cancel { reason := "b" }] ++
        (List.replicate 6 0 ++ List.replicate 6 1).map .perform).foldl (step "e") {} =
      { contexts := [⟨{ reason := "a" }, .completed, true, .returned⟩,
          ⟨{ reason := "b" }, .completed, true, .returned⟩]
        published := [.nodesStopRequest, .stateChanged "a", .cancelled "a" "", .nodesStopRequest,
          .stateChanged "b", .cancelled "b" ""] } := by
  decide

end LinkFlow.Cancellation
