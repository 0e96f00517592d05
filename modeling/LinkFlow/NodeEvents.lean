/-
What the tracer, the metrics collector and the execution logger make of the events of a run
(`execution/app/tracing/tracer.go`, `metrics/collector.go` and `logging/logger.go`).

The start of a node execution has the run's execution ID and the node's ID in its payload. Its end
has neither: its aggregate ID is the node execution's own, and its payload is the status. All
three subscribers take that aggregate ID, or nothing, for the execution's, and the node ID that is
missing for an empty one. So the tracer looks for the span under another key than the one it
stored it under, the collector counts every node under one empty ID, and the logger files the end
under an execution that does not exist. What they say about a run is right exactly if the run
starts no node execution (`reports_right_iff`).

The subscribers are handed the events of the run once each, in the order of their publication.
-/
import LinkFlow.ExecutionLogger
import LinkFlow.ExecutionRecord
import LinkFlow.Metrics

set_option autoImplicit false

namespace LinkFlow

open List

/-! ## What subscribers see of an event -/

/-- The text of a status. -/
def NodeExecutionStatus.text : NodeExecutionStatus → String
  | .pending => "pending"
  | .running => "running"
  | .completed => "completed"
  | .failed => "failed"
  | .skipped => "skipped"
  | .cancelled => "cancelled"

namespace BusEvent

def aggregateID : BusEvent → String
  | .executionStarted id _ | .stateChanged id _ _ _ _ _ | .nodeExecutionStarted id _ _ _
  | .nodeExecutionCompleted id _ | .executionFailed id _ | .executionCompleted id _ _ => id
  | .nodeExecuteRequest executionID _ _ _ _ => executionID

/-- `event.Payload`, of the events that have a subscriber here. -/
def payload : BusEvent → Data
  | .executionStarted id workflowID =>
    GoMap.ofPairs [("workflowId", .str workflowID), ("executionId", .str id)]
  | .nodeExecutionStarted _ executionID nodeID nodeType =>
    GoMap.ofPairs [("executionId", .str executionID), ("nodeId", .str nodeID),
      ("nodeType", .str nodeType)]
  | .nodeExecutionCompleted _ status => GoMap.ofPairs [("status", .str status.text)]
  | .executionFailed _ error => GoMap.ofPairs [("error", .str error)]
  | .executionCompleted _ workflowID duration =>
    GoMap.ofPairs [("workflowId", .str workflowID), ("duration", .num duration)]
  | .stateChanged _ _ _ _ _ _ | .nodeExecuteRequest _ _ _ _ _ => ∅

/-- `v, _ := event.Payload[key].(string)` -/
def str (event : BusEvent) (key : String) : String :=
  match event.payload.lookup key with
  | some (.str s) => s
  | _ => ""

@[simp] theorem str_nodeId_completed (id : String) (status : NodeExecutionStatus) :
    (nodeExecutionCompleted id status).str "nodeId" = "" := rfl

end BusEvent

namespace Telemetry

/-! ## The tracer -/

inductive SpanKind
  | execution (workflowID : String)
  | node (nodeID nodeType : String)
deriving DecidableEq, Repr

/-- A span of the tracing library, with its number among all spans and the aggregate ID of the
event it was started for. -/
structure Span where
  number : ℕ
  (name executionID : String)
  kind : SpanKind
  parent : Option ℕ
  startedFor : String
deriving DecidableEq, Repr

/-- `span.End()`, with the error recorded before and the aggregate ID of the event. -/
structure SpanEnd where
  span : Span
  err : Option String
  endedFor : String
deriving DecidableEq, Repr

/-- `Tracer`, with the spans it has started and ended. -/
structure Tracer where
  enabled : Bool
  spans : GoMap String Span := ∅
  started : List Span := []
  ended : List SpanEnd := []

namespace Tracer

variable (t : Tracer)

def spanKey (executionID nodeID : String) : String := executionID ++ ":" ++ nodeID

def startExecutionSpan (executionID workflowID startedFor : String) : Tracer :=
  if !t.enabled then t
  else
    let span : Span :=
      { number := t.started.length, name := "execution:" ++ executionID, executionID := executionID,
        kind := .execution workflowID, parent := none, startedFor := startedFor }
    { t with spans := t.spans.insert executionID span, started := t.started ++ [span] }

def startNodeSpan (executionID nodeID nodeType startedFor : String) : Tracer :=
  if !t.enabled then t
  else
    let span : Span :=
      { number := t.started.length, name := "node:" ++ nodeID, executionID := executionID,
        kind := .node nodeID nodeType, parent := (t.spans.lookup executionID).map Span.number,
        startedFor := startedFor }
    { t with
      spans := t.spans.insert (spanKey executionID nodeID) span, started := t.started ++ [span] }

def endSpan (spanID : String) (err : Option String) (endedFor : String) : Tracer :=
  if !t.enabled then t
  else
    match t.spans.lookup spanID with
    | none => t
    | some span =>
      { t with spans := t.spans.erase spanID, ended := t.ended ++ [⟨span, err, endedFor⟩] }

/-- The handlers of the tracer. -/
def handle (event : BusEvent) : Tracer :=
  match event with
  | .executionStarted _ _ =>
    t.startExecutionSpan event.aggregateID (event.str "workflowId") event.aggregateID
  | .executionCompleted _ _ _ => t.endSpan event.aggregateID none event.aggregateID
  | .executionFailed _ _ => t.endSpan event.aggregateID (some (event.str "error")) event.aggregateID
  | .nodeExecutionStarted _ _ _ _ =>
    t.startNodeSpan (event.str "executionId") (event.str "nodeId") (event.str "nodeType")
      event.aggregateID
  | .nodeExecutionCompleted _ _ =>
    -- the payload of this event has no `nodeId`
    t.endSpan (spanKey event.aggregateID (event.str "nodeId"))
      (if event.str "status" ≠ "completed" then some "node execution failed" else none)
      event.aggregateID
  | .stateChanged _ _ _ _ _ _ | .nodeExecuteRequest _ _ _ _ _ => t

end Tracer

/-! ## The metrics collector -/

/-- `Collector`, as far as node executions go: the counters and durations by label, and the
metrics of every node. -/
structure Collector where
  nodeExecutions : GoMap (String × String) ℕ := ∅
  nodeDuration : GoMap String (List ℤ) := ∅
  nodeMetrics : GoMap String Metrics.NodeMetrics := ∅

namespace Collector

variable (c : Collector)

def recordNodeExecution (nodeID nodeType : String) (duration : ℤ) (success : Bool) (now : ℤ) :
    Collector :=
  let status := if success then "success" else "failure"
  { nodeExecutions := c.nodeExecutions.upd 0 (nodeType, status) (· + 1)
    nodeDuration := c.nodeDuration.upd [] nodeType (· ++ [duration])
    nodeMetrics :=
      Metrics.updateNodeMetrics c.nodeMetrics ⟨nodeID, nodeType, duration, success, now⟩ }

/-- The handlers of the collector for node executions; that of their start does nothing. -/
def handle (now : ℤ) (event : BusEvent) : Collector :=
  match event with
  | .nodeExecutionCompleted _ _ =>
    -- a fixed second for the duration
    c.recordNodeExecution (event.str "nodeId") (event.str "nodeType") 1000000000
      (event.str "status" = NodeExecutionStatus.completed.text) now
  | _ => c

/-- How many executions are counted under the ID. -/
def count (nodeID : String) : ℤ := ((c.nodeMetrics.lookup nodeID).map (·.executionCount)).getD 0

end Collector

/-! ## The logger -/

open Logging (ExecutionLog)

def logInfo (executionID message : String) (data : GoMap String String) : ExecutionLog :=
  { executionID := executionID, level := .info, message := message, data := data,
    source := "system" }

def logError (text : Option Value → String) (executionID nodeID message : String)
    (err : Option String) : ExecutionLog :=
  { executionID := executionID
    nodeID := nodeID
    level := .error
    message := message
    data := match err with
      | none => ∅
      | some err => GoMap.ofPairs [("error", text (some (.str err)))]
    source := "system" }

/-- The entry a handler of the logger makes of an event. `text` is the JSON text of a payload's
value, or of nil. -/
def entryOf (text : Option Value → String) (event : BusEvent) : Option ExecutionLog :=
  let field (name key : String) : GoMap String String :=
    GoMap.ofPairs [(name, text (event.payload.lookup key))]
  match event with
  | .executionStarted _ _ =>
    some (logInfo event.aggregateID "Execution started" (field "workflowId" "workflowId"))
  | .executionCompleted _ _ _ =>
    some (logInfo event.aggregateID "Execution completed" (field "duration" "duration"))
  | .executionFailed _ _ =>
    some (logError text event.aggregateID "" "Execution failed" (some (event.str "error")))
  | .nodeExecutionStarted _ _ _ _ =>
    some (logInfo (event.str "executionId") ("Node " ++ event.str "nodeId" ++ " started")
      (field "nodeType" "nodeType"))
  | .nodeExecutionCompleted _ _ =>
    if event.str "status" = NodeExecutionStatus.completed.text then
      some (logInfo event.aggregateID ("Node " ++ event.str "nodeId" ++ " completed") ∅)
    else
      some (logError text event.aggregateID (event.str "nodeId")
        ("Node " ++ event.str "nodeId" ++ " failed") none)
  | .stateChanged _ _ _ _ _ _ | .nodeExecuteRequest _ _ _ _ _ => none

/-! ## A run, as they see it -/

/-- An event with the clock readings of its handlers. -/
structure Delivery where
  event : BusEvent
  (nanos now : ℤ := 0)

def tracer (enabled : Bool) (ds : List Delivery) : Tracer :=
  ds.foldl (fun t d => t.handle d.event) { enabled := enabled }

def collector (ds : List Delivery) : Collector := ds.foldl (fun c d => c.handle d.now d.event) {}

section Logger

variable {D : Type} (json : Codec ExecutionLog D) (text : Option Value → String)

/-- The entry of an event, as it is stored. -/
def Delivery.entry (d : Delivery) : Option ExecutionLog :=
  (entryOf text d.event).map (·.filled d.nanos d.now)

/-- A handler hands its entry to `Log`. -/
def logDelivery (h : Logging.History D) (d : Delivery) : Logging.History D :=
  match entryOf text d.event with
  | none => h
  | some entry => h.step json (.log d.nanos d.now entry)

def logger (ds : List Delivery) : Logging.History D := ds.foldl (logDelivery json text) {}

end Logger

def Delivery.startedNode (d : Delivery) : Option String :=
  match d.event with
  | .nodeExecutionStarted _ _ nodeID _ => some nodeID
  | _ => none

def Delivery.completes (d : Delivery) : Bool :=
  match d.event with
  | .nodeExecutionCompleted _ _ => true
  | _ => false

/-- The subscribers are right: every span that was started was ended by its event, every node has as
many executions counted as started, and the end of every node execution is in the log of the run. -/
structure Consistent {D : Type} (json : Codec ExecutionLog D) (text : Option Value → String)
    (enabled : Bool) (executionID : String) (ds : List Delivery) : Prop where
  closed : ∀ span ∈ (tracer enabled ds).started, ∃ x ∈ (tracer enabled ds).ended, x.span = span
  own : ∀ x ∈ (tracer enabled ds).ended, x.span.startedFor = x.endedFor
  counted : ∀ nodeID, (collector ds).count nodeID = ds.countP (·.startedNode = some nodeID)
  filed : ∀ d ∈ ds, d.completes → ∀ entry ∈ d.entry text,
    entry ∈ (logger json text ds).of executionID

/-- No node execution was started. -/
def Idle (ds : List Delivery) : Prop := ∀ d ∈ ds, d.startedNode = none

instance (ds : List Delivery) : Decidable (Idle ds) :=
  inferInstanceAs (Decidable (∀ d ∈ ds, d.startedNode = none))

/-! ## What a run publishes -/

section Published

variable {S : Surroundings} {k : ℕ} {base : List BusEvent} {executionID : String}

/-- What a run may publish between its start and its end. The IDs of node executions are drawn
after the tick `k`. -/
def Inner (S : Surroundings) (k : ℕ) (executionID : String) : BusEvent → Prop
  | .nodeExecutionStarted id execution _ _ => execution = executionID ∧ ∃ t, k < t ∧ id = S.uuid t
  | .nodeExecutionCompleted id _ => ∃ t, k < t ∧ id = S.uuid t
  | .stateChanged _ _ _ _ _ _ | .nodeExecuteRequest _ _ _ _ _ => True
  | .executionStarted _ _ | .executionFailed _ _ | .executionCompleted _ _ _ => False

def EndsStarted (executionID : String) (es : List BusEvent) : Prop :=
  ∀ id status, .nodeExecutionCompleted id status ∈ es →
    ∃ nodeID nodeType, .nodeExecutionStarted id executionID nodeID nodeType ∈ es

/-- The run has published such events since it had published `base`. -/
def Inside (S : Surroundings) (k : ℕ) (base : List BusEvent) (executionID : String) (s : World) :
    Prop :=
  s.execution.id = executionID ∧ k < s.tick ∧
    ∃ es, s.published = base ++ es ∧ (∀ e ∈ es, Inner S k executionID e) ∧
      EndsStarted executionID es

variable {s : World}

theorem Inside.publish (h : Inside S k base executionID s) {event : BusEvent}
    (hevent : Inner S k executionID event)
    (hstarted : ∀ id status, event = .nodeExecutionCompleted id status →
      ∃ nodeID nodeType, .nodeExecutionStarted id executionID nodeID nodeType ∈
        s.published.drop base.length) : Inside S k base executionID (World.publish event s) := by
  obtain ⟨hid, htick, es, hes, hinner, hends⟩ := h
  refine ⟨hid, htick.trans (Nat.lt_succ_self _), es ++ [event], ?_, ?_, ?_⟩
  · rw [World.publish, hes, append_assoc]
  · intro e he
    rcases mem_append.mp he with he | he
    · exact hinner e he
    · rw [mem_singleton.mp he]
      exact hevent
  · intro id status he
    rcases mem_append.mp he with he | he
    · obtain ⟨nodeID, nodeType, hstart⟩ := hends id status he
      exact ⟨nodeID, nodeType, mem_append_left _ hstart⟩
    · obtain ⟨nodeID, nodeType, hstart⟩ := hstarted id status (mem_singleton.mp he).symm
      rw [hes, drop_left] at hstart
      exact ⟨nodeID, nodeType, mem_append_left _ hstart⟩

theorem Inside.frame {s s' : World} (h : Inside S k base executionID s)
    (hexecution : s'.execution.id = s.execution.id) (hpublished : s'.published = s.published)
    (htick : s.tick ≤ s'.tick) : Inside S k base executionID s' := by
  obtain ⟨hid, hk, es, hes, hrest⟩ := h
  exact ⟨hexecution.trans hid, hk.trans_le htick, es, hpublished.trans hes, hrest⟩

theorem Inside.transition (h : Inside S k base executionID s) (event : ExecutionEvent)
    (metadata : Option Data) :
    Inside S k base executionID (World.transition S event metadata s).2 := by
  unfold World.transition
  dsimp only
  split
  · exact h
  rename_i m _
  have hticked : Inside S k base executionID { s with machine := m, tick := s.tick + 3 } :=
    h.frame rfl rfl (Nat.le_add_right _ _)
  exact hticked.publish trivial (fun _ _ heq => nomatch heq)

theorem executeNodeByType_world (node : Node) (s : World) :
    (World.executeNodeByType S node s).2 = s ∨
      ∃ requestID, (World.executeNodeByType S node s).2 =
        World.publish (.nodeExecuteRequest s.execution.id requestID node.id node.type s.vars)
          { s with tick := s.tick + 1 } := by
  unfold World.executeNodeByType
  split_ifs
  case neg =>
    refine .inr ⟨S.uuid s.tick, ?_⟩
    unfold World.sendToExecutorService
    dsimp only
    split
    all_goals rfl
  all_goals exact .inl rfl

theorem Inside.executeNodeByType (h : Inside S k base executionID s) (node : Node) :
    Inside S k base executionID (World.executeNodeByType S node s).2 := by
  rcases executeNodeByType_world (S := S) node s with heq | ⟨requestID, heq⟩
  · rw [heq]
    exact h
  rw [heq]
  have hticked : Inside S k base executionID { s with tick := s.tick + 1 } :=
    h.frame rfl rfl (Nat.le_succ _)
  exact hticked.publish trivial (fun _ _ heq => nomatch heq)

theorem mem_published_executeNodeByType {n : ℕ} {event : BusEvent} (h : event ∈ s.published.drop n)
    (node : Node) : event ∈ (World.executeNodeByType S node s).2.published.drop n := by
  rcases executeNodeByType_world (S := S) node s with heq | ⟨requestID, heq⟩
  · rw [heq]
    exact h
  · rw [heq, World.publish, drop_append]
    exact mem_append_left _ h

theorem Inside.finishNode (h : Inside S k base executionID s) (n : NodeExecution)
    (hid : ∃ t, k < t ∧ n.id = S.uuid t)
    (hstarted : ∃ nodeID nodeType, .nodeExecutionStarted n.id executionID nodeID nodeType ∈
      s.published.drop base.length) : Inside S k base executionID (World.finishNode S n s) := by
  unfold World.finishNode World.updateNodeExecution
  refine Inside.publish ?_ hid ?_
  · split_ifs
    all_goals exact h.frame rfl rfl (Nat.le_succ _)
  intro id status heq
  obtain ⟨rfl, -⟩ := BusEvent.nodeExecutionCompleted.inj heq
  split_ifs
  all_goals exact hstarted

theorem Inside.begun (h : Inside S k base executionID s) (nodeID : String) (node : Node) :
    Inside S k base executionID (World.begun S nodeID node s) := by
  refine Inside.publish ?_ ⟨h.1, s.tick, h.2.1, rfl⟩ (fun _ _ heq => nomatch heq)
  exact h.frame rfl rfl ((Nat.le_succ _).trans (Nat.le_succ _))

/-- A node publishes inner events, and its end only after its start. -/
theorem Inside.executeNode (w : Workflow) (fuel : ℕ) (nodeID : String) {r : Option String × World}
    (hr : World.executeNode S w fuel nodeID s = some r) (h : Inside S k base executionID s) :
    Inside S k base executionID r.2 := by
  induction fuel generalizing s with
  | zero => cases hr
  | succ fuel ih =>
    rcases World.executeNode_cases hr with ⟨tick, htick, hstay⟩ | ⟨node, s₂, htype, hend⟩
    · rw [hstay]
      exact h.frame rfl rfl htick
    have h₁ := h.begun nodeID node
    have h₂ : Inside S k base executionID { s₂ with tick := s₂.tick + 1 } :=
      (htype ▸ h₁.executeNodeByType node).frame rfl rfl (Nat.le_succ _)
    rcases hend with hretry | ⟨n, vars, hid, hfinish⟩
    · exact ih hretry h₂
    rw [hfinish]
    have h₃ : Inside S k base executionID { s₂ with tick := s₂.tick + 1, vars := vars } :=
      h₂.frame rfl rfl le_rfl
    refine h₃.finishNode n ⟨s.tick, h.2.1, hid⟩ ?_
    refine ⟨nodeID, node.type, ?_⟩
    -- its start was published when the attempt began
    rw [← htype]
    apply mem_published_executeNodeByType
    obtain ⟨hexecution, -, es, hes, -⟩ := h
    rw [World.begun, World.publish, hes, append_assoc, drop_left, hid, ← hexecution]
    exact mem_append_right _ mem_cons_self

theorem Inside.executeNodes (h : Inside S k base executionID s) (w : Workflow) (fuel : ℕ)
    {r : Option String × World} (hr : World.executeNodes S w fuel s = some r) :
    Inside S k base executionID r.2 := by
  have hfinal : Inside S k base executionID
      (LoopState.run (World.nodeEnv S w fuel) w s fuel).world :=
    LoopState.run_world (World.nodeEnv S w fuel) w
      (fun _ hs => hs.frame rfl rfl (Nat.le_succ _))
      (fun id _ _ hcall hs => Inside.executeNode w fuel id hcall hs) h fuel
  unfold World.executeNodes at hr
  dsimp only at hr
  split at hr
  · cases hr
    exact hfinal
  · cases hr
  · cases hr

def Last (executionID : String) : BusEvent → Prop
  | .executionFailed id _ | .executionCompleted id _ _ => id = executionID
  | _ => False

def Ended (S : Surroundings) (k : ℕ) (base : List BusEvent) (executionID : String) (s : World) :
    Prop :=
  ∃ es last, s.published = base ++ es ++ [last] ∧ (∀ e ∈ es, Inner S k executionID e) ∧
    EndsStarted executionID es ∧ Last executionID last

theorem Inside.update (h : Inside S k base executionID s) (status : ExecutionStatus) (err : String)
    (finishedAt : ℤ) : Inside S k base executionID (World.update S
      { s with execution := World.finished status err finishedAt s.execution }) := by
  unfold World.update
  split_ifs
  all_goals exact h.frame rfl rfl le_rfl

theorem Inside.ended (h : Inside S k base executionID s) {last : BusEvent}
    (hlast : s.execution.id = executionID → Last executionID last) :
    Ended S k base executionID (World.publish last s) := by
  obtain ⟨hid, -, es, hes, hinner, hends⟩ := h
  exact ⟨es, last, by rw [World.publish, hes], hinner, hends, hlast hid⟩

theorem Inside.handleExecutionError (h : Inside S k base executionID s) (err : String) :
    Ended S k base executionID (World.handleExecutionError S err s) := by
  refine Inside.ended ?_ (fun hid => hid)
  apply Inside.update
  apply Inside.transition
  exact h.frame rfl rfl (Nat.le_succ _)

theorem Inside.completeExecution (h : Inside S k base executionID s) (w : Workflow) :
    Ended S k base executionID (World.completeExecution S w s) := by
  refine Inside.ended ?_ (fun hid => hid)
  apply Inside.update
  exact h.transition .complete none

theorem Inside.execute {w : Workflow} {fuel : ℕ} {s s' : World}
    (h : Inside S k base executionID s) (hrun : World.execute S w fuel s = some s') :
    Ended S k base executionID s' := by
  have hstart : Inside S k base executionID (World.transition S .start none s).2 :=
    h.transition .start none
  unfold World.execute at hrun
  generalize World.transition S .start none s = r at hrun hstart
  obtain ⟨err, s₁⟩ := r
  cases err with
  | some err =>
    cases hrun
    exact hstart.handleExecutionError err
  | none =>
    dsimp only at hrun
    split at hrun
    · cases hrun
    · rename_i hnodes
      cases hrun
      exact (hstart.executeNodes w fuel hnodes).handleExecutionError _
    · rename_i hnodes
      cases hrun
      exact (hstart.executeNodes w fuel hnodes).completeExecution w

end Published

/-! ## What the subscribers make of it -/

theorem count_recordNodeExecution (c : Collector) (nodeID nodeType : String) (duration : ℤ)
    (success : Bool) (now : ℤ) (id : String) :
    (c.recordNodeExecution nodeID nodeType duration success now).count id =
      c.count id + if id = nodeID then 1 else 0 := by
  simp only [Collector.recordNodeExecution, Metrics.updateNodeMetrics, Collector.count,
    GoMap.lookup_insert]
  split_ifs with hid
  · subst hid
    rw [GoMap.get]
    cases c.nodeMetrics.lookup id with
    | none => rfl
    | some m => rfl
  · rw [add_zero]

theorem count_handle (c : Collector) (d : Delivery) (nodeID : String) :
    (c.handle d.now d.event).count nodeID =
      c.count nodeID + if d.completes ∧ nodeID = "" then 1 else 0 := by
  rcases d with ⟨event, nanos, now⟩
  cases event with
  | nodeExecutionCompleted id status =>
    have hcompletes : (⟨.nodeExecutionCompleted id status, nanos, now⟩ : Delivery).completes :=
      rfl
    simp only [Collector.handle, count_recordNodeExecution, BusEvent.str_nodeId_completed,
      hcompletes, true_and]
  | _ => exact (add_zero _).symm

theorem count_collector (ds : List Delivery) (nodeID : String) : (collector ds).count nodeID =
      if nodeID = "" then (ds.countP Delivery.completes : ℤ) else 0 := by
  induction ds using reverseRecOn with
  | nil => simp [collector, Collector.count]
  | append_singleton ds d ih =>
    rw [collector, foldl_append, ← collector, foldl_cons, foldl_nil, count_handle,
      ih, countP_append, countP_singleton]
    by_cases hid : nodeID = ""
    · simp [hid]
    · simp [hid]

theorem executionID_entry (text : Option Value → String) {d : Delivery} {id : String}
    {status : NodeExecutionStatus} (hd : d.event = .nodeExecutionCompleted id status) :
    ∃ entry ∈ d.entry text, entry.executionID = id := by
  rw [Delivery.entry, hd]
  unfold entryOf
  dsimp only
  split_ifs
  · exact ⟨_, rfl, rfl⟩
  · exact ⟨_, rfl, rfl⟩

/-! ## The spans of nodes -/

section Spans

variable {executionID : String}

theorem tracer_eq (enabled : Bool) (ds : List Delivery) :
    tracer enabled ds = (ds.map Delivery.event).foldl Tracer.handle { enabled := enabled } := by
  rw [foldl_map]
  rfl

theorem handle_last (t : Tracer) {event : BusEvent} (hlast : Last executionID event) :
    ∃ err, t.handle event = t.endSpan executionID err executionID := by
  cases event with
  | executionFailed id error =>
    obtain rfl : id = executionID := hlast
    exact ⟨_, rfl⟩
  | executionCompleted id workflowID duration =>
    obtain rfl : id = executionID := hlast
    exact ⟨_, rfl⟩
  | _ => exact hlast.elim

theorem idle_spans (workflowID : String) (enabled : Bool) {es : List BusEvent} {last : BusEvent}
    (hinert : ∀ e ∈ es, ∀ t : Tracer, t.handle e = t) (hlast : Last executionID last) :
    let t := (BusEvent.executionStarted executionID workflowID :: (es ++ [last])).foldl
      Tracer.handle { enabled := enabled }
    (∀ span ∈ t.started, ∃ x ∈ t.ended, x.span = span) ∧
      ∀ x ∈ t.ended, x.span.startedFor = x.endedFor := by
  have hmiddle : ∀ t : Tracer, es.foldl Tracer.handle t = t := by
    intro t
    refine foldlRecOn (motive := fun t' => t' = t) es Tracer.handle rfl ?_
    intro t' ht e he
    exact (hinert e he t').trans ht
  dsimp only
  rw [foldl_cons, foldl_append, hmiddle, foldl_cons, foldl_nil]
  obtain ⟨err, herr⟩ := handle_last
    (Tracer.handle { enabled := enabled } (.executionStarted executionID workflowID)) hlast
  rw [herr]
  cases enabled with
  | false => simp [Tracer.handle, Tracer.startExecutionSpan, Tracer.endSpan]
  | true =>
    simp only [Tracer.handle, Tracer.startExecutionSpan, Tracer.endSpan, BusEvent.aggregateID,
      Bool.not_true, Bool.false_eq_true, if_false, AList.lookup_insert]
    simp

end Spans

/-! ## Whole runs -/

section Run

variable {S : Surroundings} {workflowID : String} {inputData : Option Data} {st : Store}
  {w : Workflow} {s s' : World} {fuel : ℕ}

/-- The events of an execution, in the order they are published. -/
theorem published_run (hstart : executeWorkflow S workflowID inputData st = .ok (w, s))
    (hrun : World.execute S w fuel s = some s') : ∃ es last, s'.published.drop st.published.length =
        .executionStarted s.execution.id workflowID :: (es ++ [last]) ∧
      (∀ e ∈ es, Inner S (st.tick + 1) s.execution.id e) ∧ EndsStarted s.execution.id es ∧
      Last s.execution.id last := by
  obtain ⟨-, -, -, -, -, hpublished, htick⟩ := executeWorkflow_spec hstart
  have hinside : Inside S (st.tick + 1) s.published s.execution.id s :=
    ⟨rfl, by omega, [], (append_nil _).symm, by simp, by simp [EndsStarted]⟩
  obtain ⟨es, last, hes, hinner, hends, hlast⟩ := hinside.execute hrun
  refine ⟨es, last, ?_, hinner, hends, hlast⟩
  rw [hes, hpublished, append_assoc, append_assoc, drop_left]
  rfl

theorem execution_id (hstart : executeWorkflow S workflowID inputData st = .ok (w, s)) :
    s.execution.id = S.uuid (st.tick + 1) := by
  obtain ⟨-, -, hexecution, -⟩ := executeWorkflow_spec hstart
  rw [hexecution]
  rfl

theorem completes_iff (d : Delivery) :
    d.completes = true ↔ ∃ id status, d.event = .nodeExecutionCompleted id status := by
  rcases d with ⟨event, nanos, now⟩
  cases event <;> simp [Delivery.completes]

theorem not_completes_of_filed {D : Type} {json : Codec ExecutionLog D}
    {text : Option Value → String} {executionID : String} {ds : List Delivery}
    (hfiled : ∀ d ∈ ds, d.completes → ∀ entry ∈ d.entry text,
      entry ∈ (logger json text ds).of executionID)
    (hids : ∀ d ∈ ds, ∀ id status, d.event = .nodeExecutionCompleted id status →
      id ≠ executionID) : ∀ d ∈ ds, d.completes = false := by
  intro d hd
  refine Bool.eq_false_iff.mpr (fun hcompletes => ?_)
  obtain ⟨id, status, hevent⟩ := (completes_iff d).mp hcompletes
  obtain ⟨entry, hentry, hentryID⟩ := executionID_entry text hevent
  have hof := (mem_filter.mp (hfiled d hd hcompletes entry hentry)).2
  simp only [hentryID, decide_eq_true_eq] at hof
  exact hids d hd id status hevent hof

/-- What the tracer, the collector and the logger say about a run is right exactly if the run
starts no node execution. -/
theorem reports_right_iff {D : Type} (json : Codec ExecutionLog D) (text : Option Value → String)
    (enabled : Bool) (S : Surroundings) (huuid : Function.Injective S.uuid) (workflowID : String)
    (inputData : Option Data) (st : Store) (w : Workflow) (s s' : World) (fuel : ℕ)
    (hstart : executeWorkflow S workflowID inputData st = .ok (w, s))
    (hrun : World.execute S w fuel s = some s') (ds : List Delivery)
    (hds : ds.map Delivery.event = s'.published.drop st.published.length) :
    Consistent json text enabled s.execution.id ds ↔ Idle ds := by
  have hid := execution_id hstart
  obtain ⟨es, last, hes, hinner, hends, hlast⟩ := published_run hstart hrun
  rw [hes] at hds
  -- the ends of node executions are among the inner events
  have hcompleted : ∀ d ∈ ds, ∀ id status, d.event = .nodeExecutionCompleted id status →
      .nodeExecutionCompleted id status ∈ es := by
    intro d hd id status hevent
    have hmem : d.event ∈ ds.map Delivery.event := mem_map_of_mem hd
    rw [hds, hevent] at hmem
    simp only [mem_cons, mem_append, not_mem_nil, or_false, reduceCtorEq, false_or] at hmem
    rcases hmem with hmem | hmem
    · exact hmem
    · rw [← hmem] at hlast
      exact hlast.elim
  constructor
  · intro h d hd
    have hnone : ∀ d ∈ ds, d.completes = false := by
      apply not_completes_of_filed h.filed
      intro d hd id status hevent heq
      obtain ⟨t, ht, htid⟩ := hinner _ (hcompleted d hd id status hevent)
      have hsame : t = st.tick + 1 := huuid (htid.symm.trans (heq.trans hid))
      omega
    -- so nothing is counted, and nothing was started
    refine Option.eq_none_iff_forall_ne_some.mpr (fun nodeID hnode => ?_)
    have hcount := h.counted nodeID
    rw [count_collector, countP_eq_zero.mpr (by simpa using hnone)] at hcount
    have hzero : ds.countP (·.startedNode = some nodeID) = 0 := by simpa using hcount.symm
    exact countP_eq_zero.mp hzero d hd (decide_eq_true hnode)
  · intro hidle
    have hstarted : ∀ e ∈ es, ∀ id execution nodeID nodeType,
        e ≠ .nodeExecutionStarted id execution nodeID nodeType := by
      intro e he id execution nodeID nodeType heq
      have hmem : e ∈ ds.map Delivery.event := by
        rw [hds]
        exact mem_cons_of_mem _ (mem_append_left _ he)
      obtain ⟨d, hd, hde⟩ := mem_map.mp hmem
      have hnode := hidle d hd
      rw [Delivery.startedNode, hde, heq] at hnode
      cases hnode
    have hnone : ∀ d ∈ ds, d.completes = false := by
      intro d hd
      refine Bool.eq_false_iff.mpr (fun hcompletes => ?_)
      obtain ⟨id, status, hevent⟩ := (completes_iff d).mp hcompletes
      obtain ⟨nodeID, nodeType, hstart⟩ := hends id status (hcompleted d hd id status hevent)
      exact hstarted _ hstart _ _ _ _ rfl
    have hinert : ∀ e ∈ es, ∀ t : Tracer, t.handle e = t := by
      intro e he t
      have hkind := hinner e he
      cases e with
      | nodeExecutionStarted _ _ _ _ => exact absurd rfl (hstarted _ he _ _ _ _)
      | nodeExecutionCompleted id status =>
        obtain ⟨nodeID, nodeType, hstart⟩ := hends id status he
        exact absurd rfl (hstarted _ hstart _ _ _ _)
      | stateChanged _ _ _ _ _ _ => rfl
      | nodeExecuteRequest _ _ _ _ _ => rfl
      | _ => exact hkind.elim
    obtain ⟨hclosed, hown⟩ := idle_spans workflowID enabled hinert hlast
    rw [← hds, ← tracer_eq] at hclosed hown
    refine ⟨hclosed, hown, ?_, ?_⟩
    · intro nodeID
      rw [count_collector, countP_eq_zero.mpr (by simpa using hnone),
        countP_eq_zero.mpr (fun d hd => by simp [hidle d hd])]
      simp
    · intro d hd hcompletes
      rw [hnone d hd] at hcompletes
      cases hcompletes

end Run

/-! ## Two runs -/

def disabledOnly : Workflow where
  nodes := [{ id := "t", type := nodeTypeTrigger, disabled := true }]
  connections := []
  isActive := true

def withDisabled : Surroundings := { neverDone with workflows := fun _ => some disabledOnly }

theorem uuid_injective : Function.Injective neverDone.uuid := by
  intro m n heq
  have hlength := congrArg String.length heq
  simpa [neverDone] using hlength

theorem consistent_disabledOnly :
    ∃ w s s', executeWorkflow withDisabled "wf" (some ∅) emptyStore = .ok (w, s) ∧
      World.execute withDisabled w 3 s = some s' ∧
      Consistent (Codec.plain ExecutionLog) (fun _ => "") true s.execution.id
        (s'.published.map (fun event => { event := event })) := by
  refine ⟨_, _, _, rfl, rfl, ?_⟩
  refine (reports_right_iff (Codec.plain ExecutionLog) (fun _ => "") true withDisabled
    uuid_injective "wf" (some ∅) emptyStore _ _ _ 3 rfl rfl _ rfl).mpr ?_
  decide +kernel

/-- One trigger node `t` runs: its span is left open, it is counted under an empty ID, and its end
is filed under the node execution `uuuuuuuuu`. -/
theorem triggerOnly_inconsistent :
    ∃ w s s', executeWorkflow neverDone "wf" (some ∅) emptyStore = .ok (w, s) ∧
      World.execute neverDone w 3 s = some s' ∧
      let ds : List Delivery := s'.published.map (fun event => { event := event })
      let log := (logger (Codec.plain ExecutionLog) (fun _ => "") ds).logged
      (s.execution.id, (tracer true ds).spans.keys, (collector ds).count "t",
          (collector ds).count "",
          log.map (fun (entry : ExecutionLog) => (entry.executionID, entry.message))) =
        ("u", ["u:t"], 0, 1,
          [("u", "Execution started"), ("u", "Node t started"), ("uuuuuuuuu", "Node  completed"),
            ("u", "Execution completed")]) := by
  refine ⟨_, _, _, rfl, rfl, ?_⟩
  decide +kernel

end Telemetry

end LinkFlow
