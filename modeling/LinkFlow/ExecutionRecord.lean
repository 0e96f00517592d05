/-
What a workflow run leaves in its own execution record.

`ExecuteWorkflow` creates the record with status `running`. Nothing a run does
before its last step touches it again (`executeNode_own`, `executeNodes_own`), and
every way out of `Execute` ends in the one `Update` of `handleExecutionError` or
`completeExecution`, made with the context of the run. Its error is dropped.
-/
import LinkFlow.Execution

set_option autoImplicit false

namespace LinkFlow

namespace World

variable {S : Surroundings} {ex : GoMap String WorkflowExecution} {e : WorkflowExecution}

/-! ## A run does not touch its record before the end -/

/-- The execution table is `ex`, and the run's own copy of its record is `e`. -/
def Own (ex : GoMap String WorkflowExecution) (e : WorkflowExecution) (s : World) : Prop :=
  s.executions = ex ∧ s.execution = e

variable {s : World} {r : Option String × World}

theorem transition_own (event : ExecutionEvent) (metadata : Option Data) (h : Own ex e s) :
    Own ex e (transition S event metadata s).2 := by
  unfold transition
  dsimp only
  split
  · exact h
  · exact h

theorem sendToExecutorService_own (node : Node) (h : Own ex e s) :
    Own ex e (sendToExecutorService S node s).2 := by
  unfold sendToExecutorService
  dsimp only
  split
  all_goals exact h

theorem executeNodeByType_own {node : Node} {r : Except String (Option Data) × World}
    (hr : executeNodeByType S node s = r) (h : Own ex e s) : Own ex e r.2 := by
  subst hr
  unfold executeNodeByType
  split_ifs
  all_goals first | exact h | exact sendToExecutorService_own node h

theorem finishNode_own (n : NodeExecution) (h : Own ex e s) : Own ex e (finishNode S n s) := by
  unfold finishNode updateNodeExecution
  split_ifs
  · exact h
  · exact h

/-- The world in which an attempt at a node starts: its record is stored and its start
published. -/
def begun (S : Surroundings) (nodeID : String) (node : Node) (s : World) : World :=
  publish (.nodeExecutionStarted (newNodeExecution S nodeID s).id s.execution.id nodeID node.type)
    { s with
      nodeExecutions := s.nodeExecutions.insert (newNodeExecution S nodeID s).id
        (newNodeExecution S nodeID s)
      tick := s.tick + 1 + 1 }

/-- An attempt at a node ends in a retry, in a panic, or with its record saved and the end
published. -/
theorem executeNode_attempt {w : Workflow} (fuel : ℕ) {nodeID : String} {node : Node}
    (hfind : w.nodes.find? (fun n => n.id = nodeID) = some node) (hon : ¬ node.disabled = true)
    (hdone : ¬ S.done (s.tick + 1) = true) {result : Except String (Option Data)} {s₂ : World}
    (htype : executeNodeByType S node (begun S nodeID node s) = (result, s₂)) :
    ((∃ err, result = .error err) ∧ 0 < node.retryCount ∧
      executeNode S w (fuel + 1) nodeID s =
        executeNode S w fuel nodeID { s₂ with tick := s₂.tick + 1 }) ∨
    ((∃ output, result = .ok output ∧ mergeOutput output s₂.vars = none) ∧
      executeNode S w (fuel + 1) nodeID s = none) ∨
    ((∀ err, result = .error err → node.retryCount ≤ 0) ∧
      (∀ output, result = .ok output → mergeOutput output s₂.vars ≠ none) ∧
      ∃ err n vars, n.id = S.uuid s.tick ∧ (n.status = .completed ∨ n.status = .failed) ∧
        executeNode S w (fuel + 1) nodeID s =
          some (err, finishNode S n { s₂ with tick := s₂.tick + 1, vars := vars })) := by
  rw [executeNode, hfind]
  dsimp only [createNodeExecution]
  rw [if_neg hon, if_neg hdone]
  dsimp only
  rw [← begun, htype]
  cases result with
  | error err =>
    dsimp only
    split_ifs with hretry
    · exact .inl ⟨⟨err, rfl⟩, hretry.1, rfl⟩
    have hnone : node.retryCount ≤ 0 := not_lt.mp (fun hpos => hretry ⟨hpos, hpos⟩)
    refine .inr (.inr ⟨fun _ _ => hnone, ?_, some err, _, _, rfl, .inr rfl, rfl⟩)
    intro _ h
    cases h
  | ok output =>
    dsimp only
    cases hmerge : mergeOutput output s₂.vars with
    | none => exact .inr (.inl ⟨⟨output, rfl, hmerge⟩, rfl⟩)
    | some vars =>
      refine .inr (.inr ⟨?_, ?_, none, _, vars, rfl, .inl rfl, rfl⟩)
      · intro _ h
        cases h
      · intro _ h
        rw [← Except.ok.inj h, hmerge]
        exact Option.some_ne_none _

theorem executeNode_idle {w : Workflow} (fuel : ℕ) {nodeID : String}
    (h : ∀ node, w.nodes.find? (fun n => n.id = nodeID) = some node →
      node.disabled = true ∨ S.done (s.tick + 1) = true) : ∃ err tick, s.tick ≤ tick ∧
      executeNode S w (fuel + 1) nodeID s = some (err, { s with tick := tick }) := by
  rw [executeNode]
  cases hfind : w.nodes.find? (fun n => n.id = nodeID) with
  | none => exact ⟨_, s.tick, le_rfl, rfl⟩
  | some node =>
    dsimp only [createNodeExecution]
    by_cases hon : node.disabled = true
    · rw [if_pos hon]
      exact ⟨_, s.tick, le_rfl, rfl⟩
    · rw [if_neg hon, if_pos ((h node hfind).resolve_left hon)]
      exact ⟨_, s.tick + 1 + 1, by omega, rfl⟩

/-- The ways a call of `executeNode` returns: without an attempt, after a retry, or with the end
of its attempt. -/
theorem executeNode_cases {w : Workflow} {fuel : ℕ} {nodeID : String}
    (hr : executeNode S w (fuel + 1) nodeID s = some r) :
    (∃ tick, s.tick ≤ tick ∧ r.2 = { s with tick := tick }) ∨
      ∃ node s₂, (executeNodeByType S node (begun S nodeID node s)).2 = s₂ ∧
        (executeNode S w fuel nodeID { s₂ with tick := s₂.tick + 1 } = some r ∨
          ∃ n vars, n.id = S.uuid s.tick ∧
            r.2 = finishNode S n { s₂ with tick := s₂.tick + 1, vars := vars }) := by
  by_cases hidle : ∀ node, w.nodes.find? (fun n => n.id = nodeID) = some node →
      node.disabled = true ∨ S.done (s.tick + 1) = true
  · obtain ⟨err, tick, htick, heq⟩ := executeNode_idle fuel hidle
    obtain rfl := Option.some.inj (heq.symm.trans hr)
    exact .inl ⟨tick, htick, rfl⟩
  · push Not at hidle
    obtain ⟨node, hfind, hon, hdone⟩ := hidle
    refine .inr ⟨node, _, rfl, ?_⟩
    obtain ⟨-, -, heq⟩ | ⟨-, heq⟩ | ⟨-, -, err, n, vars, hid, -, heq⟩ :=
      executeNode_attempt fuel hfind hon hdone rfl
    · exact .inl (heq.symm.trans hr)
    · cases heq.symm.trans hr
    · obtain rfl := Option.some.inj (heq.symm.trans hr)
      exact .inr ⟨n, vars, hid, rfl⟩

/-- Running a node changes no row of another execution. -/
theorem executeNode_own (w : Workflow) (fuel : ℕ) (nodeID : String)
    (hr : executeNode S w fuel nodeID s = some r) (h : Own ex e s) : Own ex e r.2 := by
  induction fuel generalizing s with
  | zero => cases hr
  | succ fuel ih =>
    rcases executeNode_cases hr with ⟨tick, -, hstay⟩ | ⟨node, s₂, htype, hend⟩
    · rw [hstay]
      exact h
    have h₁ : Own ex e (begun S nodeID node s) := h
    have h₂ : Own ex e s₂ := htype ▸ executeNodeByType_own rfl h₁
    rcases hend with hretry | ⟨n, vars, -, hfinish⟩
    · exact ih hretry h₂
    · rw [hfinish]
      exact finishNode_own n h₂

theorem executeNodes_own (w : Workflow) (fuel : ℕ) (hr : executeNodes S w fuel s = some r)
    (h : Own ex e s) : Own ex e r.2 := by
  have hfinal : Own ex e (LoopState.run (nodeEnv S w fuel) w s fuel).world :=
    LoopState.run_world (nodeEnv S w fuel) w (fun _ hs => hs)
      (fun id _ _ hcall hs => executeNode_own w fuel id hcall hs) h fuel
  unfold executeNodes at hr
  dsimp only at hr
  split at hr
  · cases hr
    exact hfinal
  · cases hr
  · cases hr

/-! ## The last write -/

/-- The record `id` is in the table with a final status and a finish time. -/
def TerminalRow (id : String) (s : World) : Prop :=
  ∃ row, s.executions.lookup id = some row ∧
    (row.status = .completed ∨ row.status = .failed ∨ row.status = .cancelled) ∧
    row.finishedAt ≠ none

theorem not_terminalRow_of_running {id : String}
    (h : (s.executions.lookup id).map WorkflowExecution.status = some .running) :
    ¬ TerminalRow id s := by
  rintro ⟨row, hrow, hfinal, -⟩
  rw [hrow] at h
  obtain hstatus : row.status = .running := Option.some.inj h
  rw [hstatus] at hfinal
  simp at hfinal

/-- The record `e` is in the table under its ID and is not finished. -/
def Unfinished (ex : GoMap String WorkflowExecution) (e : WorkflowExecution) : Prop :=
  ex.lookup e.id = some e ∧ e.status = .running ∧ e.finishedAt = none

/-- Finishing the record and updating it: the table has the final status unless the
context is done, and then it has the record it had. -/
theorem update_finished (h : Own ex e s) (hrow : Unfinished ex e) {status : ExecutionStatus}
    (hstatus : status = .completed ∨ status = .failed) (err : String) (t : ℤ) :
    TerminalRow e.id (update S { s with execution := finished status err t s.execution }) ↔
      S.doneAtEnd = false := by
  obtain ⟨rfl, rfl⟩ := h
  obtain ⟨hlookup, hrunning, -⟩ := hrow
  unfold update
  cases hend : S.doneAtEnd with
  | true =>
    rw [if_pos rfl]
    refine iff_of_false (not_terminalRow_of_running ?_) (by simp)
    dsimp only
    rw [hlookup, Option.map_some, hrunning]
  | false =>
    rw [if_neg (by simp)]
    refine iff_of_true ?_ rfl
    refine ⟨_, AList.lookup_insert _, ?_, by simp [finished]⟩
    dsimp only [finished]
    rcases hstatus with rfl | rfl
    · exact .inl rfl
    · exact .inr (.inl rfl)

theorem terminalRow_publish (id : String) (ev : BusEvent) (s : World) :
    TerminalRow id (publish ev s) ↔ TerminalRow id s := Iff.rfl

theorem handleExecutionError_row (h : Own ex e s) (hrow : Unfinished ex e) (err : String) :
    TerminalRow e.id (handleExecutionError S err s) ↔ S.doneAtEnd = false := by
  unfold handleExecutionError
  dsimp only
  rw [terminalRow_publish]
  apply update_finished _ hrow (.inr rfl)
  apply transition_own
  exact h

theorem completeExecution_row (w : Workflow) (h : Own ex e s) (hrow : Unfinished ex e) :
    TerminalRow e.id (completeExecution S w s) ↔ S.doneAtEnd = false := by
  unfold completeExecution
  dsimp only
  rw [terminalRow_publish]
  apply update_finished _ hrow (.inl rfl)
  apply transition_own
  exact h

/-- An execution ends with a terminal row unless its context is done at the end. -/
theorem execute_row (w : Workflow) (fuel : ℕ) {s s' : World} (h : Own ex e s)
    (hrow : Unfinished ex e) (hrun : execute S w fuel s = some s') :
    TerminalRow e.id s' ↔ S.doneAtEnd = false := by
  have hstart : Own ex e (transition S .start none s).2 := transition_own .start none h
  unfold execute at hrun
  generalize transition S .start none s = r at hrun hstart
  obtain ⟨err, s₁⟩ := r
  cases err with
  | some err =>
    cases hrun
    exact handleExecutionError_row hstart hrow err
  | none =>
    dsimp only at hrun
    split at hrun
    · cases hrun
    · rename_i hnodes
      cases hrun
      exact handleExecutionError_row (executeNodes_own w fuel hnodes hstart) hrow _
    · rename_i hnodes
      cases hrun
      exact completeExecution_row w (executeNodes_own w fuel hnodes hstart) hrow

end World

/-! ## The run `ExecuteWorkflow` starts -/

section Start

variable {S : Surroundings} {workflowID : String} {inputData : Option Data} {st : Store}
  {w : Workflow} {s : World}

/-- A run is started for a stored, active workflow, with a new record in the table
and a new machine. -/
theorem executeWorkflow_spec (h : executeWorkflow S workflowID inputData st = .ok (w, s)) :
    S.workflows workflowID = some w ∧ w.isActive = true ∧
      s.execution = newExecution S w workflowID inputData (st.tick + 1) ∧
      s.executions = st.executions.insert s.execution.id s.execution ∧
      s.machine = newExecutionStateMachine s.execution.id workflowID (S.now (st.tick + 3)) ∧
      s.published = st.published ++ [.executionStarted s.execution.id workflowID] ∧
      s.tick = st.tick + 4 := by
  unfold executeWorkflow at h
  by_cases hget : S.done st.tick = true
  · rw [if_pos hget] at h
    cases h
  rw [if_neg hget] at h
  cases hw : S.workflows workflowID with
  | none =>
    rw [hw] at h
    cases h
  | some w' =>
    rw [hw] at h
    dsimp only at h
    split_ifs at h with hactive
    obtain ⟨rfl, rfl⟩ := Prod.mk.inj (Except.ok.inj h)
    exact ⟨rfl, by simpa using hactive, rfl, rfl, rfl, rfl, rfl⟩

theorem executeWorkflow_row (h : executeWorkflow S workflowID inputData st = .ok (w, s)) :
    World.Unfinished s.executions s.execution := by
  obtain ⟨-, -, hexec, htable, -⟩ := executeWorkflow_spec h
  refine ⟨?_, ?_, ?_⟩
  · rw [htable]
    exact AList.lookup_insert _
  · rw [hexec]
    rfl
  · rw [hexec]
    rfl

end Start

/-- **When a finished run is recorded as finished**: the persisted record has a final status and a
finish time exactly when the context was not done at the run's last write. -/
theorem execute_records_end_iff (S : Surroundings) (workflowID : String)
    (inputData : Option Data) (st : Store) (w : Workflow) (s s' : World) (fuel : ℕ)
    (hstart : executeWorkflow S workflowID inputData st = .ok (w, s))
    (hrun : World.execute S w fuel s = some s') :
    World.TerminalRow s.execution.id s' ↔ S.doneAtEnd = false :=
  World.execute_row w fuel ⟨rfl, rfl⟩ (executeWorkflow_row hstart) hrun

/-- A workflow of one trigger node. -/
def triggerOnly : Workflow where
  nodes := [{ id := "t", type := nodeTypeTrigger }]
  connections := []
  settings := { timeout := 30 }
  isActive := true

/-- Surroundings in which the context is done from the tick `d` on. -/
def doneFrom (d : ℕ) : Surroundings where
  done := fun n => d ≤ n
  doneAtEnd := true
  done_mono := fun m n hmn h => by simp only [decide_eq_true_eq] at *; omega
  done_end := fun _ _ => rfl
  ctxErr := "context canceled"
  now := fun n => n
  uuid := fun n => String.ofList (List.replicate n 'u')
  workflows := fun _ => some triggerOnly
  serves := fun _ => .timeout

/-- Surroundings in which it never is. -/
def neverDone : Surroundings where
  done := fun _ => false
  doneAtEnd := false
  done_mono := fun _ _ _ h => h
  done_end := fun _ h => h
  ctxErr := ""
  now := fun n => n
  uuid := fun n => String.ofList (List.replicate n 'u')
  workflows := fun _ => some triggerOnly
  serves := fun _ => .timeout

/-- Nothing has run yet. -/
def emptyStore : Store := ⟨0, ∅, ∅, []⟩

theorem triggerOnly_recorded :
    ∃ w s s', executeWorkflow neverDone "wf" (some ∅) emptyStore = .ok (w, s) ∧
      World.execute neverDone w 3 s = some s' ∧ World.TerminalRow s.execution.id s' := by
  refine ⟨_, _, _, rfl, rfl, ?_⟩
  exact (execute_records_end_iff neverDone "wf" (some ∅) emptyStore _ _ _ 3 rfl rfl).mpr rfl

/-- The context ends after the run has started: `Execute` returns, and the record in the
table still says `running`. -/
theorem cancelledRun_stays_running :
    ∃ w s s', executeWorkflow (doneFrom 8) "wf" (some ∅) emptyStore = .ok (w, s) ∧
      World.execute (doneFrom 8) w 3 s = some s' ∧ s'.execution.error = "execution cancelled" ∧
      (s'.executions.lookup s.execution.id).map (fun row => (row.status, row.finishedAt))
        = some (.running, none) ∧
      ¬ World.TerminalRow s.execution.id s' := by
  refine ⟨_, _, _, rfl, rfl, by decide, by decide, ?_⟩
  apply World.not_terminalRow_of_running
  decide

end LinkFlow
