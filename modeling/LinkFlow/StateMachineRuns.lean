/-
Runs of `ExecutionStateMachine`: any sequence of events sent to a new machine.

A call of `Transition` that returns an error has written nothing, so the machine
after a call is the one it returns, or the one before (`send`).

`log` is the history with the clock readings of the call that wrote each entry.
The source reads the clock again for `StartedAt`, `PausedAt` and `CompletedAt`, so
they are not the entry's `Timestamp` but the later reading `now` of the same call;
with that said, everything but the error is read off the log (`run_recorded`).

A failed machine may be started again. Nothing clears `CompletedAt` or `Error`
then, which is the one way out of agreement between the state and the record that
`ToWorkflowExecution` shows (`consistent_run_iff`).
-/
import LinkFlow.Execution
import LinkFlow.Lib.Runs

set_option autoImplicit false

namespace LinkFlow.ExecutionStateMachine

open List Option

/-! ## What the machine shows -/

def canTransition (event : ExecutionEvent) (m : ExecutionStateMachine) : Bool :=
  (validTransitions m.state event).isSome

def isTerminal (m : ExecutionStateMachine) : Bool :=
  match m.state with
  | .success | .failed | .cancelled | .timeout => true
  | _ => false

/-- `now` is the clock that `time.Since` reads. -/
def getDuration (now : ℤ) (m : ExecutionStateMachine) : ℤ :=
  match m.startedAt with
  | none => 0
  | some startedAt =>
    match m.completedAt with
    | some completedAt => completedAt - startedAt
    | none => now - startedAt

/-- The fields that `ToWorkflowExecution` sets. The status is the state's name, also one that the
executor never writes. A zero start time is `none`. -/
structure Projection where
  (id workflowID status : String)
  createdAt : ℤ
  (startedAt finishedAt : Option ℤ)
  executionTime : ℤ
  error : String
  data : Data
deriving DecidableEq

/-- `vars` are the variables of the machine's context, if it has one. -/
def toWorkflowExecution (vars : Option Data) (m : ExecutionStateMachine) : Projection where
  id := m.id
  workflowID := m.workflowID
  status := m.state.name
  createdAt := m.createdAt
  startedAt := m.startedAt
  finishedAt := m.completedAt
  executionTime :=
    match m.completedAt, m.startedAt with
    | some completedAt, some startedAt => milliseconds (completedAt - startedAt)
    | _, _ => 0
  error := (m.error.map ExecutionError.message).getD ""
  data := vars.getD ∅

/-! ## Runs -/

/-- One call of `Transition`. -/
structure Call where
  readings : Readings
  event : ExecutionEvent
  metadata : Option Data := none
deriving DecidableEq

/-- The machine after a call. -/
def send (m : ExecutionStateMachine) (c : Call) : ExecutionStateMachine :=
  match m.transition c.readings c.event c.metadata with
  | .ok m' => m'
  | .error _ => m

/-- The machine after a sequence of calls on a new one. -/
def run (id workflowID : String) (created : ℤ) (calls : List Call) : ExecutionStateMachine :=
  calls.foldl send (newExecutionStateMachine id workflowID created)

def entryOf (m : ExecutionStateMachine) (c : Call) : Option (StateTransition × Readings) :=
  (validTransitions m.state c.event).map fun newState =>
    (⟨m.state, newState, c.event, c.readings.entry, c.metadata⟩, c.readings)

/-- The entries of a run, in order. -/
def log (m : ExecutionStateMachine) : List Call → List (StateTransition × Readings)
  | [] => []
  | c :: cs => (entryOf m c).toList ++ log (send m c) cs

theorem log_append (m : ExecutionStateMachine) (cs ds : List Call) :
    log m (cs ++ ds) = log m cs ++ log (cs.foldl send m) ds := by
  induction cs generalizing m with
  | nil => rfl
  | cons c cs ih => rw [cons_append, log, log, ih, append_assoc, foldl_cons]

/-! ## One call -/

section fields

variable (t : Readings) (m : ExecutionStateMachine)

@[simp] theorem stamp_state (s : ExecutionState) : (stamp t m s).state = m.state := by
  cases s <;> simp only [stamp, apply_ite, ite_self]

@[simp] theorem stamp_history (s : ExecutionState) : (stamp t m s).history = m.history := by
  cases s <;> simp only [stamp, apply_ite, ite_self]

@[simp] theorem stamp_error (s : ExecutionState) : (stamp t m s).error = m.error := by
  cases s <;> simp only [stamp, apply_ite, ite_self]

theorem stamp_startedAt (s : ExecutionState) : (stamp t m s).startedAt =
      if s = .running then some (m.startedAt.getD t.now) else m.startedAt := by
  cases s with
  | running =>
    cases h : m.startedAt with
    | none => simp [stamp, h]
    | some a => simp [stamp, h]
  | _ => rfl

theorem stamp_pausedAt (s : ExecutionState) :
    (stamp t m s).pausedAt = if s = .paused then some t.now else m.pausedAt := by
  cases s with
  | running => simp only [stamp, apply_ite, ite_self, reduceCtorEq, if_false]
  | _ => rfl

theorem stamp_completedAt (s : ExecutionState) : (stamp t m s).completedAt =
      if s ∈ [ExecutionState.success, .failed, .cancelled, .timeout] then some t.now
      else m.completedAt := by
  cases s with
  | running => simp [stamp, apply_ite]
  | _ => rfl

variable (event : ExecutionEvent) (metadata : Option Data)

theorem recordError_eq : ∃ e, recordError t event metadata m = { m with error := e } := by
  unfold recordError
  split
  · split
    · exact ⟨_, rfl⟩
    · exact ⟨_, rfl⟩
  · exact ⟨_, rfl⟩

theorem recordError_of_ne (h : event ≠ .fail) : recordError t event metadata m = m := by
  cases event with
  | fail => exact absurd rfl h
  | _ => rfl

end fields

variable {m : ExecutionStateMachine} {c : Call} {s : ExecutionState}

theorem send_of_none (h : validTransitions m.state c.event = none) : send m c = m := by
  rw [send, transition, h]

theorem send_of_some (h : validTransitions m.state c.event = some s) : (send m c).state = s ∧
    (send m c).history = m.history ++ [⟨m.state, s, c.event, c.readings.entry, c.metadata⟩] ∧
    (send m c).startedAt =
      (if s = .running then some (m.startedAt.getD c.readings.now) else m.startedAt) ∧
    (send m c).pausedAt = (if s = .paused then some c.readings.now else m.pausedAt) ∧
    (send m c).completedAt =
      (if s ∈ [ExecutionState.success, .failed, .cancelled, .timeout] then some c.readings.now
        else m.completedAt) := by
  have hsend : ∃ e, send m c = { stamp c.readings { m with
      history := m.history ++ [⟨m.state, s, c.event, c.readings.entry, c.metadata⟩], state := s,
      updatedAt := c.readings.updated } s with error := e } := by
    rw [send, transition, h]
    exact recordError_eq _ _ _ _
  obtain ⟨e, he⟩ := hsend
  rw [he]
  refine ⟨?_, ?_, ?_, ?_, ?_⟩
  · exact stamp_state _ _ _
  · exact stamp_history _ _ _
  · exact stamp_startedAt _ _ _
  · exact stamp_pausedAt _ _ _
  · exact stamp_completedAt _ _ _

theorem send_error_of_ne (hfail : c.event ≠ .fail) : (send m c).error = m.error := by
  unfold send transition
  cases validTransitions m.state c.event with
  | none => rfl
  | some s => simp only [recordError_of_ne _ _ _ _ hfail, stamp_error]

theorem entryOf_of_none (h : validTransitions m.state c.event = none) : entryOf m c = none := by
  rw [entryOf, h, map_none]

theorem entryOf_of_some (h : validTransitions m.state c.event = some s) : entryOf m c =
      some (⟨m.state, s, c.event, c.readings.entry, c.metadata⟩, c.readings) := by
  rw [entryOf, h, map_some]

/-! ## The history determines the machine -/

def Chain : ExecutionState → List StateTransition → Prop
  | _, [] => True
  | s, e :: es => e.fromState = s ∧ validTransitions s e.event = some e.toState ∧ Chain e.toState es

def lastState (s : ExecutionState) (history : List StateTransition) : ExecutionState :=
  (history.getLast?.map StateTransition.toState).getD s

theorem lastState_snoc (s : ExecutionState) (history : List StateTransition)
    (e : StateTransition) : lastState s (history ++ [e]) = e.toState := by
  rw [lastState, getLast?_concat, map_some, getD_some]

theorem lastState_cons (s : ExecutionState) (e : StateTransition) (es : List StateTransition) :
    lastState s (e :: es) = lastState e.toState es := by
  rw [lastState, lastState, getLast?_cons]
  cases es.getLast? with
  | none => rfl
  | some _ => rfl

theorem Chain.snoc {s : ExecutionState} {history : List StateTransition} {e : StateTransition}
    (h : Chain s history) (hfrom : e.fromState = lastState s history)
    (hvalid : validTransitions e.fromState e.event = some e.toState) :
    Chain s (history ++ [e]) := by
  induction history generalizing s with
  | nil => exact ⟨hfrom, by rw [← hvalid, hfrom]; rfl, trivial⟩
  | cons d ds ih =>
    obtain ⟨hd, hdv, hds⟩ := h
    exact ⟨hd, hdv, ih hds (by rw [hfrom, lastState_cons])⟩

/-- The history is the log's entries and a chain of allowed transitions from `pending`, the state is
where it ends, and start and pause times are the readings of the first entry into `running` and the
last into `paused`. -/
structure Recorded (m : ExecutionStateMachine) (l : List (StateTransition × Readings)) : Prop where
  history : m.history = l.map Prod.fst
  timestamps : ∀ p ∈ l, p.1.timestamp = p.2.entry
  chain : Chain .pending m.history
  state : m.state = lastState .pending m.history
  started : m.startedAt = (l.find? fun p => p.1.toState = .running).map fun p => p.2.now
  paused : m.pausedAt = (l.reverse.find? fun p => p.1.toState = .paused).map fun p => p.2.now

theorem recorded_new (id workflowID : String) (created : ℤ) :
    Recorded (newExecutionStateMachine id workflowID created) [] where
  history := rfl
  timestamps := by simp
  chain := trivial
  state := rfl
  started := rfl
  paused := rfl

private theorem find_running_snoc (l : List (StateTransition × Readings))
    (p : StateTransition × Readings) :
    ((l ++ [p]).find? fun p => p.1.toState = .running).map (fun p => p.2.now) =
      if p.1.toState = .running then
        some (((l.find? fun p => p.1.toState = .running).map fun p => p.2.now).getD p.2.now)
      else (l.find? fun p => p.1.toState = .running).map fun p => p.2.now := by
  rw [find?_append]
  cases l.find? fun p => p.1.toState = .running with
  | some q => simp
  | none =>
    by_cases hp : p.1.toState = .running
    · simp [hp]
    · simp [hp]

private theorem find_paused_snoc (l : List (StateTransition × Readings))
    (p : StateTransition × Readings) :
    ((l ++ [p]).reverse.find? fun p => p.1.toState = .paused).map (fun p => p.2.now) =
      if p.1.toState = .paused then some p.2.now
      else (l.reverse.find? fun p => p.1.toState = .paused).map fun p => p.2.now := by
  rw [reverse_append, reverse_singleton, singleton_append, find?_cons]
  by_cases hp : p.1.toState = .paused
  · simp [hp]
  · simp [hp]

/-- The history records every transition with the times it was given. -/
theorem Recorded.send {l : List (StateTransition × Readings)} (h : Recorded m l) (c : Call) :
    Recorded (send m c) (l ++ (entryOf m c).toList) := by
  cases hv : validTransitions m.state c.event with
  | none =>
    rw [send_of_none hv, entryOf_of_none hv, toList_none, append_nil]
    exact h
  | some s =>
    obtain ⟨hstate, hhistory, hstarted, hpaused, -⟩ := send_of_some hv
    rw [entryOf_of_some hv, toList_some]
    constructor
    · rw [hhistory, h.history, map_append, map_singleton]
    · intro p hp
      rcases mem_append.mp hp with hp | hp
      · exact h.timestamps p hp
      · rw [mem_singleton.mp hp]
    · rw [hhistory]
      exact h.chain.snoc h.state hv
    · rw [hstate, hhistory, lastState_snoc]
    · rw [hstarted, find_running_snoc, h.started]
    · rw [hpaused, find_paused_snoc, h.paused]

theorem run_recorded (id workflowID : String) (created : ℤ) (calls : List Call) :
    Recorded (run id workflowID created calls)
      (log (newExecutionStateMachine id workflowID created) calls) := by
  induction calls using reverseRecOn with
  | nil => exact recorded_new id workflowID created
  | append_singleton calls c ih =>
    rw [run, foldl_append, log_append, log, log, append_nil]
    exact ih.send c

/-- The states that no event leaves. -/
def Settled (s : ExecutionState) : Prop := s ∈ [ExecutionState.success, .cancelled, .timeout]

theorem validTransitions_of_settled (h : Settled s) (event : ExecutionEvent) :
    validTransitions s event = none := by
  cases s with
  | success | cancelled | timeout => cases event <;> rfl
  | _ => simp [Settled] at h

theorem foldl_send_of_settled (h : Settled m.state) (calls : List Call) :
    calls.foldl send m = m := by
  induction calls with
  | nil => rfl
  | cons c cs ih => rw [foldl_cons, send_of_none (validTransitions_of_settled h _), ih]

/-- **The machine is what its log says**, after any calls: history, state, start and
pause times; a settled machine never changes again, and a rejected event changes
nothing. -/
theorem run_determined_by_log (id workflowID : String) (created : ℤ) (calls : List Call) :
    Recorded (run id workflowID created calls)
        (log (newExecutionStateMachine id workflowID created) calls) ∧
      (∀ pre post, calls = pre ++ post → Settled (run id workflowID created pre).state →
        run id workflowID created calls = run id workflowID created pre) ∧
      ∀ pre c post err, calls = pre ++ c :: post →
        (run id workflowID created pre).transition c.readings c.event c.metadata = .error err →
        run id workflowID created (pre ++ [c]) = run id workflowID created pre := by
  refine ⟨run_recorded id workflowID created calls, ?_, ?_⟩
  · rintro pre post rfl hsettled
    rw [run, foldl_append]
    exact foldl_send_of_settled hsettled post
  · intro pre c post err _ hrejected
    have hsend : send (run id workflowID created pre) c = run id workflowID created pre := by
      rw [send, hrejected]
    rw [run, foldl_append]
    exact hsend

/-- The start time is not the timestamp of the entry that starts the machine: the clock
moves on between the two readings. -/
theorem startedAt_ne_timestamp : ¬ ∀ (id workflowID : String) (created : ℤ) (calls : List Call),
      (run id workflowID created calls).startedAt =
        ((run id workflowID created calls).history.find? fun e => e.toState = .running).map
          StateTransition.timestamp := by
  intro h
  exact absurd (h "e" "w" 0 [⟨⟨1, 2, 3⟩, .start, none⟩]) (by decide)

/-! ## Completion and errors -/

/-- A completion time exactly when the machine is terminal, an error only when it failed, and so no
finish time on a going run and no error on a successful one in what `ToWorkflowExecution` builds. -/
structure Consistent (m : ExecutionStateMachine) : Prop where
  completed : m.completedAt.isSome ↔ m.isTerminal = true
  failed : m.error.isSome → m.state = .failed
  finish : ∀ vars, (m.toWorkflowExecution vars).finishedAt.isSome → m.isTerminal = true
  success : ∀ vars, m.state = .success → (m.toWorkflowExecution vars).error = ""

theorem consistent_iff : m.Consistent ↔
      (m.completedAt.isSome ↔ m.isTerminal = true) ∧ (m.error.isSome → m.state = .failed) := by
  constructor
  · intro h
    exact ⟨h.completed, h.failed⟩
  rintro ⟨hcompleted, hfailed⟩
  refine ⟨hcompleted, hfailed, fun vars => hcompleted.mp, ?_⟩
  intro vars hsuccess
  have hnone : m.error = none := by
    by_contra hsome
    have := hfailed (isSome_iff_ne_none.mpr hsome)
    rw [hsuccess] at this
    cases this
  rw [toWorkflowExecution, hnone]
  rfl

theorem consistent_new (id workflowID : String) (created : ℤ) :
    (newExecutionStateMachine id workflowID created).Consistent :=
  consistent_iff.mpr ⟨Iff.rfl, fun h => nomatch h⟩

/-- The call is a retry: it starts a failed machine. -/
def Retry (m : ExecutionStateMachine) (c : Call) : Prop := m.state = .failed ∧ c.event = .start

instance (m : ExecutionStateMachine) (c : Call) : Decidable (Retry m c) :=
  inferInstanceAs (Decidable (_ ∧ _))

theorem validTransitions_of_not_retry (h : validTransitions m.state c.event = some s)
    (hretry : ¬ Retry m c) : m.isTerminal = false ∧ (c.event = .fail → s = .failed) := by
  obtain ⟨_, _, state⟩ := m
  cases state <;> cases hc : c.event <;> rw [hc] at h <;> simp_all [validTransitions, Retry,
    isTerminal]

theorem isTerminal_iff : m.isTerminal = true ↔
      m.state ∈ [ExecutionState.success, .failed, .cancelled, .timeout] := by
  unfold isTerminal
  cases m.state <;> decide

/-- Only a retry leaves a completion time or an error behind. -/
theorem send_consistent_iff (m : ExecutionStateMachine) (c : Call) (h : m.Consistent) :
    (send m c).Consistent ↔ ¬ Retry m c := by
  cases hv : validTransitions m.state c.event with
  | none =>
    rw [send_of_none hv]
    refine iff_of_true h ?_
    rintro ⟨hfailed, hstart⟩
    rw [hfailed, hstart] at hv
    cases hv
  | some s =>
    obtain ⟨hstate, -, -, -, hcompleted⟩ := send_of_some hv
    constructor
    · rintro hcons ⟨hfailed, hstart⟩
      -- a failed machine has a completion time, and starting it keeps that
      have hs : s = .running := by
        rw [hfailed, hstart] at hv
        exact (some.inj hv).symm
      have hsome : m.completedAt.isSome :=
        h.completed.mpr (isTerminal_iff.mpr (by simp [hfailed]))
      have hterminal := hcons.completed.mp (by rw [hcompleted, hs]; exact hsome)
      rw [isTerminal_iff, hstate, hs] at hterminal
      simp at hterminal
    · intro hretry
      obtain ⟨hgoing, hfail⟩ := validTransitions_of_not_retry hv hretry
      have hnone : m.completedAt = none := by
        rw [← not_isSome_iff_eq_none, h.completed, hgoing]
        exact Bool.false_ne_true
      have hnoerror : m.error = none := by
        rw [← not_isSome_iff_eq_none]
        intro hsome
        rw [isTerminal_iff.mpr (by simp [h.failed hsome])] at hgoing
        cases hgoing
      refine consistent_iff.mpr ⟨?_, ?_⟩
      · rw [hcompleted, isTerminal_iff, hstate, hnone]
        by_cases hs : s ∈ [ExecutionState.success, .failed, .cancelled, .timeout]
        · rw [if_pos hs]
          exact iff_of_true rfl hs
        · rw [if_neg hs]
          exact iff_of_false Bool.false_ne_true hs
      · intro herror
        by_cases hf : c.event = .fail
        · rw [hstate, hfail hf]
        · rw [send_error_of_ne hf, hnoerror] at herror
          cases herror

/-- **The record agrees with the state throughout a run** exactly when no call of the
run is a retry. -/
theorem consistent_run_iff (id workflowID : String) (created : ℤ) (calls : List Call) :
    (∀ pre, pre <+: calls → (run id workflowID created pre).Consistent) ↔
      ∀ pre c post, calls = pre ++ c :: post → ¬ Retry (run id workflowID created pre) c :=
  (Runs.always_iff_along send_consistent_iff (consistent_new id workflowID created)).trans
    Runs.along_iff

/-- The calls of a retried run that then succeeds. -/
def retriedCalls : List Call :=
  [⟨⟨1, 1, 1⟩, .start, none⟩, ⟨⟨2, 2, 2⟩, .fail, some (AList.insert "error" (.str "boom") ∅)⟩,
    ⟨⟨3, 3, 3⟩, .start, none⟩, ⟨⟨4, 4, 4⟩, .complete, none⟩]

/-- After the retry the machine runs with a finish time, and once it succeeds it shows
the old error. -/
theorem retried_run_inconsistent : (run "e" "w" 0 (retriedCalls.take 3)).state = .running ∧
      ((run "e" "w" 0 (retriedCalls.take 3)).toWorkflowExecution none).finishedAt = some 2 ∧
      (run "e" "w" 0 retriedCalls).state = .success ∧
      ((run "e" "w" 0 retriedCalls).toWorkflowExecution none).error = "boom" := by
  decide

end LinkFlow.ExecutionStateMachine
