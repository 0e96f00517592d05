/-
`WorkflowExecutor.executeNodes` of `execution/app/orchestrator/orchestrator.go`:
the run loop of a workflow.

The loop is modelled one iteration at a time (`LoopState.step`), over any
behaviour of its surroundings: `NodeEnv` answers whether the context is done and
what `executeNode` does, from a state of its own. A call of `executeNode` may
also never return. `calls` records the node IDs handed to `executeNode`, oldest
first; the code has no such list, and nothing the loop does reads it.

`LoopInv` connects the loop to the exploration of `Frontier`: the calls made are
its visited vertices, whatever the surroundings answer.
-/
import LinkFlow.Lib.Frontier
import LinkFlow.Workflow

set_option autoImplicit false

namespace LinkFlow

open List

/-! ## The loop -/

/-- The timestamp is left out. -/
structure ExecutionErrorDetail where
  (nodeID error : String)
  retryable : Bool
deriving DecidableEq, Repr

/-- What the loop sees of its surroundings: `ctx.Done()` and `executeNode`, which
answers `none` when the call does not return. -/
structure NodeEnv (σ : Type) where
  done : σ → Bool × σ
  executeNode : String → σ → Option (Option String × σ)

/-- Where the loop stands. -/
inductive LoopPhase
  | running
  | returned (err : Option String)
  /-- A call of `executeNode` never came back. -/
  | hung
deriving DecidableEq, Repr

/-- The local variables of `executeNodes`, the state of its surroundings, and the
calls made so far. -/
structure LoopState (σ : Type) where
  world : σ
  executed : GoMap String Bool
  queue : List String
  errors : List ExecutionErrorDetail
  calls : List String
  phase : LoopPhase

namespace Workflow

/-- The loop passes it to `findStartNodes` only. -/
def buildExecutionGraph (w : Workflow) : GoMap String (List String) := w.adjacency

/-- The source does not read the graph it is given. -/
def findStartNodes (w : Workflow) (_graph : GoMap String (List String)) : List String :=
  (w.nodes.filter (fun n => n.type = nodeTypeTrigger)).map Node.id

/-- The queue `executeNodes` starts with. -/
def startNodes (w : Workflow) : List String := w.findStartNodes w.buildExecutionGraph

/-- The IDs a run can come to: those reachable from a trigger node along connections. -/
def Triggered (w : Workflow) (id : String) : Prop :=
  ∃ n ∈ w.nodes, n.type = nodeTypeTrigger ∧ Graph.Reach w.edges n.id id

/-- `findStartNodes` lists the trigger nodes. -/
theorem mem_findStartNodes {w : Workflow} {graph : GoMap String (List String)} {id : String} :
    id ∈ w.findStartNodes graph ↔ ∃ n ∈ w.nodes, n.type = nodeTypeTrigger ∧ n.id = id := by
  simp only [findStartNodes, List.mem_map, List.mem_filter, decide_eq_true_eq, and_assoc]

theorem triggered_iff {w : Workflow} {id : String} :
    w.Triggered id ↔ ∃ s ∈ w.startNodes, Graph.Reach w.edges s id := by
  constructor
  · rintro ⟨n, hn, htype, hreach⟩
    exact ⟨n.id, mem_findStartNodes.mpr ⟨n, hn, htype, rfl⟩, hreach⟩
  · rintro ⟨s, hs, hreach⟩
    obtain ⟨n, hn, htype, rfl⟩ := mem_findStartNodes.mp hs
    exact ⟨n, hn, htype, hreach⟩

end Workflow

namespace LoopState

variable {σ : Type}

/-- The state on entry to the loop. -/
def start (w : Workflow) (world : σ) : LoopState σ where
  world := world
  executed := ∅
  queue := w.startNodes
  errors := []
  calls := []
  phase := .running

/-- The queue after `executed[nodeID] = true`: `rest`, then the targets of the
node's connections that are not executed, in connection order. -/
def queueAfter (w : Workflow) (executed : GoMap String Bool) (nodeID : String)
    (rest : List String) : List String :=
  rest ++ (w.connections.filter
    (fun c => c.source = nodeID ∧ executed.get false c.target = false)).map Connection.target

/-- `executed[nodeID] = true` and the loop that queues the downstream nodes. -/
def markExecuted (w : Workflow) (nodeID : String) (s : LoopState σ) : LoopState σ :=
  let executed : GoMap String Bool := s.executed.insert nodeID true
  { s with executed := executed, queue := queueAfter w executed nodeID s.queue }

/-- What the loop does with the result of `executeNode`. -/
def afterNode (w : Workflow) (nodeID : String) (s : LoopState σ) : Option String → LoopState σ
  | none => s.markExecuted w nodeID
  | some err =>
    if w.settings.errorHandling.continueOnFail then
      markExecuted w nodeID { s with errors := s.errors ++ [⟨nodeID, err, false⟩] }
    else { s with phase := .returned (some err) }

/-- One iteration of the loop of `executeNodes`. -/
def step (env : NodeEnv σ) (w : Workflow) (s : LoopState σ) : LoopState σ :=
  match s.phase with
  | .returned _ | .hung => s
  | .running =>
    match s.queue with
    | [] => { s with phase := .returned none }
    | nodeID :: queue =>
      let (cancelled, world) := env.done s.world
      if cancelled then { s with world := world, phase := .returned (some "execution cancelled") }
      else if s.executed.get false nodeID then { s with world := world, queue := queue }
      else
        let s := { s with world := world, queue := queue, calls := s.calls ++ [nodeID] }
        match env.executeNode nodeID world with
        | none => { s with phase := .hung }
        | some (err, world) => afterNode w nodeID { s with world := world } err

/-- `n` iterations. -/
def run (env : NodeEnv σ) (w : Workflow) (world : σ) : ℕ → LoopState σ
  | 0 => start w world
  | n + 1 => step env w (run env w world n)

/-! ## What one iteration does

`step_cases` says it once; everything below goes through it. -/

variable {s : LoopState σ} (env : NodeEnv σ) (w : Workflow)

theorem step_of_not_running (h : s.phase ≠ .running) : s.step env w = s := by
  unfold step
  cases hp : s.phase with
  | running => exact absurd hp h
  | returned _ => rfl
  | hung => rfl

theorem run_stable (world : σ) {n : ℕ} (h : (run env w world n).phase ≠ .running) {m : ℕ}
    (hm : n ≤ m) : run env w world m = run env w world n := by
  induction hm with
  | refl => rfl
  | step _ ih =>
    rw [run, ih]
    exact step_of_not_running env w h

/-- The loop goes on after a call on `id`: it returns, without error or with one
the workflow's settings tolerate. -/
def Passes (env : NodeEnv σ) (w : Workflow) (id : String) (world : σ) : Prop :=
  ∃ err world', env.executeNode id world = some (err, world') ∧
    (err = none ∨ w.settings.errorHandling.continueOnFail = true)

/-- An iteration of a running loop returns, drops the head of the queue, or calls
`executeNode` on it and then stops or marks it executed. -/
theorem step_cases (h : s.phase = .running) : (s.queue = [] ∧ (s.step env w).calls = s.calls ∧
      (s.step env w).phase = .returned none) ∨
    (∃ id rest, s.queue = id :: rest ∧
      (((env.done s.world).1 = true ∧ (s.step env w).calls = s.calls ∧
          (s.step env w).phase = .returned (some "execution cancelled")) ∨
        (s.executed.get false id = true ∧ s.step env w =
          { s with world := (env.done s.world).2, queue := rest }) ∨
        (s.executed.get false id = false ∧ (s.step env w).calls = s.calls ++ [id] ∧
          ((¬ Passes env w id (env.done s.world).2 ∧
              (s.step env w).phase ≠ .running ∧ (s.step env w).phase ≠ .returned none) ∨
            ((s.step env w).phase = .running ∧
              (s.step env w).executed = s.executed.insert id true ∧
              (s.step env w).queue = queueAfter w (s.executed.insert id true) id rest))))) := by
  cases hq : s.queue with
  | nil =>
    refine .inl ⟨rfl, ?_⟩
    simp only [step, h, hq, and_self]
  | cons id rest =>
    refine .inr ⟨id, rest, rfl, ?_⟩
    cases hdone : (env.done s.world).1 with
    | true =>
      refine .inl ⟨rfl, ?_⟩
      simp only [step, h, hq, hdone, if_true, and_self]
    | false =>
      cases hex : s.executed.get false id with
      | true =>
        refine .inr (.inl ⟨rfl, ?_⟩)
        simp [step, h, hq, hdone, hex]
      | false =>
        refine .inr (.inr ⟨rfl, ?_⟩)
        cases hcall : env.executeNode id (env.done s.world).2 with
        | none => simp [step, h, hq, hdone, hex, hcall, Passes]
        | some r =>
          obtain ⟨err, world⟩ := r
          cases err with
          | none =>
            simp [step, h, hq, hdone, hex, hcall, afterNode, markExecuted]
          | some err =>
            by_cases hcont : w.settings.errorHandling.continueOnFail = true
            · simp [step, h, hq, hdone, hex, hcall, afterNode, hcont, markExecuted]
            · simp [step, h, hq, hdone, hex, hcall, Passes, afterNode, hcont]

theorem run_world {P : σ → Prop} (hdone : ∀ s, P s → P (env.done s).2)
    (hcall : ∀ id s r, env.executeNode id s = some r → P s → P r.2) {world : σ} (h : P world)
    (n : ℕ) : P (run env w world n).world := by
  induction n with
  | zero => exact h
  | succ n ih =>
    rw [run]
    generalize run env w world n = s at ih
    unfold step
    cases s.phase with
    | returned _ => exact ih
    | hung => exact ih
    | running =>
      cases s.queue with
      | nil => exact ih
      | cons id rest =>
        have hworld := hdone s.world ih
        dsimp only
        split_ifs
        · exact hworld
        · exact hworld
        cases hc : env.executeNode id (env.done s.world).2 with
        | none => exact hworld
        | some r =>
          have hafter := hcall id _ r hc hworld
          obtain ⟨err, world'⟩ := r
          cases err with
          | none => exact hafter
          | some err =>
            dsimp only [afterNode]
            split_ifs
            · exact hafter
            · exact hafter

/-! ## The loop explores the connection graph first come, first served -/

/-- The calls made are the visited vertices of an exploration from the trigger nodes; while the loop
runs the queues agree and `executed` holds the calls made. A loop that returned without error has
emptied its queue. -/
structure LoopInv (w : Workflow) (s : LoopState σ) (D K : List (List ℕ × String)) : Prop where
  explore : Frontier.Inv w.startNodes w.edges D K
  calls : s.calls = D.map Prod.snd
  queue : s.phase = .running → s.queue = K.map Prod.snd
  executed : s.phase = .running → ∀ id, s.executed.get false id = true ↔ id ∈ s.calls
  drained : s.phase = .returned none → K = []

theorem loopInv_start (world : σ) :
    LoopInv w (start w world) [] (Frontier.initial w.startNodes) := by
  refine ⟨Frontier.inv_initial w.startNodes w.edges, rfl, fun _ => ?_, fun _ id => ?_, ?_⟩
  · exact (Frontier.map_snd_initial w.startNodes).symm
  · simp [start, GoMap.get_empty]
  · simp [start]

theorem queueAfter_eq (executed : GoMap String Bool) (id : String) (visited : List String)
    (hex : ∀ v, executed.get false v = true ↔ v ∈ visited) (k : List ℕ) (K : List (List ℕ × String))
    : queueAfter w executed id (K.map Prod.snd)
      = (K ++ Frontier.extend w.edges visited k id).map Prod.snd := by
  rw [queueAfter, map_append, Frontier.map_snd_extend, Workflow.edges, filter_map, map_map]
  congr 2
  refine filter_congr (fun c _ => ?_)
  have hc : executed.get false c.target = false ↔ c.target ∉ visited := by
    rw [← hex c.target, Bool.not_eq_true]
  simp only [Function.comp_apply, hc]

/-- The loop takes the next node of the frontier, in its order. -/
theorem LoopInv.step {w : Workflow} {D K : List (List ℕ × String)} (h : LoopInv w s D K) :
    ∃ D' K', LoopInv w (s.step env w) D' K' := by
  by_cases hrun : s.phase = .running
  swap
  · exact ⟨D, K, by rw [step_of_not_running env w hrun]; exact h⟩
  have hqueue := h.queue hrun
  have hexec := h.executed hrun
  rcases step_cases env w hrun with ⟨hnil, hcalls, hphase⟩ | ⟨id, rest, hcons, hcase⟩
  · refine ⟨D, K, h.explore, by rw [hcalls, h.calls], ?_, ?_, fun _ => ?_⟩
    · simp [hphase]
    · simp [hphase]
    · rw [hnil] at hqueue
      exact map_eq_nil_iff.mp hqueue.symm
  -- the head of the queue is the head of the exploration's queue
  obtain ⟨⟨k, v⟩, K, rfl, rfl, hrest⟩ := map_eq_cons_iff.mp (hqueue.symm.trans hcons)
  rcases hcase with ⟨-, hcalls, hphase⟩ | ⟨hdone, hstep⟩ | ⟨hnew, hcalls, hafter⟩
  · refine ⟨D, (k, v) :: K, h.explore, by rw [hcalls, h.calls], ?_, ?_, ?_⟩ <;> simp [hphase]
  · have hv : v ∈ D.map Prod.snd := by rw [← h.calls]; exact (hexec v).mp hdone
    rw [hstep]
    refine ⟨D, K, h.explore.drop hv, h.calls, fun _ => hrest.symm, fun _ => hexec, ?_⟩
    simp [hrun]
  · have hv : v ∉ D.map Prod.snd := by
      rw [← h.calls, ← hexec v]
      simpa using hnew
    have hD : (s.step env w).calls = (D ++ [(k, v)]).map Prod.snd := by
      rw [hcalls, h.calls, map_append, map_singleton]
    refine ⟨D ++ [(k, v)], _, h.explore.visit hv, hD, ?_, ?_, ?_⟩
    · intro hrun'
      rcases hafter with ⟨-, hstop, -⟩ | ⟨-, -, hqueue'⟩
      · exact absurd hrun' hstop
      rw [hqueue', ← hrest]
      refine queueAfter_eq w _ v _ (fun u => ?_) k K
      rw [GoMap.get_insert, map_append, ← h.calls, mem_append]
      by_cases hu : u = v <;> simp [hu, hexec]
    · intro hrun' u
      rcases hafter with ⟨-, hstop, -⟩ | ⟨-, hexec', -⟩
      · exact absurd hrun' hstop
      · rw [hexec', GoMap.get_insert, hcalls, mem_append]
        by_cases hu : u = v <;> simp [hu, hexec]
    · intro hret
      rcases hafter with ⟨-, -, hnot⟩ | ⟨hrun', -, -⟩
      · exact absurd hret hnot
      · rw [hrun'] at hret
        cases hret

/-- After any number of steps the loop has walked a part of the frontier. -/
theorem loopInv_run (world : σ) (n : ℕ) : ∃ D K, LoopInv w (run env w world n) D K := by
  induction n with
  | zero => exact ⟨_, _, loopInv_start w world⟩
  | succ n ih =>
    obtain ⟨D, K, h⟩ := ih
    exact h.step env

end LoopState

end LinkFlow
