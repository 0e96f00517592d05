/-
What a whole run of `executeNodes` does: it ends, on which nodes it calls
`executeNode`, and in which order.

Both halves rest on the exploration that `LoopInv` finds in every run. A node may
be queued once per connection into it, so the length of the queue says nothing
about progress; `budget` counts the queue together with the connections whose
source has not run, and every iteration spends at least one.
-/
import LinkFlow.Executor

set_option autoImplicit false

namespace LinkFlow

open List GoMap

namespace LoopState

variable {σ : Type}

/-! ## The loop ends -/

def unspent (w : Workflow) (executed : GoMap String Bool) : ℕ :=
  w.connections.countP (fun c => executed.get false c.source = false)

def budget (w : Workflow) (s : LoopState σ) : ℕ := s.queue.length + unspent w s.executed

theorem queueAfter_budget (w : Workflow) {executed : GoMap String Bool} {id : String}
    (hid : executed.get false id = false) (rest : List String) :
    (queueAfter w (executed.insert id true) id rest).length + unspent w (executed.insert id true)
      ≤ rest.length + unspent w executed := by
  have hgen : ∀ cs : List Connection, (cs.filter (fun c => c.source = id ∧
          get false (executed.insert id true) c.target = false)).length
        + cs.countP (fun c => get false (executed.insert id true) c.source = false)
      ≤ cs.countP (fun c => executed.get false c.source = false) := by
    intro cs
    induction cs with
    | nil => simp
    | cons c cs ih =>
      rw [filter_cons, countP_cons, countP_cons]
      -- a connection out of `id` leaves the count; any other keeps its place
      by_cases hc : c.source = id
      · have h₁ : get false (executed.insert id true) c.source = true := by
          rw [get_insert, if_pos hc]
        have h₂ : executed.get false c.source = false := by rw [hc]; exact hid
        simp only [h₁, h₂, Bool.true_eq_false, decide_false, decide_true, if_true,
          Bool.false_eq_true, if_false]
        split_ifs
        · rw [length_cons]; omega
        · omega
      · have h₁ : get false (executed.insert id true) c.source
            = executed.get false c.source := by
          rw [get_insert, if_neg hc]
        simp only [hc, h₁, false_and, decide_false, Bool.false_eq_true, if_false]
        omega
  have hall := hgen w.connections
  unfold queueAfter unspent
  rw [length_append, length_map]
  omega

/-- Nothing interferes with the next iteration: the context is not done, and the
call of `executeNode`, if there is one, passes. -/
def Undisturbed (env : NodeEnv σ) (w : Workflow) (s : LoopState σ) : Prop :=
  s.phase = .running → ∀ id rest, s.queue = id :: rest → (env.done s.world).1 = false ∧
      (s.executed.get false id = false → Passes env w id (env.done s.world).2)

/-- Without an error a step executes a node or ends the loop. -/
theorem step_undisturbed {env : NodeEnv σ} {w : Workflow} {s : LoopState σ}
    (hrun : s.phase = .running) (h : Undisturbed env w s) : (s.step env w).phase = .returned none ∨
      (s.step env w).phase = .running ∧ budget w (s.step env w) < budget w s := by
  rcases step_cases env w hrun with ⟨-, -, hphase⟩ | ⟨id, rest, hcons, hcase⟩
  · exact .inl hphase
  obtain ⟨hlive, hpass⟩ := h hrun id rest hcons
  refine .inr ?_
  rcases hcase with ⟨hdone, -, -⟩ | ⟨-, hstep⟩ | ⟨hnew, -, hafter⟩
  · rw [hlive] at hdone
    cases hdone
  · rw [hstep]
    refine ⟨hrun, ?_⟩
    simp only [budget, hcons, length_cons]
    omega
  · rcases hafter with ⟨hno, -, -⟩ | ⟨hrun', hexec, hqueue⟩
    · exact absurd (hpass hnew) hno
    · refine ⟨hrun', ?_⟩
      have hspend := queueAfter_budget w hnew rest
      simp only [budget, hcons, hexec, hqueue, length_cons]
      omega

theorem run_undisturbed {env : NodeEnv σ} {w : Workflow} {world : σ}
    (h : ∀ n, Undisturbed env w (run env w world n)) (n : ℕ) :
    (run env w world n).phase = .returned none ∨
      (run env w world n).phase = .running ∧
        budget w (run env w world n) + n ≤ budget w (start w world) := by
  induction n with
  | zero => exact .inr ⟨rfl, le_rfl⟩
  | succ n ih =>
    rcases ih with hret | ⟨hrun, hbudget⟩
    · refine .inl ?_
      rw [run, step_of_not_running env w (by rw [hret]; simp), hret]
    rcases step_undisturbed hrun (h n) with hret | ⟨hrun', hlt⟩
    · exact .inl hret
    · refine .inr ⟨hrun', ?_⟩
      rw [run]
      omega

theorem budget_start (w : Workflow) (world : σ) :
    budget w (start w world) = w.startNodes.length + w.connections.length := by
  simp [budget, unspent, start, get_empty]

/-- A run that nothing interferes with has returned without error after one
iteration for every trigger node and every connection, and one more. -/
theorem run_returns {env : NodeEnv σ} {w : Workflow} {world : σ}
    (h : ∀ n, Undisturbed env w (run env w world n)) {n : ℕ}
    (hn : w.startNodes.length + w.connections.length + 1 ≤ n) :
    (run env w world n).phase = .returned none := by
  rcases run_undisturbed h n with hret | ⟨-, hbudget⟩
  · exact hret
  · rw [budget_start] at hbudget
    omega

/-! ## Which nodes a run handles -/

theorem run_calls_sound (env : NodeEnv σ) (w : Workflow) (world : σ) (n : ℕ) :
    (run env w world n).calls.Nodup ∧ ∀ id ∈ (run env w world n).calls, w.Triggered id := by
  obtain ⟨D, K, h⟩ := loopInv_run env w world n
  rw [h.calls]
  refine ⟨h.explore.fresh, fun id hid => ?_⟩
  obtain ⟨x, hx, rfl⟩ := mem_map.mp hid
  exact Workflow.triggered_iff.mpr ((Frontier.exists_walk_iff _ _ _).mp
    ⟨x.1, h.explore.walk x (mem_append_left K hx)⟩)

/-- **A run that nothing interferes with** ends without error and has called `executeNode` exactly
once for every ID reachable from a trigger node and for no other. -/
theorem executeNodes_complete (env : NodeEnv σ) (w : Workflow) (world : σ)
    (h : ∀ n, Undisturbed env w (run env w world n)) : ∃ final : LoopState σ,
      (∀ n, w.startNodes.length + w.connections.length + 1 ≤ n → run env w world n = final) ∧
      final.phase = .returned none ∧ final.calls.Nodup ∧
      ∀ id, id ∈ final.calls ↔ w.Triggered id := by
  have hret := run_returns h le_rfl
  obtain ⟨D, K, hinv⟩ := loopInv_run env w world (w.startNodes.length + w.connections.length + 1)
  refine ⟨run env w world (w.startNodes.length + w.connections.length + 1), fun n hn => ?_, hret,
    (run_calls_sound env w world _).1, fun id => ?_⟩
  · exact run_stable env w world (by rw [hret]; simp) hn
  · obtain rfl := hinv.drained hret
    rw [hinv.calls, Workflow.triggered_iff]
    exact hinv.explore.visited_iff id

/-- **Whatever its nodes return and whenever it is cancelled**, a run calls no node twice, and only
trigger nodes and nodes with a connection from one called before. -/
theorem calls_follow_connections (env : NodeEnv σ) (w : Workflow) (world : σ) (n : ℕ) :
    (run env w world n).calls.Nodup ∧ ∀ id ∈ (run env w world n).calls, id ∈ w.startNodes ∨
      ∃ P, Graph.Edge w.edges P id ∧ Kahn.Before (run env w world n).calls P id := by
  obtain ⟨D, K, h⟩ := loopInv_run env w world n
  rw [h.calls]
  refine ⟨h.explore.fresh, fun id hid => ?_⟩
  obtain ⟨⟨p, v⟩, hD, rfl⟩ := mem_map.mp hid
  cases h.explore.walk _ (mem_append_left K hD) with
  | start hi => exact .inl (mem_of_getElem? hi)
  | @step p _ _ c hp hc =>
    -- the walk without its last connection is smaller, so its end was called before
    have hless := Frontier.less_snoc p c
    obtain ⟨x, hx, rfl, hle⟩ := h.explore.visited_of_le hD hp hless
    exact .inr ⟨x.2, mem_of_getElem? hc,
      h.explore.before_of_less hx hD (Frontier.less_of_le_of_less hle hless)⟩

end LoopState

/-- Surroundings in which nothing goes wrong. -/
def calmEnv : NodeEnv Unit where
  done := fun u => (false, u)
  executeNode := fun _ u => some (none, u)

theorem calmEnv_undisturbed (w : Workflow) (s : LoopState Unit) :
    LoopState.Undisturbed calmEnv w s :=
  fun _ _ _ _ => ⟨rfl, fun _ => ⟨none, (), rfl, .inl rfl⟩⟩

/-- A trigger, two parallel connections, a self loop and a cycle. -/
def tangledWorkflow : Workflow where
  nodes := [{ id := "t", type := nodeTypeTrigger }, { id := "a", type := nodeTypeCode },
    { id := "b", type := nodeTypeCode }]
  connections := [{ source := "t", target := "a" }, { source := "t", target := "a" },
    { source := "a", target := "a" }, { source := "a", target := "b" },
    { source := "b", target := "a" }]

theorem tangledWorkflow_completes : ∃ final : LoopState Unit,
      (∀ n, 7 ≤ n → LoopState.run calmEnv tangledWorkflow () n = final) ∧
      final.phase = .returned none ∧ final.calls.Nodup ∧
      ∀ id, id ∈ final.calls ↔ tangledWorkflow.Triggered id :=
  LoopState.executeNodes_complete calmEnv tangledWorkflow ()
    (fun _ => calmEnv_undisturbed tangledWorkflow _)

/-! ## In which order: joins

A node with several inputs is queued by the first of them to run. -/

namespace Workflow

/-- In a sequence of calls, the inputs of every node called that a trigger reaches
were called before it. -/
def InputsFirst (w : Workflow) (calls : List String) : Prop :=
  ∀ N ∈ calls, ∀ P, Graph.Edge w.edges P N → w.Triggered P → Kahn.Before calls P N

/-- Every input that a trigger reaches is reached before the node it feeds: one of its walks is
smaller than all walks to the node, by length, then by the positions of trigger and connections. -/
def JoinsWait (w : Workflow) : Prop :=
  ∀ P N, Graph.Edge w.edges P N → w.Triggered P → Frontier.FirstReached w.startNodes w.edges P N

theorem JoinsWait.inputsFirst {w : Workflow} (hw : w.JoinsWait) {σ : Type} (env : NodeEnv σ)
    (world : σ) (n : ℕ) : w.InputsFirst (LoopState.run env w world n).calls := by
  obtain ⟨D, K, h⟩ := LoopState.loopInv_run env w world n
  intro N hN P hedge hP
  rw [h.calls] at hN ⊢
  exact h.explore.before_of_firstReached hN (hw P N hedge hP)

/-- A run that returned without error and called inputs first shows that the graph
makes joins wait. -/
theorem joinsWait_of_inputsFirst {w : Workflow} {σ : Type} {env : NodeEnv σ} {world : σ} {n : ℕ}
    (hret : (LoopState.run env w world n).phase = .returned none)
    (hfirst : w.InputsFirst (LoopState.run env w world n).calls) : w.JoinsWait := by
  obtain ⟨D, K, h⟩ := LoopState.loopInv_run env w world n
  obtain rfl := h.drained hret
  intro P N hedge hP
  obtain ⟨s, hs, hsP⟩ := triggered_iff.mp hP
  have hN : N ∈ (LoopState.run env w world n).calls := by
    rw [h.calls]
    exact (h.explore.visited_iff N).mpr ⟨s, hs, hsP.tail hedge⟩
  have hbefore := hfirst N hN P hedge hP
  rw [h.calls] at hbefore
  exact h.explore.firstReached_of_before hbefore

/-- **When joins wait for their inputs**: every run, in all surroundings and at every moment, has
called the reachable inputs of a node before the node, exactly when the graph makes joins wait. -/
theorem inputs_first_iff_joinsWait (w : Workflow) :
    (∀ (σ : Type) (env : NodeEnv σ) (world : σ) (n : ℕ),
      w.InputsFirst (LoopState.run env w world n).calls) ↔ w.JoinsWait := by
  constructor
  · intro h
    have hret := LoopState.run_returns (fun n => calmEnv_undisturbed w
      (LoopState.run calmEnv w () n)) le_rfl
    exact joinsWait_of_inputsFirst hret (h Unit calmEnv () _)
  · intro hw σ env world n
    exact hw.inputsFirst env world n

end Workflow

/-- A merge node fed by the trigger and, behind it, by a slower branch. -/
def shortcutWorkflow : Workflow where
  nodes := [{ id := "t", type := nodeTypeTrigger }, { id := "a", type := nodeTypeCode },
    { id := "b", type := nodeTypeCode }, { id := "m", type := nodeTypeMerge }]
  connections := [{ source := "t", target := "a" }, { source := "a", target := "b" },
    { source := "b", target := "m" }, { source := "t", target := "m" }]

/-- The cycle check accepts it, and an undisturbed run calls `t, a, m, b`: the
merge before its input `b`. -/
theorem shortcutWorkflow_join_runs_early : shortcutWorkflow.hasCycle 8 = some false ∧
      (LoopState.run calmEnv shortcutWorkflow () 8).phase = .returned none ∧
      (LoopState.run calmEnv shortcutWorkflow () 8).calls = ["t", "a", "m", "b"] ∧
      ¬ shortcutWorkflow.InputsFirst (LoopState.run calmEnv shortcutWorkflow () 8).calls := by
  have hcalls : (LoopState.run calmEnv shortcutWorkflow () 8).calls = ["t", "a", "m", "b"] := by
    decide
  refine ⟨by decide, by decide, hcalls, fun h => ?_⟩
  rw [hcalls] at h
  have hreach : shortcutWorkflow.Triggered "b" :=
    Workflow.triggered_iff.mpr ⟨"t", by decide, Relation.ReflTransGen.tail (b := "a")
      (Relation.ReflTransGen.single (by decide)) (by decide)⟩
  obtain ⟨l₁, l₂, heq, hb⟩ := h "m" (by decide) "b" (by decide) hreach
  -- nothing before `m` in the list is `b`
  have hl₁ : l₁ = ["t", "a"] := by
    rcases l₁ with _ | ⟨x, _ | ⟨y, _ | ⟨z, _ | ⟨u, l⟩⟩⟩⟩ <;> simp_all
  rw [hl₁] at hb
  simp at hb

end LinkFlow
