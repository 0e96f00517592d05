/-
The retries of `WorkflowExecutor.executeNode` (`execution/app/orchestrator/orchestrator.go`).

A retry is a call of `executeNode`, which makes a record of its own with a retry count of zero. So
the count that is compared with the node's never grows: a node that keeps failing is retried for
ever. And nobody saves the record of the attempt that failed, which is left as it was created.

A call therefore does what a caller expects exactly if it makes no second attempt
(`executeNode_settles_iff`).
-/
import LinkFlow.NodeEvents

set_option autoImplicit false

namespace LinkFlow

open List

namespace World

def startedID : BusEvent → Option String
  | .nodeExecutionStarted id _ _ _ => some id
  | _ => none

/-- The records that were created since `s`. Their starts are published right after. -/
def createdSince (s s' : World) : List String :=
  (s'.published.drop s.published.length).filterMap startedID

/-- The call returns after one attempt and at most one for every retry, and every record it has
created has its final status in the repository. -/
def Settles (S : Surroundings) (w : Workflow) (nodeID : String) (s : World) : Prop :=
  ∃ fuel err s', executeNode S w fuel nodeID s = some (err, s') ∧
    (∀ node, w.nodes.find? (fun n => n.id = nodeID) = some node →
      (createdSince s s').length ≤ node.retryCount.toNat + 1) ∧
    ∀ id ∈ createdSince s s', ∃ row, s'.nodeExecutions.lookup id = some row ∧
      (row.status = .completed ∨ row.status = .failed)

/-- No attempt is made, or one that is not retried: it succeeds, or the node has no retries. Its
output can be merged into the variables, and its record is saved. -/
def SettlesAtOnce (S : Surroundings) (w : Workflow) (nodeID : String) (s : World) : Prop :=
  ∀ node, w.nodes.find? (fun n => n.id = nodeID) = some node → ¬ node.disabled = true →
    ¬ S.done (s.tick + 1) = true → let r := executeNodeByType S node (begun S nodeID node s)
      (∀ err, r.1 = .error err → node.retryCount ≤ 0) ∧
        (∀ output, r.1 = .ok output → mergeOutput output r.2.vars ≠ none) ∧
        S.done (r.2.tick + 1) = false

section

variable {S : Surroundings} {w : Workflow} {nodeID : String} {s : World}

/-! ## What is left of an attempt -/

/-- What happens from `s` on leaves the record with the `k`-th ID and what was published. -/
def Leaves (S : Surroundings) (k : ℕ) (s s' : World) : Prop :=
  s'.nodeExecutions.lookup (S.uuid k) = s.nodeExecutions.lookup (S.uuid k) ∧
    s.published <+: s'.published ∧ s.tick ≤ s'.tick

theorem Leaves.trans {k : ℕ} {s s' s'' : World} (h : Leaves S k s s') (h' : Leaves S k s' s'') :
    Leaves S k s s'' :=
  ⟨h'.1.trans h.1, h.2.1.trans h'.2.1, h.2.2.trans h'.2.2⟩

theorem Leaves.executeNodeByType (k : ℕ) (node : Node) (s : World) :
    Leaves S k s (executeNodeByType S node s).2 := by
  rcases Telemetry.executeNodeByType_world (S := S) node s with heq | ⟨requestID, heq⟩
  · rw [heq]
    exact ⟨rfl, prefix_refl _, le_rfl⟩
  · rw [heq]
    exact ⟨rfl, prefix_append _ _, (Nat.le_succ _).trans (Nat.le_succ _)⟩

theorem Leaves.finishNode {k : ℕ} {n : NodeExecution} (hn : S.uuid k ≠ n.id) (s : World) :
    Leaves S k s (finishNode S n s) := by
  unfold World.finishNode updateNodeExecution
  split_ifs
  · exact ⟨rfl, prefix_append _ _, (Nat.le_succ _).trans (Nat.le_succ _)⟩
  · refine ⟨?_, prefix_append _ _, (Nat.le_succ _).trans (Nat.le_succ _)⟩
    exact AList.lookup_insert_ne hn

/-- Later nodes change no record of an earlier attempt. -/
theorem Leaves.executeNode (huuid : Function.Injective S.uuid) {fuel k : ℕ}
    {r : Option String × World} (hr : executeNode S w fuel nodeID s = some r) (hk : k < s.tick) :
    Leaves S k s r.2 := by
  induction fuel generalizing s with
  | zero => cases hr
  | succ fuel ih =>
    have hne : S.uuid k ≠ S.uuid s.tick := fun heq => hk.ne (huuid heq)
    rcases executeNode_cases hr with ⟨tick, htick, hstay⟩ | ⟨node, s₂, htype, hend⟩
    · rw [hstay]
      exact ⟨rfl, prefix_refl _, htick⟩
    have hbegun : Leaves S k s (begun S nodeID node s) :=
      ⟨AList.lookup_insert_ne hne, prefix_append _ _, by dsimp only [begun, publish]; omega⟩
    have h₂ : Leaves S k s s₂ := hbegun.trans (htype ▸ Leaves.executeNodeByType k node _)
    rcases hend with hretry | ⟨n, vars, hid, hfinish⟩
    · have hlater : Leaves S k s { s₂ with tick := s₂.tick + 1 } :=
        ⟨h₂.1, h₂.2.1, h₂.2.2.trans (Nat.le_succ _)⟩
      exact hlater.trans (ih hretry (hk.trans_le hlater.2.2))
    · have hlater : Leaves S k s { s₂ with tick := s₂.tick + 1, vars := vars } :=
        ⟨h₂.1, h₂.2.1, h₂.2.2.trans (Nat.le_succ _)⟩
      rw [hfinish]
      exact hlater.trans (Leaves.finishNode (hid ▸ hne) _)

theorem not_final_of_leaves {node : Node} {s' : World}
    (h : Leaves S s.tick (begun S nodeID node s) s') :
    ¬ ∀ id ∈ createdSince s s', ∃ row, s'.nodeExecutions.lookup id = some row ∧
      (row.status = .completed ∨ row.status = .failed) := by
  intro hall
  obtain ⟨⟨es, hes⟩, -⟩ := h.2
  obtain ⟨row, hrow, hstatus⟩ := hall (S.uuid s.tick) (by
    rw [createdSince, ← hes, begun, publish, append_assoc, drop_left]
    exact mem_cons_self)
  rw [h.1, begun, publish, newNodeExecution, AList.lookup_insert] at hrow
  rw [← Option.some.inj hrow] at hstatus
  rcases hstatus with hstatus | hstatus
  all_goals cases hstatus

theorem finishNode_final {node : Node} {n : NodeExecution} {s₂ : World} (vars : Option Data)
    (hid : n.id = S.uuid s.tick) (hstatus : n.status = .completed ∨ n.status = .failed)
    (htype : (executeNodeByType S node (begun S nodeID node s)).2 = s₂)
    (hdone : S.done (s₂.tick + 1) = false) :
    let s' := finishNode S n { s₂ with tick := s₂.tick + 1, vars := vars }
    createdSince s s' = [S.uuid s.tick] ∧
      ∃ row, s'.nodeExecutions.lookup (S.uuid s.tick) = some row ∧
        (row.status = .completed ∨ row.status = .failed) := by
  have hpublished : ∃ es, s₂.published = s.published ++
      .nodeExecutionStarted (S.uuid s.tick) s.execution.id nodeID node.type :: es ∧
        es.filterMap startedID = [] := by
    rw [← htype]
    rcases Telemetry.executeNodeByType_world (S := S) node (begun S nodeID node s) with
      heq | ⟨requestID, heq⟩
    · exact ⟨[], by rw [heq]; rfl, rfl⟩
    · exact ⟨[_], by rw [heq, publish, begun, publish, append_assoc]; rfl, rfl⟩
  obtain ⟨es, hes, hnone⟩ := hpublished
  unfold finishNode updateNodeExecution
  dsimp only
  rw [if_neg (by simp [hdone])]
  refine ⟨?_, { n with inputData := vars }, ?_, hstatus⟩
  · dsimp only [createdSince, publish]
    rw [hes, append_assoc, drop_left, cons_append, filterMap_cons, filterMap_append, hnone]
    rfl
  · dsimp only [publish]
    rw [hid, AList.lookup_insert]

end

/-- **When a call settles its records.** `executeNode` returns after at most one attempt and one for
every retry, with a final status for every record it has created, exactly if it makes no second
attempt, does not panic and saves the record of the first. -/
theorem executeNode_settles_iff (S : Surroundings) (huuid : Function.Injective S.uuid)
    (w : Workflow) (nodeID : String) (s : World) :
    Settles S w nodeID s ↔ SettlesAtOnce S w nodeID s := by
  constructor
  · rintro ⟨fuel, err, s', hr, -, hfinal⟩ node hfind hon hdone
    obtain ⟨fuel, rfl⟩ : ∃ k, fuel = k + 1 := by
      cases fuel with
      | zero => cases hr
      | succ k => exact ⟨k, rfl⟩
    obtain ⟨⟨result, s₂⟩, htype⟩ : ∃ r, executeNodeByType S node (begun S nodeID node s) = r :=
      ⟨_, rfl⟩
    have hleaves : Leaves S s.tick (begun S nodeID node s) s₂ := by
      have h := Leaves.executeNodeByType (S := S) s.tick node (begun S nodeID node s)
      rwa [htype] at h
    have hlt : s.tick < s₂.tick :=
      lt_of_lt_of_le (by dsimp only [begun, publish]; omega) hleaves.2.2
    rw [htype]
    obtain ⟨-, -, heq⟩ | ⟨-, heq⟩ | ⟨herr, hok, err', n, vars, hid, -, heq⟩ :=
      executeNode_attempt fuel hfind hon hdone htype
    · -- the record of the first attempt is left running
      have hretry := Leaves.executeNode huuid (heq.symm.trans hr) (hlt.trans (Nat.lt_succ_self _))
      exact absurd hfinal (not_final_of_leaves (hleaves.trans ⟨hretry.1, hretry.2.1,
        (Nat.le_succ _).trans hretry.2.2⟩))
    · cases heq.symm.trans hr
    · refine ⟨herr, hok, ?_⟩
      -- a record that is not saved is left running as well
      by_contra hsaved
      obtain ⟨-, rfl⟩ := Prod.mk.inj (Option.some.inj (heq.symm.trans hr))
      refine absurd hfinal (not_final_of_leaves (hleaves.trans ?_))
      unfold finishNode updateNodeExecution
      rw [if_pos (by simpa using hsaved)]
      exact ⟨rfl, prefix_append _ _, by dsimp only [publish]; omega⟩
  · intro h
    by_cases hidle : ∀ node, w.nodes.find? (fun n => n.id = nodeID) = some node →
        node.disabled = true ∨ S.done (s.tick + 1) = true
    · obtain ⟨err, tick, -, heq⟩ := executeNode_idle 0 hidle
      have hnone : createdSince s { s with tick := tick } = [] := by
        dsimp only [createdSince]
        rw [drop_length, filterMap_nil]
      refine ⟨1, err, _, heq, fun node _ => ?_, ?_⟩
      · rw [hnone]
        exact Nat.zero_le _
      · rw [hnone]
        exact forall_mem_nil _
    · push Not at hidle
      obtain ⟨node, hfind, hon, hdone⟩ := hidle
      obtain ⟨⟨result, s₂⟩, htype⟩ : ∃ r, executeNodeByType S node (begun S nodeID node s) = r :=
        ⟨_, rfl⟩
      obtain ⟨herr, hok, hsaved⟩ := h node hfind hon hdone
      rw [htype] at herr hok hsaved
      obtain ⟨⟨err, hresult⟩, hpos, -⟩ | ⟨⟨output, hresult, hmerge⟩, -⟩ |
          ⟨-, -, err, n, vars, hid, hstatus, heq⟩ := executeNode_attempt 0 hfind hon hdone htype
      · exact absurd hpos (not_lt.mpr (herr err hresult))
      · exact absurd hmerge (hok output hresult)
      obtain ⟨hcreated, hrow⟩ := finishNode_final vars hid hstatus (congrArg Prod.snd htype) hsaved
      refine ⟨1, err, _, heq, fun node _ => ?_, ?_⟩
      · rw [hcreated]
        exact Nat.le_add_left _ _
      · rw [hcreated]
        exact forall_mem_singleton.mpr hrow

/-! ## Two nodes -/

/-- The run of a workflow at its first node. -/
def atFirst : World where
  toStore := emptyStore
  execution := newExecution neverDone triggerOnly "wf" (some ∅) 0
  vars := some ∅
  machine := newExecutionStateMachine "" "wf" 0

theorem triggerOnly_settles :
    SettlesAtOnce neverDone triggerOnly "t" atFirst ∧
      Settles neverDone triggerOnly "t" atFirst := by
  have hatOnce : SettlesAtOnce neverDone triggerOnly "t" atFirst := by
    intro node hfind _ _
    cases hfind
    refine ⟨fun err h => ?_, fun output h => ?_, rfl⟩
    · cases h
    · cases h
      exact Option.some_ne_none _
  exact ⟨hatOnce, (executeNode_settles_iff neverDone Telemetry.uuid_injective triggerOnly "t"
    atFirst).mpr hatOnce⟩

/-- One node that goes to the executor service, with one retry. -/
def oneRetry : Workflow where
  nodes := [{ id := "n", type := "email", retryCount := 1 }]
  connections := []

/-- The service answers only the second request. -/
def secondAnswer : Surroundings :=
  { neverDone with serves := fun n => if n < 8 then .timeout else .result ∅ }

/-- A service that never answers keeps the call busy for ever; one that answers the second request
leaves the first record running. -/
theorem oneRetry_not_settled : (∀ fuel, executeNode neverDone oneRetry fuel "n" atFirst = none) ∧
      (executeNode secondAnswer oneRetry 2 "n" atFirst).map (fun r => (r.1,
        (createdSince atFirst r.2).map (fun id =>
          (r.2.nodeExecutions.lookup id).map NodeExecution.status))) =
        some (none, [some .running, some .completed]) := by
  refine ⟨fun fuel => ?_, by decide +kernel⟩
  have hforever : ∀ s : World, executeNode neverDone oneRetry fuel "n" s = none := by
    induction fuel with
    | zero => exact fun _ => rfl
    | succ fuel ih => exact fun _ => ih _
  exact hforever atFirst

end World

end LinkFlow
