/-
`pkg/contracts/workflow/validator.go`: the node map, the cycle check and the
topological order of the validator, and the agreement of the three cycle
detectors.

A `Validator` keeps its node map between calls, and `buildNodeMap` stops at the
first ID it has seen before, so the map is part of the answer even when the
answer is an error. `Validate` returns at once on that error; the cycle check
therefore only ever runs on a map that holds every node.
-/
import LinkFlow.DagOrder

set_option autoImplicit false

namespace LinkFlow

open List GoMap

/-! ## The model -/

/-- `workflow.Validator`, without the collected messages. -/
structure Validator where
  workflow : Workflow
  nodeMap : GoMap String Node

def newValidator (w : Workflow) : Validator := ⟨w, ∅⟩

namespace Validator

/-- The loop of `buildNodeMap`: the map so far and the error, if any. -/
def addNodes (m : GoMap String Node) : List Node → GoMap String Node × Option String
  | [] => (m, none)
  | n :: ns =>
    if n.id ∈ m then (m, some ("duplicate node ID found: " ++ n.id))
    else addNodes (m.insert n.id n) ns

def buildNodeMap (v : Validator) : Validator × Option String :=
  let r := addNodes v.nodeMap v.workflow.nodes
  ({ v with nodeMap := r.1 }, r.2)

/-- The answer is the error, if any. -/
def validateNoCycles (ρ : RangeOrder) (fuel : ℕ) (v : Validator) : Option (Option String) :=
  match Dfs.hasCycleFrom (fun u => v.workflow.adjacency.get [] u) fuel
      (GoMap.rangeKeys ρ 162 v.nodeMap) Dfs.Marks.none with
  | none => none
  | some true => some (some errWorkflowHasCycle)
  | some false => some none

def getTopologicalOrder (ρ : RangeOrder) (fuel : ℕ) (v : Validator) :
    Option (Except String (List String)) :=
  let inDegree := (GoMap.zeros (GoMap.rangeKeys ρ 354 v.nodeMap)).bump
    (v.workflow.connections.map Connection.target)
  peelOrder ρ 366 fuel (fun u => v.workflow.adjacency.get [] u) inDegree v.nodeMap.len

end Validator

/-! ## The node map -/

theorem Validator.mem_addNodes (m : GoMap String Node) (ns : List Node)
    (h : (addNodes m ns).2 = none) (k : String) :
    k ∈ (addNodes m ns).1 ↔ k ∈ ns.map Node.id ∨ k ∈ m := by
  induction ns generalizing m with
  | nil => simp [addNodes]
  | cons n ns ih =>
    rw [addNodes] at h ⊢
    by_cases hn : n.id ∈ m
    · rw [if_pos hn] at h
      exact absurd h (by simp)
    · rw [if_neg hn] at h ⊢
      rw [ih (m.insert n.id n) h, AList.mem_insert, map_cons, mem_cons]
      tauto

theorem Validator.mem_buildNodeMap (w : Workflow) (h : (newValidator w).buildNodeMap.2 = none)
    (k : String) : k ∈ (newValidator w).buildNodeMap.1.nodeMap ↔ k ∈ w.nodeIDs := by
  have hmem := mem_addNodes ∅ w.nodes h k
  show k ∈ (addNodes ∅ w.nodes).1 ↔ _
  rw [hmem, Workflow.nodeIDs]
  simp

theorem Validator.len_buildNodeMap (w : Workflow) (h : (newValidator w).buildNodeMap.2 = none) :
    (newValidator w).buildNodeMap.1.nodeMap.len = w.nodeIDs.toFinset.card := by
  rw [len_eq_length_keys, ← toFinset_card_of_nodup (AList.keys_nodup _)]
  congr 1
  ext k
  rw [mem_toFinset, mem_toFinset, ← AList.mem_keys, mem_buildNodeMap w h]

/-! ## The cycle checks -/

theorem Validator.validateNoCycles_eq (v : Validator) (ρ : RangeOrder) (fuel : ℕ) :
    v.validateNoCycles ρ fuel = (Dfs.hasCycleFrom (fun u => v.workflow.adjacency.get [] u) fuel
          (GoMap.rangeKeys ρ 162 v.nodeMap) Dfs.Marks.none).map
        (fun b => if b then some errWorkflowHasCycle else none) := by
  unfold validateNoCycles
  split
  · rename_i h; rw [h]; rfl
  · rename_i h; rw [h]; rfl
  · rename_i h; rw [h]; rfl

theorem Validator.validateNoCycles_correct (w : Workflow) (hw : w.ConnectionsExist)
    (hmap : (newValidator w).buildNodeMap.2 = none) (ρ : RangeOrder) :
    (∀ fuel, w.nodes.length + w.connections.length ≤ fuel →
      ∃ e, (newValidator w).buildNodeMap.1.validateNoCycles ρ fuel = some e) ∧
    ∀ fuel e, (newValidator w).buildNodeMap.1.validateNoCycles ρ fuel = some e →
      ∃ b : Bool, (b = true ↔ Graph.HasClosedWalk w.edges) ∧
        e = if b then some errWorkflowHasCycle else none := by
  set v := (newValidator w).buildNodeMap.1 with hv
  have h := Dfs.hasCycleFrom_correct w.edges (fun u => v.workflow.adjacency.get [] u)
    w.get_adjacency (rangeKeys ρ 162 v.nodeMap) (fun a b hab => by
      rw [mem_rangeKeys, hv, mem_buildNodeMap w hmap]; exact hw.source_mem hab)
  have hlen : (rangeKeys ρ 162 v.nodeMap).length ≤ w.nodes.length := by
    rw [(rangeKeys_perm ρ 162 v.nodeMap).length_eq, ← len_eq_length_keys, hv,
      len_buildNodeMap w hmap]
    refine le_trans (toFinset_card_le _) ?_
    rw [Workflow.nodeIDs, length_map]
  constructor
  · intro fuel hfuel
    obtain ⟨b, hb⟩ := h.1 fuel (by rw [w.length_edges]; omega)
    exact ⟨_, by rw [validateNoCycles_eq, hb]; rfl⟩
  · intro fuel e he
    rw [validateNoCycles_eq, Option.map_eq_some_iff] at he
    obtain ⟨b, hb, rfl⟩ := he
    exact ⟨b, h.2 fuel b hb, rfl⟩

/-- **The three cycle detectors agree**: with fuel for every node and connection each returns
whether the connections have a closed walk, in whatever order the maps are built and visited. -/
theorem cycle_detectors_agree (w : Workflow) (hw : w.ConnectionsExist) :
    ∃ b : Bool, (b = true ↔ Graph.HasClosedWalk w.edges) ∧
      ∀ fuel, w.nodes.length + w.connections.length ≤ fuel →
        (∀ ρ₀ ρ, (newDAG ρ₀ w).hasCycle ρ fuel = some b) ∧
        w.hasCycle fuel = some b ∧
        ((newValidator w).buildNodeMap.2 = none → ∀ ρ,
          (newValidator w).buildNodeMap.1.validateNoCycles ρ fuel
            = some (if b then some errWorkflowHasCycle else none)) := by
  -- the answer is the one `Workflow.hasCycle` gives at the smallest fuel
  obtain ⟨b, hb⟩ := (Workflow.hasCycle_correct w hw).1 _ le_rfl
  have hmeans := (Workflow.hasCycle_correct w hw).2 _ b hb
  have hsame : ∀ c : Bool, (c = true ↔ Graph.HasClosedWalk w.edges) → c = b := by
    intro c hc
    rw [Bool.eq_iff_iff, hc, hmeans]
  refine ⟨b, hmeans, fun fuel hfuel => ⟨fun ρ₀ ρ => ?_, ?_, fun hmap ρ => ?_⟩⟩
  · obtain ⟨c, hc⟩ := (DAG.hasCycle_correct ρ₀ ρ w hw).1 fuel hfuel
    rw [hc, hsame c ((DAG.hasCycle_correct ρ₀ ρ w hw).2 fuel c hc)]
  · obtain ⟨c, hc⟩ := (Workflow.hasCycle_correct w hw).1 fuel hfuel
    rw [hc, hsame c ((Workflow.hasCycle_correct w hw).2 fuel c hc)]
  · obtain ⟨e, he⟩ := (Validator.validateNoCycles_correct w hw hmap ρ).1 fuel hfuel
    obtain ⟨c, hc, rfl⟩ := (Validator.validateNoCycles_correct w hw hmap ρ).2 fuel e he
    rw [he, hsame c hc]

/-- A workflow with a diamond and a back edge. -/
def backEdgeWorkflow : Workflow where
  nodes := [{ id := "a", type := "trigger" }, { id := "b", type := "action" },
    { id := "c", type := "merge" }]
  connections := [{ source := "a", target := "b" }, { source := "a", target := "c" },
    { source := "b", target := "c" }, { source := "c", target := "a" }]

theorem backEdgeWorkflow_detected :
    backEdgeWorkflow.ConnectionsExist ∧ (newValidator backEdgeWorkflow).buildNodeMap.2 = none ∧
      ∃ b : Bool, (b = true ↔ Graph.HasClosedWalk backEdgeWorkflow.edges) ∧
        ∀ fuel, backEdgeWorkflow.nodes.length + backEdgeWorkflow.connections.length ≤ fuel →
          (∀ ρ₀ ρ, (newDAG ρ₀ backEdgeWorkflow).hasCycle ρ fuel = some b) ∧
          backEdgeWorkflow.hasCycle fuel = some b ∧
          ((newValidator backEdgeWorkflow).buildNodeMap.2 = none → ∀ ρ,
            (newValidator backEdgeWorkflow).buildNodeMap.1.validateNoCycles ρ fuel
              = some (if b then some errWorkflowHasCycle else none)) :=
  ⟨by decide, by decide, cycle_detectors_agree backEdgeWorkflow (by decide)⟩

/-! ## The validator's order

The same loop over the same counters, so the same answer up to the order in
which zero counters are queued. -/

/-- **The validator's order**: every orderable ID once, sources first, or the error if these are not
as many as the nodes. -/
theorem Validator.getTopologicalOrder_returns (w : Workflow)
    (hmap : (newValidator w).buildNodeMap.2 = none) (ρ : RangeOrder) {fuel : ℕ}
    (hfuel : w.nodes.length + w.connections.length ≤ fuel) :
    ∃ R : List String, R.Nodup ∧ Kahn.Ordered w.edges R ∧
      (∀ v, v ∈ R ↔ v ∈ w.graphIDs ∧ w.Orderable v) ∧
      (newValidator w).buildNodeMap.1.getTopologicalOrder ρ fuel =
        some (if R.length = w.nodeIDs.toFinset.card then .ok R
          else .error errWorkflowHasCycle) := by
  have htargets : w.connections.map Connection.target = w.edges.map Prod.snd := by
    simp [Workflow.edges]
  let d := (zeros (rangeKeys ρ 354 (newValidator w).buildNodeMap.1.nodeMap)).bump
    (w.connections.map Connection.target)
  have hdeg : ∀ v, d.get 0 v = ((w.edges.map Prod.snd).count v : ℤ) := by
    intro v
    rw [get_bump, get_zeros, zero_add, htargets]
  have hmem : ∀ v, v ∈ d ↔ v ∈ w.graphIDs := by
    intro v
    rw [mem_bump, mem_zeros, mem_rangeKeys, mem_buildNodeMap w hmap, w.mem_graphIDs, htargets]
    simp [Graph.Edge, or_comm]
  obtain ⟨r, hr⟩ := peelOrder_isSome hdeg hmem w.get_adjacency hfuel _
  obtain ⟨R, hnd, hord, hmemR, rfl⟩ := peelOrder_spec hdeg hmem w.get_adjacency hr
  rw [← len_buildNodeMap w hmap]
  exact ⟨R, hnd, hord, hmemR, hr⟩

theorem backEdgeWorkflow_order : ∃ r,
    (newValidator backEdgeWorkflow).buildNodeMap.1.getTopologicalOrder .stored 7 = some r := by
  obtain ⟨_, -, -, -, hr⟩ :=
    Validator.getTopologicalOrder_returns backEdgeWorkflow (by decide) .stored le_rfl
  exact ⟨_, hr⟩

end LinkFlow
