/-
`pkg/contracts/workflow/dag.go`: the DAG built from a workflow, its searches and
its validation.

`newDAG` is `NewDAG` with `build`. The four algorithms that follow are the ones
the other modules prove things about: `hasCycle` (depth-first),
`findUnreachableNodes` (breadth-first marking), `validateNodeDependencies` (one
pass over the nodes) and `getTopologicalOrder` (in-degree peeling); `validate`
runs the first three in the source's order. A `range` over a map takes its order
from a `RangeOrder`, named by the line of `dag.go` it stands on.

The lemmas here say what the builder puts where, in terms of the workflow: the
adjacency map is `Graph.succs` of the connections, a node is stored under its
own ID, and the counters hold in-degrees. Everything above cites them and never
unfolds `newDAG`.
-/
import LinkFlow.Workflow
import LinkFlow.Lib.Flood
import LinkFlow.Lib.Kahn

set_option autoImplicit false

namespace LinkFlow

open List GoMap

/-! ## The model -/

structure DAG where
  nodes : GoMap String Node
  edges : GoMap String (List String)
  (startNodes endNodes : List String)

/-- A trigger or webhook node: the two types the DAG code treats as entry points. -/
def Node.isEntry (n : Node) : Bool := n.type = nodeTypeTrigger || n.type = nodeTypeWebhook

/-- `NewDAG` with `DAG.build`. -/
def newDAG (ρ : RangeOrder) (w : Workflow) : DAG :=
  let nodes := GoMap.index Node.id ∅ w.nodes
  let outgoing := GoMap.bump ∅ (w.connections.map Connection.source)
  let incoming := GoMap.bump ∅ (w.connections.map Connection.target)
  { nodes := nodes
    edges := w.adjacency
    startNodes := ((ρ.run 49 nodes.entries).filter
      (fun e => incoming.get 0 e.1 = 0 || e.2.isEntry)).map Sigma.fst
    endNodes := ((ρ.run 56 nodes.entries).filter (fun e => outgoing.get 0 e.1 = 0)).map Sigma.fst }

/-- The second half of both `GetTopologicalOrder`s: queue the zero counters in the order the `range`
at `line` visits them, peel, and compare the length with the number of nodes. -/
def peelOrder (ρ : RangeOrder) (line fuel : ℕ) (adj : String → List String)
    (inDegree : GoMap String ℤ) (numNodes : ℕ) : Option (Except String (List String)) :=
  let queue := ((ρ.run line inDegree.entries).filter (fun e => e.2 = 0)).map Sigma.fst
  match Kahn.loop adj fuel ⟨inDegree, queue, []⟩ with
  | none => none
  | some s =>
    if s.result.length ≠ numNodes then some (.error errWorkflowHasCycle)
    else some (.ok s.result)

namespace DAG

/-- `d.Edges[u]` -/
def neighbors (d : DAG) (u : String) : List String := d.edges.get [] u

def hasCycle (ρ : RangeOrder) (fuel : ℕ) (d : DAG) : Option Bool :=
  Dfs.hasCycleFrom d.neighbors fuel (GoMap.rangeKeys ρ 130 d.nodes) Dfs.Marks.none

def findUnreachableNodes (ρ : RangeOrder) (fuel : ℕ) (d : DAG) : Option (List String) :=
  match Flood.loop d.neighbors fuel (Flood.marksOf d.startNodes, d.startNodes) with
  | none => none
  | some reachable =>
    -- disabled nodes may stay unreachable
    some (((ρ.run 165 d.nodes.entries).filter
      (fun e => reachable e.1 = false && !e.2.disabled)).map Sigma.fst)

/-- `incoming[target]++` over all edges, starting from `m`. -/
def countTargets (ρ : RangeOrder) (line : ℕ) (m : GoMap String ℤ) (d : DAG) : GoMap String ℤ :=
  m.bump ((ρ.run line d.edges.entries).flatMap Sigma.snd)

/-- The body of the node loop of `ValidateNodeDependencies`; the answer is the
error the source returns from it. -/
def nodeDependencyError (incoming : GoMap String ℤ) (d : DAG) (e : (_ : String) × Node) :
    Option String :=
  if e.2.isEntry || e.2.disabled then none
  else if incoming.get 0 e.1 = 0 then
    some ("node " ++ e.1 ++ " (" ++ e.2.name ++ ") has no incoming connections")
  else if e.2.type = nodeTypeMerge then
    if incoming.get 0 e.1 < 2 then
      some ("merge node " ++ e.1 ++ " requires at least 2 inputs, has "
        ++ toString (incoming.get 0 e.1))
    else none
  else if e.2.type = nodeTypeCondition then
    if (d.neighbors e.1).length < 2 then
      some ("condition node " ++ e.1 ++ " should have at least 2 output branches")
    else none
  else none

/-- `none` is the nil error. -/
def validateNodeDependencies (ρ : RangeOrder) (d : DAG) : Option String :=
  (ρ.run 189 d.nodes.entries).findSome? (nodeDependencyError (d.countTargets ρ 182 ∅) d)

/-- The body of the connection loop of `Validate`. -/
def edgeError (d : DAG) (e : (_ : String) × List String) : Option String :=
  if e.1 ∉ d.nodes then some ("source node " ++ e.1 ++ " not found in DAG")
  else (e.2.find? (fun t => t ∉ d.nodes)).map (fun t => "target node " ++ t ++ " not found in DAG")

/-- `none` when the fuel runs out. -/
def validate (ρ : RangeOrder) (fuel : ℕ) (d : DAG) : Option (Except String Unit) :=
  match d.hasCycle ρ fuel with
  | none => none
  | some true => some (.error errWorkflowHasCycle)
  | some false =>
    match (ρ.run 71 d.edges.entries).findSome? d.edgeError with
    | some e => some (.error e)
    | none =>
      if d.startNodes.length = 0 then some (.error "DAG has no start nodes")
      else if d.endNodes.length = 0 then some (.error "DAG has no end nodes")
      else
        match d.findUnreachableNodes ρ fuel with
        | none => none
        | some unreachable =>
          if 0 < unreachable.length then
            some (.error ("DAG contains unreachable nodes: " ++ GoFmt.formatList unreachable))
          else
            match d.validateNodeDependencies ρ with
            | some e => some (.error e)
            | none => some (.ok ())

/-- The counters `GetTopologicalOrder` starts with: a zero for every node, then
one for every edge into a target. -/
def inDegrees (ρ : RangeOrder) (d : DAG) : GoMap String ℤ :=
  d.countTargets ρ 225 (GoMap.zeros (GoMap.rangeKeys ρ 221 d.nodes))

def getTopologicalOrder (ρ : RangeOrder) (fuel : ℕ) (d : DAG) :
    Option (Except String (List String)) :=
  peelOrder ρ 233 fuel d.neighbors (d.inDegrees ρ) d.nodes.len

end DAG

/-! ## What the builder puts where -/

section Build

variable (ρ : RangeOrder) (w : Workflow)

@[simp] theorem mem_newDAG_nodes (id : String) : id ∈ (newDAG ρ w).nodes ↔ id ∈ w.nodeIDs :=
  w.mem_nodeMap id

theorem newDAG_neighbors (u : String) : (newDAG ρ w).neighbors u = Graph.succs w.edges u :=
  w.get_adjacency u

theorem mem_newDAG_edges (u : String) :
    u ∈ (newDAG ρ w).edges ↔ ∃ c ∈ w.connections, c.source = u := by
  show u ∈ w.adjacency ↔ _
  rw [Workflow.adjacency, mem_group]
  simp [Workflow.edges]

theorem newDAG_len_le : (newDAG ρ w).nodes.len ≤ w.nodes.length := by
  have hids : w.nodes.length = w.nodeIDs.length := by rw [Workflow.nodeIDs, length_map]
  rw [len_eq_length_keys, hids]
  refine (subperm_of_subset (newDAG ρ w).nodes.keys_nodup (fun k hk => ?_)).length_le
  exact (mem_newDAG_nodes ρ w k).mp (AList.mem_keys.mpr hk)

theorem newDAG_rangeKeys_length_le (ρ' : RangeOrder) (line : ℕ) :
    (GoMap.rangeKeys ρ' line (newDAG ρ w).nodes).length ≤ w.nodes.length := by
  rw [(rangeKeys_perm ρ' line (newDAG ρ w).nodes).length_eq, ← len_eq_length_keys]
  exact newDAG_len_le ρ w

theorem newDAG_keys_toFinset : (newDAG ρ w).nodes.keys.toFinset = w.nodeIDs.toFinset := by
  ext id
  rw [mem_toFinset, mem_toFinset, ← AList.mem_keys, mem_newDAG_nodes]

theorem newDAG_len_eq_card : (newDAG ρ w).nodes.len = w.nodeIDs.toFinset.card := by
  rw [← newDAG_keys_toFinset ρ w, toFinset_card_of_nodup (newDAG ρ w).nodes.keys_nodup,
    len_eq_length_keys]

theorem mem_startNodes {id : String} :
    id ∈ (newDAG ρ w).startNodes ↔ ∃ n, (newDAG ρ w).nodes.lookup id = some n ∧
      ((∀ c ∈ w.connections, c.target ≠ id) ∨ n.isEntry = true) := by
  have hzero : (bump ∅ (w.connections.map Connection.target)).get 0 id = 0 ↔
      ∀ c ∈ w.connections, c.target ≠ id := by
    rw [get_bump, get_empty, zero_add, Nat.cast_eq_zero, count_eq_zero]
    simp
  have hstart : (newDAG ρ w).startNodes = ((ρ.run 49 (newDAG ρ w).nodes.entries).filter
      (fun e => (bump ∅ (w.connections.map Connection.target)).get 0 e.1 = 0
        || e.2.isEntry)).map Sigma.fst := rfl
  rw [hstart]
  simp only [mem_map, mem_filter, RangeOrder.mem_run, Bool.or_eq_true, decide_eq_true_eq]
  constructor
  · rintro ⟨e, ⟨he, hcond⟩, rfl⟩
    exact ⟨e.2, lookup_of_entry he, hcond.imp hzero.mp id⟩
  · rintro ⟨n, hn, hcond⟩
    exact ⟨⟨id, n⟩, ⟨AList.mem_lookup_iff.mp hn, hcond.imp hzero.mpr (fun h => h)⟩, rfl⟩

theorem newDAG_targets_count (ρ' : RangeOrder) (line : ℕ) (v : String) :
    ((ρ'.run line (newDAG ρ w).edges.entries).flatMap Sigma.snd).count v
      = (w.edges.map Prod.snd).count v := by
  have hperm := (ρ'.perm line (newDAG ρ w).edges.entries).flatMap_right Sigma.snd
  exact (hperm.trans (values_group w.edges)).count_eq v

theorem get_countTargets (ρ' : RangeOrder) (line : ℕ) (m : GoMap String ℤ) (v : String) :
    ((newDAG ρ w).countTargets ρ' line m).get 0 v
      = m.get 0 v + ((w.edges.map Prod.snd).count v : ℤ) := by
  rw [DAG.countTargets, get_bump, newDAG_targets_count]

end Build

end LinkFlow
