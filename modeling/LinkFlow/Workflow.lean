/-
The workflow record of `pkg/contracts/workflow/workflow.go`, and its own
validation.

A workflow is a list of nodes and a list of connections between node IDs. The
IDs are what everything else goes by: a connection may name an ID no node has,
two nodes may share one, and two connections may join the same pair. `edges` is
that multigraph, and the graph library's notions are applied to it.

Node types are open strings in the source (a custom type goes to the executor
service), so they stay strings here, with the constants the code compares with.
-/
import LinkFlow.Lib.GoMap
import LinkFlow.Lib.Dfs

set_option autoImplicit false

namespace LinkFlow

open List GoMap

/-! ## The record -/

/-- A value of a parameter map (`interface{}`): a string, or the JSON text of anything
else. -/
inductive ParamValue
  | string (s : String)
  | json (text : String)
deriving DecidableEq, Repr

structure Node where
  id : String
  name : String := ""
  type : String
  parameters : Option (GoMap String ParamValue) := none
  disabled : Bool := false
  (retryCount timeout : ℤ := 0)
deriving DecidableEq

structure Connection where
  id : String := ""
  (source target : String)
  (sourcePort targetPort : String := "")
deriving DecidableEq, Repr

structure ErrorHandling where
  continueOnFail : Bool := false
deriving DecidableEq, Repr

structure Settings where
  errorHandling : ErrorHandling := {}
  timeout : ℤ := 0
  retryOnFailure : Bool := false
  maxRetries : ℤ := 0
  timezone : String := ""
deriving DecidableEq, Repr

/-- The `Status` constants of a workflow. -/
inductive WorkflowStatus
  | inactive | active | paused | error
deriving DecidableEq, Repr

structure Workflow where
  (id name description userID : String := "")
  nodes : List Node
  connections : List Connection
  settings : Settings := {}
  status : WorkflowStatus := .inactive
  isActive : Bool := false
  version : ℤ := 1
  tags : List String := []
  (createdAt updatedAt : ℤ := 0)
  deletedAt : Option ℤ := none
deriving DecidableEq

def nodeTypeTrigger : String := "trigger"
def nodeTypeCondition : String := "condition"
def nodeTypeLoop : String := "loop"
def nodeTypeMerge : String := "merge"
def nodeTypeWebhook : String := "webhook"
def nodeTypeHTTPRequest : String := "http-request"
def nodeTypeCode : String := "code"

def errWorkflowHasCycle : String := "workflow contains a cycle"

namespace Workflow

/-- The node IDs, in list order. -/
def nodeIDs (w : Workflow) : List String := w.nodes.map Node.id

/-- The connections as the edges of a multigraph on node IDs. -/
def edges (w : Workflow) : List (String × String) :=
  w.connections.map (fun c => (c.source, c.target))

/-- Every connection names existing nodes. -/
def ConnectionsExist (w : Workflow) : Prop :=
  ∀ c ∈ w.connections, c.source ∈ w.nodeIDs ∧ c.target ∈ w.nodeIDs

instance (w : Workflow) : Decidable w.ConnectionsExist :=
  inferInstanceAs (Decidable (∀ c ∈ w.connections, c.source ∈ w.nodeIDs ∧ c.target ∈ w.nodeIDs))

theorem edge_iff (w : Workflow) (u v : String) :
    Graph.Edge w.edges u v ↔ ∃ c ∈ w.connections, c.source = u ∧ c.target = v := by
  simp [Graph.Edge, edges]

@[simp] theorem length_edges (w : Workflow) : w.edges.length = w.connections.length := by
  simp [edges]

theorem ConnectionsExist.source_mem {w : Workflow} (hw : w.ConnectionsExist) {u v : String}
    (h : Graph.Edge w.edges u v) : u ∈ w.nodeIDs := by
  obtain ⟨c, hc, rfl, -⟩ := (w.edge_iff u v).mp h
  exact (hw c hc).1

theorem ConnectionsExist.target_mem {w : Workflow} (hw : w.ConnectionsExist) {u v : String}
    (h : Graph.Edge w.edges u v) : v ∈ w.nodeIDs := by
  obtain ⟨c, hc, -, rfl⟩ := (w.edge_iff u v).mp h
  exact (hw c hc).2

/-! ## The adjacency map

`Workflow.hasCycle`, `Validator.validateNoCycles`, `Validator.GetTopologicalOrder`,
`DAG.build` and `buildExecutionGraph` all begin with this loop. -/

/-- `graph[conn.Source] = append(graph[conn.Source], conn.Target)` -/
def adjacency (w : Workflow) : GoMap String (List String) := GoMap.group ∅ w.edges

theorem get_adjacency (w : Workflow) (u : String) :
    w.adjacency.get [] u = Graph.succs w.edges u := by
  rw [adjacency, get_group, get_empty, nil_append, Graph.succs]

/-! ## `Workflow.hasCycle` and `Workflow.Validate` -/

/-- The roots are the nodes in list order. -/
def hasCycle (fuel : ℕ) (w : Workflow) : Option Bool :=
  Dfs.hasCycleFrom (fun u => w.adjacency.get [] u) fuel w.nodeIDs Dfs.Marks.none

/-- The connection loop of `Workflow.Validate`. -/
def checkConnections (nodeMap : GoMap String Node) : List Connection → Option String
  | [] => none
  | c :: cs =>
    if c.source ∉ nodeMap then some "invalid connection: source node not found"
    else if c.target ∉ nodeMap then some "invalid connection: target node not found"
    else checkConnections nodeMap cs

/-- The answer is the error, if any. -/
def validate (fuel : ℕ) (w : Workflow) : Option (Except String Unit) :=
  let nodeMap := GoMap.index Node.id ∅ w.nodes
  if ¬ w.nodes.any (fun n => n.type = nodeTypeTrigger) then
    some (.error "workflow must have at least one trigger node")
  else
    match checkConnections nodeMap w.connections with
    | some e => some (.error e)
    | none =>
      match w.hasCycle fuel with
      | none => none
      | some true => some (.error errWorkflowHasCycle)
      | some false => some (.ok ())

theorem checkConnections_eq_none_iff (nodeMap : GoMap String Node) (cs : List Connection) :
    checkConnections nodeMap cs = none ↔ ∀ c ∈ cs, c.source ∈ nodeMap ∧ c.target ∈ nodeMap := by
  induction cs with
  | nil => simp [checkConnections]
  | cons c cs ih =>
    rw [checkConnections]
    by_cases hs : c.source ∈ nodeMap
    · by_cases ht : c.target ∈ nodeMap
      · simp [hs, ht, ih]
      · simp [hs, ht]
    · simp [hs]

theorem mem_nodeMap (w : Workflow) (k : String) :
    k ∈ GoMap.index Node.id ∅ w.nodes ↔ k ∈ w.nodeIDs := by
  simp [mem_index, nodeIDs]

theorem connectionsExist_of_check (w : Workflow)
    (h : checkConnections (GoMap.index Node.id ∅ w.nodes) w.connections = none) :
    w.ConnectionsExist := by
  intro c hc
  have := (checkConnections_eq_none_iff _ _).mp h c hc
  rwa [mem_nodeMap, mem_nodeMap] at this

/-- **`Workflow.hasCycle` decides whether the connections have a closed walk.** -/
theorem hasCycle_correct (w : Workflow) (hw : w.ConnectionsExist) :
    (∀ fuel, w.nodes.length + w.connections.length ≤ fuel → ∃ b, w.hasCycle fuel = some b) ∧
      ∀ fuel b, w.hasCycle fuel = some b → (b = true ↔ Graph.HasClosedWalk w.edges) := by
  have h := Dfs.hasCycleFrom_correct w.edges (fun u => w.adjacency.get [] u) w.get_adjacency
    w.nodeIDs (fun u v huv => hw.source_mem huv)
  refine ⟨fun fuel hfuel => h.1 fuel ?_, h.2⟩
  rw [length_edges, nodeIDs, length_map]
  exact hfuel

/-- `Validate` accepts exactly the workflows with a trigger, existing connection
ends and no closed walk. -/
theorem validate_eq_ok_iff (w : Workflow) (fuel : ℕ)
    (hfuel : w.nodes.length + w.connections.length ≤ fuel) : w.validate fuel = some (.ok ()) ↔
      (∃ n ∈ w.nodes, n.type = nodeTypeTrigger) ∧ w.ConnectionsExist ∧
        ¬ Graph.HasClosedWalk w.edges := by
  unfold validate
  by_cases htrig : ∃ n ∈ w.nodes, n.type = nodeTypeTrigger
  · have hany : w.nodes.any (fun n => n.type = nodeTypeTrigger) = true := by
      simpa [any_eq_true] using htrig
    simp only [hany, not_true_eq_false, if_false, htrig, true_and]
    cases hc : checkConnections (index Node.id ∅ w.nodes) w.connections with
    | some e =>
      have hne : ¬ w.ConnectionsExist := by
        intro hw
        have hnone := (checkConnections_eq_none_iff (index Node.id ∅ w.nodes)
          w.connections).mpr (fun c hcm => by
            rw [mem_nodeMap, mem_nodeMap]; exact hw c hcm)
        rw [hc] at hnone
        exact absurd hnone (by simp)
      simp [hne]
    | none =>
      have hw := w.connectionsExist_of_check hc
      obtain ⟨b, hb⟩ := (hasCycle_correct w hw).1 fuel hfuel
      have hmeans := (hasCycle_correct w hw).2 fuel b hb
      cases b with
      | true => simp [hb, hmeans.mp rfl]
      | false =>
        have hno : ¬ Graph.HasClosedWalk w.edges := fun h => by simpa using hmeans.mpr h
        simp [hb, hw, hno]
  · have hany : ¬ w.nodes.any (fun n => n.type = nodeTypeTrigger) = true := by
      simpa [any_eq_true] using htrig
    simp [hany, htrig]

/-- `Validate` returns: the search for a cycle is only made once the connections are known
to join existing nodes. -/
theorem validate_isSome (w : Workflow) (fuel : ℕ)
    (hfuel : w.nodes.length + w.connections.length ≤ fuel) : (w.validate fuel).isSome := by
  unfold validate
  split
  · rfl
  dsimp only
  cases hc : checkConnections (index Node.id ∅ w.nodes) w.connections with
  | some e => rfl
  | none =>
    obtain ⟨b, hb⟩ := (hasCycle_correct w (w.connectionsExist_of_check hc)).1 fuel hfuel
    dsimp only
    rw [hb]
    cases b with
    | true => rfl
    | false => rfl

/-- What `Validate` returns, run to its end. -/
def validation (w : Workflow) : Except String Unit :=
  (w.validate (w.nodes.length + w.connections.length)).get (w.validate_isSome _ le_rfl)

/-- The workflow passes `Validate`. -/
def Valid (w : Workflow) : Prop := w.validation = .ok ()

instance (w : Workflow) : Decidable w.Valid :=
  match h : w.validation with
  | .ok () => isTrue h
  | .error e => isFalse (by rw [Valid, h]; simp)

theorem valid_iff (w : Workflow) :
    w.Valid ↔ (∃ n ∈ w.nodes, n.type = nodeTypeTrigger) ∧ w.ConnectionsExist ∧
      ¬ Graph.HasClosedWalk w.edges := by
  rw [← w.validate_eq_ok_iff _ le_rfl, Valid, validation, ← Option.some_inj, Option.some_get]

theorem valid_congr {w w' : Workflow} (hn : w.nodes = w'.nodes)
    (hc : w.connections = w'.connections) : w.Valid ↔ w'.Valid := by
  rw [valid_iff, valid_iff, ConnectionsExist, ConnectionsExist, nodeIDs, nodeIDs, edges, edges,
    hn, hc]

/-! ### Renaming the nodes -/

def rename (ρ : String → String) (w : Workflow) : Workflow :=
  { w with
    nodes := w.nodes.map (fun n => { n with id := ρ n.id })
    connections := w.connections.map (fun c =>
      { c with source := ρ c.source, target := ρ c.target }) }

def names (w : Workflow) : Set String :=
  {id | id ∈ w.nodeIDs ∨ ∃ c ∈ w.connections, id = c.source ∨ id = c.target}

section Rename

variable {w : Workflow} {ρ : String → String}

theorem nodeIDs_rename : (w.rename ρ).nodeIDs = w.nodeIDs.map ρ := by
  simp [nodeIDs, rename]

theorem mem_nodeIDs_rename (hρ : Set.InjOn ρ w.names) {id : String} (hid : id ∈ w.names) :
    ρ id ∈ (w.rename ρ).nodeIDs ↔ id ∈ w.nodeIDs := by
  rw [nodeIDs_rename, mem_map]
  constructor
  · rintro ⟨id', hid', heq⟩
    rwa [← hρ (.inl hid') hid heq]
  · exact fun h => ⟨id, h, rfl⟩

theorem checkConnections_rename (hρ : Set.InjOn ρ w.names) {cs : List Connection}
    (hcs : ∀ c ∈ cs, c ∈ w.connections) :
    checkConnections (GoMap.index Node.id ∅ (w.rename ρ).nodes)
        (cs.map (fun c => { c with source := ρ c.source, target := ρ c.target })) =
      checkConnections (GoMap.index Node.id ∅ w.nodes) cs := by
  induction cs with
  | nil => rfl
  | cons c cs ih =>
    have hc := hcs c mem_cons_self
    have hmem : ∀ id, (id = c.source ∨ id = c.target) → (ρ id ∈ index Node.id ∅ (w.rename ρ).nodes ↔
          id ∈ index Node.id ∅ w.nodes) := by
      intro id hid
      rw [mem_nodeMap, mem_nodeMap]
      exact mem_nodeIDs_rename hρ (.inr ⟨c, hc, hid⟩)
    rw [map_cons, checkConnections, checkConnections]
    simp only [hmem c.source (.inl rfl), hmem c.target (.inr rfl),
      ih (fun c' hc' => hcs c' (.tail c hc'))]

theorem edges_rename : (w.rename ρ).edges = w.edges.map (Prod.map ρ ρ) := by
  simp [edges, rename, Prod.map]

theorem hasClosedWalk_rename_iff (hρ : Set.InjOn ρ w.names) :
    Graph.HasClosedWalk (w.rename ρ).edges ↔ Graph.HasClosedWalk w.edges := by
  have hnames : ∀ u, Graph.Touches w.edges u → u ∈ w.names := by
    rintro u ⟨v, h | h⟩
    · obtain ⟨c, hc, -, rfl⟩ := (w.edge_iff _ _).mp h
      exact .inr ⟨c, hc, .inr rfl⟩
    · obtain ⟨c, hc, rfl, -⟩ := (w.edge_iff _ _).mp h
      exact .inr ⟨c, hc, .inl rfl⟩
  rw [edges_rename]
  exact Graph.hasClosedWalk_map_iff (fun u v hu hv heq => hρ (hnames u hu) (hnames v hv) heq)

theorem hasCycle_rename (hρ : Set.InjOn ρ w.names) (hw : w.ConnectionsExist)
    (hw' : (w.rename ρ).ConnectionsExist) {fuel : ℕ}
    (hfuel : w.nodes.length + w.connections.length ≤ fuel) :
    (w.rename ρ).hasCycle fuel = w.hasCycle fuel := by
  obtain ⟨b, hb⟩ := (hasCycle_correct w hw).1 fuel hfuel
  obtain ⟨b', hb'⟩ := (hasCycle_correct (w.rename ρ) hw').1 fuel (by simpa [rename] using hfuel)
  have hiff : b' = true ↔ b = true := by
    rw [(hasCycle_correct _ hw').2 fuel b' hb', (hasCycle_correct _ hw).2 fuel b hb,
      hasClosedWalk_rename_iff hρ]
  rw [hb, hb', Bool.eq_iff_iff.mpr hiff]

/-- Renaming the nodes injectively changes no verdict. -/
theorem validate_rename (hρ : Set.InjOn ρ w.names) {fuel : ℕ}
    (hfuel : w.nodes.length + w.connections.length ≤ fuel) :
    (w.rename ρ).validate fuel = w.validate fuel := by
  have hcheck : checkConnections (index Node.id ∅ (w.rename ρ).nodes)
      (w.rename ρ).connections = checkConnections (index Node.id ∅ w.nodes) w.connections :=
    checkConnections_rename hρ (fun _ hc => hc)
  have htrigger : (w.rename ρ).nodes.any (fun n => n.type = nodeTypeTrigger) =
      w.nodes.any (fun n => n.type = nodeTypeTrigger) := by
    simp [rename, Function.comp_def]
  unfold validate
  dsimp only
  rw [hcheck, htrigger]
  cases hresult : checkConnections (index Node.id ∅ w.nodes) w.connections with
  | some e => rfl
  | none =>
    rw [hasCycle_rename hρ (w.connectionsExist_of_check hresult)
      ((w.rename ρ).connectionsExist_of_check (hcheck.trans hresult)) hfuel]

theorem validation_rename (hρ : Set.InjOn ρ w.names) : (w.rename ρ).validation = w.validation := by
  have hlength : (w.rename ρ).nodes.length + (w.rename ρ).connections.length =
      w.nodes.length + w.connections.length := by
    simp [rename]
  rw [validation, validation, ← Option.some_inj, Option.some_get, Option.some_get, hlength,
    validate_rename hρ le_rfl]

end Rename

theorem Valid.nodes_ne_nil {w : Workflow} (h : w.Valid) : w.nodes ≠ [] := by
  obtain ⟨⟨n, hn, -⟩, -⟩ := w.valid_iff.mp h
  exact ne_nil_of_mem hn

end Workflow

end LinkFlow
