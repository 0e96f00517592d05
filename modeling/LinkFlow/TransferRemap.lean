/-
Importing with new node IDs.

With `RemapIDs` every node ID of the export is mapped to a fresh UUID, otherwise to itself, and
the same map is applied to the ends of the connections. An end that is no node ID is not in the
map and becomes empty, in both imports. So the two workflows are the same up to the map
(`remap_renames`), and `Workflow.Validate`, which only compares IDs, answers the same for both
(`Workflow.validation_rename`).
-/
import LinkFlow.TransferRoundTrip

set_option autoImplicit false

namespace LinkFlow.Transfer

open List

/-! ## The map -/

section Map

variable {env : ImportEnv} {nodes : List NodeExport} {id : String}

theorem remapped_of_mem (env : ImportEnv) (hid : id ∈ nodes.map NodeExport.id) :
    ∃ i n, nodes[i]? = some n ∧ n.id = id ∧
      (nodeIDMap env true nodes).get "" id = env.uuid (i + 1) := by
  have hmem : id ∈ nodeIDMap env true nodes := by
    obtain ⟨n, hn, rfl⟩ := mem_map.mp hid
    obtain ⟨i, hi⟩ := mem_iff_getElem?.mp hn
    rw [nodeIDMap, if_pos rfl, GoMap.mem_ofPairs]
    exact ⟨(n.id, env.uuid (i + 1)),
      mem_map.mpr ⟨(n, i), mk_mem_zipIdx_iff_getElem?.mpr hi, rfl⟩, rfl⟩
  obtain ⟨v, hv⟩ := Option.isSome_iff_exists.mp (AList.lookup_isSome.mpr hmem)
  rw [nodeIDMap, if_pos rfl] at hv
  obtain ⟨⟨n, i⟩, hni, heq⟩ := mem_map.mp (GoMap.mem_of_lookup_ofPairs hv)
  cases heq
  refine ⟨i, n, mk_mem_zipIdx_iff_getElem?.mp hni, rfl, ?_⟩
  rw [nodeIDMap, if_pos rfl, GoMap.get, hv, Option.getD_some]

theorem remapped_of_not_mem (hid : id ∉ nodes.map NodeExport.id) :
    (nodeIDMap env true nodes).get "" id = "" := by
  have hmem : id ∉ nodeIDMap env true nodes := by
    rw [nodeIDMap, if_pos rfl, GoMap.mem_ofPairs]
    rintro ⟨e, he, rfl⟩
    obtain ⟨⟨n, i⟩, hni, rfl⟩ := mem_map.mp he
    exact hid (mem_map.mpr ⟨n, mem_of_getElem? (mk_mem_zipIdx_iff_getElem?.mp hni), rfl⟩)
  rw [GoMap.get, AList.lookup_eq_none.mpr hmem, Option.getD_none]

theorem remapped_injOn (huuid : Function.Injective env.uuid) (hempty : ∀ i, env.uuid i ≠ "")
    (hnodes : ∀ n ∈ nodes, n.id ≠ "") : Set.InjOn ((nodeIDMap env true nodes).get "")
      {id | id ∈ nodes.map NodeExport.id ∨ id = ""} := by
  have hnil : (nodeIDMap env true nodes).get "" "" = "" := by
    refine remapped_of_not_mem (fun h => ?_)
    obtain ⟨n, hn, hid⟩ := mem_map.mp h
    exact hnodes n hn hid
  rintro id (hid | rfl) id' (hid' | rfl) heq
  · obtain ⟨i, n, hn, rfl, hget⟩ := remapped_of_mem env hid
    obtain ⟨j, n', hn', rfl, hget'⟩ := remapped_of_mem env hid'
    rw [hget, hget'] at heq
    obtain rfl : i = j := Nat.succ_injective (huuid heq)
    rw [hn, Option.some.injEq] at hn'
    rw [hn']
  · obtain ⟨i, n, -, -, hget⟩ := remapped_of_mem env hid
    exact absurd (hget.symm.trans (heq.trans hnil)) (hempty _)
  · obtain ⟨i, n, -, -, hget⟩ := remapped_of_mem env hid'
    exact absurd (hget.symm.trans (heq.symm.trans hnil)) (hempty _)
  · rfl

end Map

/-! ## The two workflows -/

/-- The IDs of the nodes. -/
def Workflow.nodeIDs (wf : Workflow) : List String := wf.nodes.map Node.id

def Connection.unnamed (c : Connection) : Connection := { c with id := "" }

/-- `wf'` is `wf` with its node IDs renamed by `ρ`, but for the workflow's ID, the connections' IDs
and the timestamps. -/
structure Workflow.RenamedTo (ρ : String → String) (wf wf' : Workflow) : Prop where
  injective : Set.InjOn ρ wf.checked.names
  nodes : wf'.nodes = wf.nodes.map (fun n => { n with id := ρ n.id })
  connections : wf'.connections.map Connection.unnamed = wf.connections.map (fun c =>
      { c.unnamed with source := ρ c.source, target := ρ c.target })
  rest : { wf' with
      id := wf.id, nodes := wf.nodes, connections := wf.connections
      createdAt := wf.createdAt, updatedAt := wf.updatedAt } = wf
  dangling : ∀ c ∈ wf.connections, ∀ id ∈ [c.source, c.target], ρ id ∈ wf'.nodeIDs ↔ id ∈ wf.nodeIDs
  validation : wf'.checked.validation = wf.checked.validation

section Remap

variable {env env' : ImportEnv} {e : WorkflowExport} {options : ImportOptions}

theorem get_remapped (hnodes : ∀ n ∈ e.nodes, n.id ≠ "") (id : String) :
    (nodeIDMap env' true e.nodes).get "" ((nodeIDMap env false e.nodes).get "" id) =
      (nodeIDMap env' true e.nodes).get "" id := by
  rw [get_nodeIDMap]
  split_ifs with hid
  · rfl
  rw [remapped_of_not_mem hid]
  refine remapped_of_not_mem (fun h => ?_)
  obtain ⟨n, hn, hn'⟩ := mem_map.mp h
  exact hnodes n hn hn'

theorem nodeIDs_checked (wf : Workflow) : wf.checked.nodeIDs = wf.nodeIDs := by
  simp [Workflow.checked, LinkFlow.Workflow.nodeIDs, Workflow.nodeIDs]

theorem names_workflowOf (hremap : options.remapIDs = false) {id : String}
    (hid : id ∈ (e.workflowOf env options).checked.names) :
    id ∈ e.nodes.map NodeExport.id ∨ id = "" := by
  have hget : ∀ x, (nodeIDMap env false e.nodes).get "" x ∈ e.nodes.map NodeExport.id ∨
      (nodeIDMap env false e.nodes).get "" x = "" := by
    intro x
    rw [get_nodeIDMap]
    split_ifs with hx
    · exact .inl hx
    · exact .inr rfl
  rcases hid with hid | ⟨c, hc, hid⟩
  · rw [nodeIDs_checked] at hid
    simp only [Workflow.nodeIDs, WorkflowExport.workflowOf, hremap, map_map] at hid
    obtain ⟨n, -, rfl⟩ := mem_map.mp hid
    exact hget n.id
  · simp only [Workflow.checked, WorkflowExport.workflowOf, hremap, map_map] at hc
    obtain ⟨p, -, rfl⟩ := mem_map.mp hc
    rcases hid with rfl | rfl
    · exact hget p.1.source
    · exact hget p.1.target

theorem nodes_remap (env : ImportEnv) (hnodes : ∀ n ∈ e.nodes, n.id ≠ "")
    (hremap : options.remapIDs = false) :
    (e.workflowOf env' { options with remapIDs := true }).nodes =
      (e.workflowOf env options).nodes.map (fun n =>
        { n with id := (nodeIDMap env' true e.nodes).get "" n.id }) := by
  simp only [WorkflowExport.workflowOf, hremap, map_map]
  refine map_congr_left (fun n _ => ?_)
  simp only [Function.comp_apply, NodeExport.toNode, get_remapped hnodes]

theorem connections_remap (env : ImportEnv) (hnodes : ∀ n ∈ e.nodes, n.id ≠ "")
    (hremap : options.remapIDs = false) :
    (e.workflowOf env' { options with remapIDs := true }).connections.map Connection.unnamed =
      (e.workflowOf env options).connections.map (fun c => { c.unnamed with
          source := (nodeIDMap env' true e.nodes).get "" c.source,
          target := (nodeIDMap env' true e.nodes).get "" c.target }) := by
  simp only [WorkflowExport.workflowOf, hremap, map_map]
  refine map_congr_left (fun p _ => ?_)
  simp only [Function.comp_apply, ConnectionExport.toConnection, Connection.unnamed,
    get_remapped hnodes]

theorem checked_remap (env : ImportEnv) (hnodes : ∀ n ∈ e.nodes, n.id ≠ "")
    (hremap : options.remapIDs = false) :
    (e.workflowOf env' { options with remapIDs := true }).checked =
      (e.workflowOf env options).checked.rename ((nodeIDMap env' true e.nodes).get "") := by
  simp only [Workflow.checked, LinkFlow.Workflow.rename, WorkflowExport.workflowOf, hremap, map_map]
  congr 1
  · refine map_congr_left (fun n _ => ?_)
    simp only [Function.comp_apply, NodeExport.toNode, get_remapped hnodes]
  · refine map_congr_left (fun p _ => ?_)
    simp only [Function.comp_apply, ConnectionExport.toConnection, get_remapped hnodes]

/-- The two imports differ by that renaming alone. -/
theorem renamedTo_remap (env : ImportEnv) (huuid : Function.Injective env'.uuid)
    (hempty : ∀ i, env'.uuid i ≠ "") (hnodes : ∀ n ∈ e.nodes, n.id ≠ "")
    (hremap : options.remapIDs = false) :
    (e.workflowOf env options).RenamedTo ((nodeIDMap env' true e.nodes).get "")
      (e.workflowOf env' { options with remapIDs := true }) := by
  have hinjective : Set.InjOn ((nodeIDMap env' true e.nodes).get "")
      (e.workflowOf env options).checked.names :=
    (remapped_injOn huuid hempty hnodes).mono (fun id hid => names_workflowOf hremap hid)
  refine ⟨hinjective, nodes_remap env hnodes hremap, connections_remap env hnodes hremap, rfl,
    ?_, ?_⟩
  · intro c hc id hid
    rw [← nodeIDs_checked, ← nodeIDs_checked, checked_remap env hnodes hremap]
    refine LinkFlow.Workflow.mem_nodeIDs_rename hinjective (.inr ⟨_, mem_map_of_mem hc, ?_⟩)
    simpa using hid
  · rw [checked_remap env hnodes hremap]
    exact LinkFlow.Workflow.validation_rename hinjective

end Remap

/-- The two imports fail in the same way, or the second workflow is the first one renamed. -/
def SameResult : Except String Workflow → Except String Workflow → Prop
  | .error err, .error err' => err = err'
  | .ok wf, .ok wf' => ∃ ρ, wf.RenamedTo ρ wf'
  | _, _ => False

/-- **Importing with `RemapIDs` renames the nodes, and does nothing else.** -/
theorem remap_renames [Yaml] (formatTime : ℤ → String) (t : TextFormat) (env env' : ImportEnv)
    (huuid : Function.Injective env'.uuid) (hempty : ∀ i, env'.uuid i ≠ "") (e : WorkflowExport)
    (hnodes : ∀ n ∈ e.nodes, n.id ≠ "") (options : ImportOptions)
    (hremap : options.remapIDs = false) : SameResult (importWorkflow formatTime env t e options)
      (importWorkflow formatTime env' t e { options with remapIDs := true }) := by
  have hnodes' : ∀ n ∈ (e.read formatTime t).nodes, n.id ≠ "" := by
    intro n' hn'
    obtain ⟨n, hn, rfl⟩ := mem_map.mp hn'
    exact hnodes n hn
  have hrenamed := renamedTo_remap env huuid hempty hnodes' hremap
  unfold importWorkflow createWorkflowFromExport
  dsimp only
  split_ifs
  · rfl
  · rw [hrenamed.validation]
    cases (((e.read formatTime t).workflowOf env options).checked.validation) with
    | error err => rfl
    | ok u => exact ⟨_, hrenamed⟩
  · exact ⟨_, hrenamed⟩

/-- An export with two nodes of one ID and a connection that leads nowhere. -/
def tangled : WorkflowExport where
  version := "1.0.0"
  exportedAt := 0
  workflow := { name := "tangled" }
  nodes := [{ id := "t", type := "trigger" }, { id := "a", type := "code" },
    { id := "a", type := "code" }]
  connections := [{ source := "t", target := "a" }, { source := "a", target := "gone" }]

/-- UUIDs that are all different and not empty. -/
def unaryEnv : ImportEnv := { uuid := fun n => String.ofList (List.replicate (n + 1) 'u') }

theorem tangled_remapped : SameResult (importWorkflow (fun _ => "") unaryEnv .json tangled {})
      (importWorkflow (fun _ => "") unaryEnv .json tangled { remapIDs := true }) := by
  refine remap_renames (fun _ => "") .json unaryEnv unaryEnv ?_ ?_ tangled (by decide) {} rfl
  · intro m n heq
    have hlength := congrArg String.length heq
    simpa [unaryEnv] using hlength
  · intro i heq
    have hlength := congrArg String.length heq
    simp [unaryEnv] at hlength

end LinkFlow.Transfer
