/-
`DAG.Validate`: what a workflow that passes it is known to satisfy.

`validate_answers` says that it returns at all, and `validate_ok` reads four facts
off a nil error, one per stage. The stages
treat disabled nodes differently: a disabled node without incoming connections
is a start node for the reachability check, and the dependency check skips it.
So the start node an enabled node is reached from is a trigger or a webhook, or
it is disabled.
-/
import LinkFlow.DagOrder

set_option autoImplicit false

namespace LinkFlow

open Relation List

/-! ## The stages of `Validate` -/

theorem DAG.validate_ok {ρ : RangeOrder} {fuel : ℕ} {d : DAG}
    (h : d.validate ρ fuel = some (.ok ())) :
    d.hasCycle ρ fuel = some false ∧ (∀ e ∈ d.edges.entries, d.edgeError e = none) ∧
      d.findUnreachableNodes ρ fuel = some [] ∧
      ∀ e ∈ d.nodes.entries, nodeDependencyError (d.countTargets ρ 182 ∅) d e = none := by
  unfold DAG.validate at h
  -- one case split per stage, in the order the source runs them
  cases hcyc : d.hasCycle ρ fuel with
  | none => rw [hcyc] at h; simp at h
  | some b =>
    rw [hcyc] at h
    cases b with
    | true => simp at h
    | false =>
      dsimp only at h
      cases hedge : (ρ.run 71 d.edges.entries).findSome? d.edgeError with
      | some e => rw [hedge] at h; simp at h
      | none =>
        rw [hedge] at h
        dsimp only at h
        have hs : ¬ d.startNodes.length = 0 := fun hs => by simp [hs] at h
        have he : ¬ d.endNodes.length = 0 := fun he => by simp [hs, he] at h
        rw [if_neg hs, if_neg he] at h
        cases hun : d.findUnreachableNodes ρ fuel with
        | none => rw [hun] at h; simp at h
        | some un =>
          rw [hun] at h
          dsimp only at h
          have hlen : ¬ 0 < un.length := fun hlen => by simp [hlen] at h
          obtain rfl : un = [] := length_eq_zero_iff.mp (by omega)
          cases hdep : d.validateNodeDependencies ρ with
          | some e => rw [hdep] at h; simp at h
          | none =>
            refine ⟨rfl, fun e hmem => ?_, rfl, fun e hmem => ?_⟩
            · exact findSome?_eq_none_iff.mp hedge e
                ((ρ.mem_run 71 _ e).mpr hmem)
            · exact findSome?_eq_none_iff.mp hdep e
                ((ρ.mem_run 189 _ e).mpr hmem)

variable (ρ₀ ρ : RangeOrder) (w : Workflow)

theorem connectionsExist_of_edgeError
    (h : ∀ e ∈ (newDAG ρ w).edges.entries, (newDAG ρ w).edgeError e = none) :
    w.ConnectionsExist := by
  intro c hc
  -- the source has an entry in the adjacency map, and its list names the target
  obtain ⟨ts, hts⟩ := (GoMap.mem_iff_entry _ _).mp
    ((mem_newDAG_edges ρ w c.source).mpr ⟨c, hc, rfl⟩)
  have hnone := h ⟨c.source, ts⟩ hts
  unfold DAG.edgeError at hnone
  split_ifs at hnone with hsrc
  rw [Option.map_eq_none_iff, find?_eq_none] at hnone
  have htarget : c.target ∈ ts := by
    have hget : (newDAG ρ w).neighbors c.source = ts := GoMap.get_of_entry [] hts
    rw [← hget, newDAG_neighbors, Graph.mem_succs, w.edge_iff]
    exact ⟨c, hc, rfl, rfl⟩
  have hmem : c.target ∈ (newDAG ρ w).nodes := by
    by_contra hne
    exact hnone c.target htarget (by simpa using hne)
  exact ⟨(mem_newDAG_nodes ρ w _).mp hsrc, (mem_newDAG_nodes ρ w _).mp hmem⟩

theorem mem_findUnreachableNodes (fuel : ℕ) (un : List String)
    (h : (newDAG ρ₀ w).findUnreachableNodes ρ fuel = some un) (id : String) :
    id ∈ un ↔ ∃ n, (newDAG ρ₀ w).nodes.lookup id = some n ∧ n.disabled = false ∧
      ¬ ∃ s ∈ (newDAG ρ₀ w).startNodes, Graph.Reach w.edges s id := by
  unfold DAG.findUnreachableNodes at h
  cases hl : Flood.loop (newDAG ρ₀ w).neighbors fuel
      (Flood.marksOf (newDAG ρ₀ w).startNodes, (newDAG ρ₀ w).startNodes) with
  | none => rw [hl] at h; simp at h
  | some reachable =>
    have hreach := Flood.loop_spec (newDAG_neighbors ρ₀ w) fuel
      (Flood.inv_init w.edges (newDAG ρ₀ w).startNodes) hl
    rw [hl] at h
    cases h
    simp only [mem_map, mem_filter, RangeOrder.mem_run, Bool.and_eq_true,
      decide_eq_true_eq, Bool.not_eq_true']
    constructor
    · rintro ⟨e, ⟨he, hun, hen⟩, rfl⟩
      refine ⟨e.2, GoMap.lookup_of_entry he, hen, fun hr => ?_⟩
      rw [(hreach e.1).mpr hr] at hun
      exact absurd hun (by simp)
    · rintro ⟨n, hn, hen, hno⟩
      refine ⟨⟨id, n⟩, ⟨AList.mem_lookup_iff.mp hn, ?_, hen⟩, rfl⟩
      by_contra hne
      exact hno ((hreach id).mp (by simpa using hne))

theorem DAG.findUnreachableNodes_isSome (fuel : ℕ)
    (hfuel : w.nodes.length + w.connections.length ≤ fuel) :
    ∃ un, (newDAG ρ₀ w).findUnreachableNodes ρ fuel = some un := by
  have hlen : (newDAG ρ₀ w).startNodes.length ≤ w.nodes.length :=
    (filter_sublist.map Sigma.fst).length_le.trans (newDAG_rangeKeys_length_le ρ₀ w ρ₀ 49)
  obtain ⟨reachable, hr⟩ := Flood.loop_returns (newDAG ρ₀ w).startNodes (newDAG_neighbors ρ₀ w)
    fuel (by rw [w.length_edges]; omega)
  unfold findUnreachableNodes
  rw [hr]
  exact ⟨_, rfl⟩

/-- **`Validate` returns on every workflow**, with or without an error. -/
theorem DAG.validate_answers (n : ℕ) :
    ∃ r, (newDAG ρ₀ w).validate ρ (w.nodes.length + w.connections.length + n) = some r := by
  obtain ⟨b, hb⟩ := DAG.hasCycle_isSome ρ₀ ρ w _ (Nat.le_add_right _ n)
  obtain ⟨un, hun⟩ := DAG.findUnreachableNodes_isSome ρ₀ ρ w _ (Nat.le_add_right _ n)
  unfold validate
  rw [hb, hun]
  cases b with
  | true => exact ⟨_, rfl⟩
  | false =>
    -- the other stages answer by themselves
    dsimp only
    repeat' split
    all_goals exact ⟨_, rfl⟩

theorem startNode_entry_or_disabled
    (hdep : ∀ e ∈ (newDAG ρ₀ w).nodes.entries, DAG.nodeDependencyError ((newDAG ρ₀ w).countTargets
      ρ 182 ∅) (newDAG ρ₀ w) e = none) {s : String} {m : Node}
    (hs : (newDAG ρ₀ w).nodes.lookup s = some m)
    (hstart : (∀ c ∈ w.connections, c.target ≠ s) ∨ m.isEntry = true) :
    m.isEntry = true ∨ m.disabled = true := by
  by_contra hne
  rw [not_or] at hne
  obtain ⟨hentry, hdis⟩ := hne
  -- a start node that is no entry has no incoming connection, which the check reports
  have hin : ∀ c ∈ w.connections, c.target ≠ s := hstart.resolve_right hentry
  have hzero : ((newDAG ρ₀ w).countTargets ρ 182 ∅).get 0 s = 0 := by
    rw [get_countTargets, GoMap.get_empty, zero_add, Nat.cast_eq_zero, count_eq_zero]
    intro hmem
    obtain ⟨⟨a, b⟩, hab, rfl⟩ := mem_map.mp hmem
    obtain ⟨c, hc, -, ht⟩ := (w.edge_iff a b).mp hab
    exact hin c hc ht
  have hnone := hdep ⟨s, m⟩ (AList.mem_lookup_iff.mp hs)
  unfold DAG.nodeDependencyError at hnone
  rw [if_neg (by simp [hentry, hdis]), if_pos hzero] at hnone
  exact absurd hnone (by simp)

/-! ## What a validated workflow satisfies -/

/-- Every enabled node is reachable from an enabled trigger or webhook node. -/
def Workflow.EnabledTriggered (ρ : RangeOrder) (w : Workflow) : Prop :=
  ∀ id n, (newDAG ρ w).nodes.lookup id = some n → n.disabled = false →
    ∃ s m, (newDAG ρ w).nodes.lookup s = some m ∧ m.isEntry = true ∧ m.disabled = false ∧
      Graph.Reach w.edges s id

/-- A disabled node feeds an enabled one, and there is no trigger. -/
def disabledHeadWorkflow : Workflow where
  nodes := [{ id := "d", type := "action", disabled := true }, { id := "a", type := "action" }]
  connections := [{ source := "d", target := "a" }]

/-- `Validate` accepts that workflow, although nothing enabled starts it. -/
theorem disabledHeadWorkflow_accepted :
    (newDAG RangeOrder.stored disabledHeadWorkflow).validate RangeOrder.stored 3 = some (.ok ()) ∧
      ¬ disabledHeadWorkflow.EnabledTriggered RangeOrder.stored := by
  refine ⟨by decide, fun h => ?_⟩
  obtain ⟨s, m, hs, hentry, -, -⟩ := h "a" { id := "a", type := "action" } (by decide) rfl
  have hall : ∀ e ∈ (newDAG RangeOrder.stored disabledHeadWorkflow).nodes.entries,
      e.2.isEntry = false := by decide
  have hm := hall ⟨s, m⟩ (AList.mem_lookup_iff.mp hs)
  rw [hentry] at hm
  exact absurd hm (by simp)

/-- **A workflow that passes `Validate`**: every enabled node is reachable from an enabled trigger
or webhook, or from a disabled start; there is no closed walk; and `GetTopologicalOrder` lists every
node once, sources first. -/
theorem validate_ok_spec (w : Workflow) (ρ₀ ρ : RangeOrder) (fuel : ℕ)
    (h : (newDAG ρ₀ w).validate ρ fuel = some (.ok ())) :
    (∀ id n, (newDAG ρ₀ w).nodes.lookup id = some n → n.disabled = false →
      ∃ s m, (newDAG ρ₀ w).nodes.lookup s = some m ∧ Graph.Reach w.edges s id ∧
        ((m.isEntry = true ∧ m.disabled = false) ∨
          (m.disabled = true ∧ (m.isEntry = true ∨ ∀ c ∈ w.connections, c.target ≠ s)))) ∧
    ¬ Graph.HasClosedWalk w.edges ∧
    ∀ ρ₁ fuel₁, w.nodes.length + w.connections.length ≤ fuel₁ →
      ∃ order, (newDAG ρ₀ w).getTopologicalOrder ρ₁ fuel₁ = some (.ok order) ∧
        order.Perm (newDAG ρ₀ w).nodes.keys ∧
        ∀ c ∈ w.connections, Kahn.Before order c.source c.target := by
  obtain ⟨hcyc, hedge, hun, hdep⟩ := DAG.validate_ok h
  have hw : w.ConnectionsExist := connectionsExist_of_edgeError ρ₀ w hedge
  have hacyc : ¬ Graph.HasClosedWalk w.edges := fun hc => by
    simpa using ((DAG.hasCycle_correct ρ₀ ρ w hw).2 fuel false hcyc).mpr hc
  refine ⟨fun id n hn hen => ?_, hacyc, fun ρ₁ fuel₁ hfuel₁ => ?_⟩
  · -- nothing enabled is unreachable, so some start node reaches `id`
    have hreach : ∃ s ∈ (newDAG ρ₀ w).startNodes, Graph.Reach w.edges s id := by
      by_contra hno
      have hmem := (mem_findUnreachableNodes ρ₀ ρ w fuel [] hun id).mpr ⟨n, hn, hen, hno⟩
      exact not_mem_nil hmem
    obtain ⟨s, hs, hsid⟩ := hreach
    obtain ⟨m, hm, hstart⟩ := (mem_startNodes ρ₀ w).mp hs
    refine ⟨s, m, hm, hsid, ?_⟩
    by_cases hdis : m.disabled = true
    · exact .inr ⟨hdis, hstart.symm⟩
    · have hentry := (startNode_entry_or_disabled ρ₀ ρ w hdep hm hstart).resolve_right hdis
      exact .inl ⟨hentry, by simpa using hdis⟩
  · obtain ⟨r, hr⟩ := getTopologicalOrder_isSome ρ₀ ρ₁ w fuel₁ hfuel₁
    obtain ⟨order, rfl⟩ := (getTopologicalOrder_ok_iff ρ₀ ρ₁ w hw fuel₁ r hr).mpr hacyc
    have hnc : ¬ w.Cancelling := by
      intro hc
      have := hw.absentOrderable_card
      have := hc.1
      omega
    obtain ⟨hperm, hbefore⟩ := Workflow.orderContract_of_not_cancelling hnc ρ₀ ρ₁ fuel₁ order hr
    have hlisted : ∀ v ∈ w.nodeIDs, v ∈ order := by
      intro v hv
      rw [hperm.mem_iff, ← AList.mem_keys, mem_newDAG_nodes]
      exact hv
    refine ⟨order, hr, hperm, fun c hc => hbefore c hc ?_ ?_⟩
    · exact hlisted _ (hw c hc).1
    · exact hlisted _ (hw c hc).2

/-- A trigger, a condition with two branches and a merge. -/
def branchWorkflow : Workflow where
  nodes := [{ id := "t", type := "trigger" }, { id := "c", type := "condition" },
    { id := "x", type := "action" }, { id := "m", type := "merge" }]
  connections := [{ source := "t", target := "c" }, { source := "c", target := "x" },
    { source := "c", target := "m" }, { source := "x", target := "m" }]

theorem branchWorkflow_validated :
    (newDAG RangeOrder.stored branchWorkflow).validate RangeOrder.stored 8 = some (.ok ()) ∧
      ¬ Graph.HasClosedWalk branchWorkflow.edges :=
  have hok : (newDAG RangeOrder.stored branchWorkflow).validate RangeOrder.stored 8
      = some (.ok ()) := by decide
  ⟨hok, (validate_ok_spec branchWorkflow RangeOrder.stored RangeOrder.stored 8 hok).2.1⟩

end LinkFlow
