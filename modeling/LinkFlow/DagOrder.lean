/-
`DAG.GetTopologicalOrder`: what it outputs, when its answer is a topological
order of the nodes, and how it relates to `DAG.HasCycle`.

The counters are keyed by the nodes *and* by every connection target, so the
loop also outputs targets that no node has (`graphIDs`); and it never outputs an
ID one of whose ancestors lies on a closed walk or is a source that neither a
node nor a connection target names (`Orderable`). Success is judged by length
alone, so the two effects can cancel.
-/
import LinkFlow.Dag

set_option autoImplicit false

namespace LinkFlow

open Relation List GoMap

namespace Workflow

/-- The IDs the counters of `GetTopologicalOrder` are kept for: the nodes and the
connection targets. -/
def graphIDs (w : Workflow) : Finset String :=
  (w.nodeIDs ++ w.connections.map Connection.target).toFinset

/-- Every ID from which `v` can be reached, `v` included, is a node or a
connection target and lies on no closed walk. -/
def Orderable (w : Workflow) (v : String) : Prop :=
  ∀ u, Graph.Reach w.edges u v → u ∈ w.graphIDs ∧ ¬ TransGen (Graph.Edge w.edges) u u

open Classical in
noncomputable def absentOrderable (w : Workflow) : Finset String :=
  w.graphIDs.filter (fun v => v ∉ w.nodeIDs ∧ w.Orderable v)

open Classical in
noncomputable def stuckNodes (w : Workflow) : Finset String :=
  w.nodeIDs.toFinset.filter (fun v => ¬ w.Orderable v)

theorem mem_absentOrderable (w : Workflow) (v : String) :
    v ∈ w.absentOrderable ↔ v ∈ w.graphIDs ∧ v ∉ w.nodeIDs ∧ w.Orderable v := by
  classical
  rw [absentOrderable, Finset.mem_filter]

theorem mem_stuckNodes (w : Workflow) (v : String) :
    v ∈ w.stuckNodes ↔ v ∈ w.nodeIDs ∧ ¬ w.Orderable v := by
  classical
  rw [stuckNodes, Finset.mem_filter, mem_toFinset]

theorem mem_graphIDs (w : Workflow) (v : String) :
    v ∈ w.graphIDs ↔ v ∈ w.nodeIDs ∨ ∃ u, Graph.Edge w.edges u v := by
  simp only [graphIDs, mem_toFinset, mem_append, mem_map, edge_iff]
  constructor
  · rintro (h | ⟨c, hc, rfl⟩)
    · exact .inl h
    · exact .inr ⟨c.source, c, hc, rfl, rfl⟩
  · rintro (h | ⟨u, c, hc, -, rfl⟩)
    · exact .inl h
    · exact .inr ⟨c, hc, rfl⟩

theorem edge_target_mem_graphIDs (w : Workflow) (u v : String) (h : Graph.Edge w.edges u v) :
    v ∈ w.graphIDs :=
  (w.mem_graphIDs v).mpr (.inr ⟨u, h⟩)

theorem card_graphIDs_le (w : Workflow) :
    w.graphIDs.card ≤ w.nodes.length + w.connections.length := by
  refine le_trans (toFinset_card_le _) ?_
  rw [length_append, nodeIDs, length_map, length_map]

theorem ConnectionsExist.graphIDs_eq {w : Workflow} (hw : w.ConnectionsExist) :
    w.graphIDs = w.nodeIDs.toFinset := by
  ext v
  rw [mem_graphIDs, mem_toFinset]
  exact ⟨fun h => h.elim (fun hv => hv) (fun ⟨_, hu⟩ => hw.target_mem hu), .inl⟩

end Workflow

/-! ## What peeling outputs -/

section Peel

variable {w : Workflow} {ρ : RangeOrder} {line : ℕ} {adj : String → List String}
  {inDegree : GoMap String ℤ}

/-- The counters at the start of the loop are the numbers of incoming connections. -/
theorem inv_peelOrder (hdeg : ∀ v, inDegree.get 0 v = ((w.edges.map Prod.snd).count v : ℤ))
    (hmem : ∀ v, v ∈ inDegree ↔ v ∈ w.graphIDs) : Kahn.Inv w.edges w.graphIDs
      ⟨inDegree, ((ρ.run line inDegree.entries).filter (fun e => e.2 = 0)).map Sigma.fst, []⟩ := by
  refine Kahn.inv_init hdeg ?_ (fun v => ?_)
  · have hsub : (((ρ.run line inDegree.entries).filter (fun e => e.2 = 0)).map Sigma.fst).Sublist
        (rangeKeys ρ line inDegree) := filter_sublist.map Sigma.fst
    exact hsub.nodup (rangeKeys_nodup ρ line inDegree)
  · rw [← hmem v]
    simp only [mem_map, mem_filter, RangeOrder.mem_run, decide_eq_true_eq]
    constructor
    · rintro ⟨e, ⟨he, h0⟩, rfl⟩
      exact ⟨(mem_iff_entry _ _).mpr ⟨e.2, he⟩, by rw [get_of_entry 0 he, h0]⟩
    rintro ⟨hv, h0⟩
    obtain ⟨x, hx⟩ := (mem_iff_entry _ _).mp hv
    refine ⟨⟨v, x⟩, ⟨hx, ?_⟩, rfl⟩
    rw [← h0, get_of_entry 0 hx]

/-- The loop outputs every orderable ID once, sources first; the answer compares its length with
`numNodes`. -/
theorem peelOrder_spec (hdeg : ∀ v, inDegree.get 0 v = ((w.edges.map Prod.snd).count v : ℤ))
    (hmem : ∀ v, v ∈ inDegree ↔ v ∈ w.graphIDs) (hadj : ∀ u, adj u = Graph.succs w.edges u)
    {fuel numNodes : ℕ} {r : Except String (List String)}
    (h : peelOrder ρ line fuel adj inDegree numNodes = some r) :
    ∃ R : List String, R.Nodup ∧ Kahn.Ordered w.edges R ∧
      (∀ v, v ∈ R ↔ v ∈ w.graphIDs ∧ w.Orderable v) ∧
      r = if R.length = numNodes then .ok R else .error errWorkflowHasCycle := by
  unfold peelOrder at h
  dsimp only at h
  cases hl : Kahn.loop adj fuel ⟨inDegree,
      ((ρ.run line inDegree.entries).filter (fun e => e.2 = 0)).map Sigma.fst, []⟩ with
  | none => rw [hl] at h; simp at h
  | some s =>
    rw [hl] at h
    dsimp only at h
    obtain ⟨hinv, hq⟩ := (inv_peelOrder hdeg hmem).loop w.edge_target_mem_graphIDs hadj fuel hl
    obtain ⟨hnd, hord, hout⟩ := hinv.result_spec hq
    refine ⟨s.result, hnd, hord, hout, ?_⟩
    by_cases hlen : s.result.length = numNodes
    · rw [if_neg (by simpa using hlen)] at h
      rw [if_pos hlen]
      exact (Option.some.inj h).symm
    · rw [if_pos hlen] at h
      rw [if_neg hlen]
      exact (Option.some.inj h).symm

theorem peelOrder_isSome (hdeg : ∀ v, inDegree.get 0 v = ((w.edges.map Prod.snd).count v : ℤ))
    (hmem : ∀ v, v ∈ inDegree ↔ v ∈ w.graphIDs) (hadj : ∀ u, adj u = Graph.succs w.edges u)
    {fuel : ℕ} (hfuel : w.nodes.length + w.connections.length ≤ fuel) (numNodes : ℕ) :
    ∃ r, peelOrder ρ line fuel adj inDegree numNodes = some r := by
  have hcard := w.card_graphIDs_le
  have hinit : Kahn.Inv w.edges w.graphIDs
      ⟨inDegree, ((ρ.run line inDegree.entries).filter (fun e => e.2 = 0)).map Sigma.fst, []⟩ :=
    inv_peelOrder hdeg hmem
  obtain ⟨s, hs⟩ := Kahn.loop_isSome w.edge_target_mem_graphIDs hadj fuel hinit
    (by dsimp only [length_nil]; omega)
  unfold peelOrder
  dsimp only
  rw [hs]
  dsimp only
  split_ifs
  · exact ⟨_, rfl⟩
  · exact ⟨_, rfl⟩

end Peel

section Order

variable (ρ₀ ρ : RangeOrder) (w : Workflow)

theorem get_inDegrees (v : String) :
    ((newDAG ρ₀ w).inDegrees ρ).get 0 v = ((w.edges.map Prod.snd).count v : ℤ) := by
  rw [DAG.inDegrees, get_countTargets, get_zeros, zero_add]

theorem mem_inDegrees (v : String) : v ∈ (newDAG ρ₀ w).inDegrees ρ ↔ v ∈ w.graphIDs := by
  rw [DAG.inDegrees, DAG.countTargets, mem_bump, mem_zeros, mem_rangeKeys,
    mem_newDAG_nodes, w.mem_graphIDs]
  have htargets : v ∈ (ρ.run 225 (newDAG ρ₀ w).edges.entries).flatMap Sigma.snd ↔
      ∃ u, Graph.Edge w.edges u v := by
    rw [← count_pos_iff, newDAG_targets_count, count_pos_iff]
    simp [Graph.Edge]
  rw [htargets]
  exact or_comm

/-- **What `GetTopologicalOrder` computes.** -/
theorem getTopologicalOrder_spec (fuel : ℕ) (r : Except String (List String))
    (h : (newDAG ρ₀ w).getTopologicalOrder ρ fuel = some r) :
    ∃ R : List String, R.Nodup ∧ Kahn.Ordered w.edges R ∧
      (∀ v, v ∈ R ↔ v ∈ w.graphIDs ∧ w.Orderable v) ∧
      r = if R.length = w.nodeIDs.toFinset.card then .ok R else .error errWorkflowHasCycle := by
  rw [← newDAG_len_eq_card ρ₀ w]
  exact peelOrder_spec (get_inDegrees ρ₀ ρ w) (mem_inDegrees ρ₀ ρ w) (newDAG_neighbors ρ₀ w) h

theorem getTopologicalOrder_isSome (fuel : ℕ)
    (hfuel : w.nodes.length + w.connections.length ≤ fuel) :
    ∃ r, (newDAG ρ₀ w).getTopologicalOrder ρ fuel = some r :=
  peelOrder_isSome (get_inDegrees ρ₀ ρ w) (mem_inDegrees ρ₀ ρ w) (newDAG_neighbors ρ₀ w) hfuel _

end Order

/-! ## When the answer is a topological order of the nodes -/

namespace Workflow

/-- Without error the list holds every node ID once and nothing else, sources of connections before
targets. -/
def OrderContract (w : Workflow) : Prop :=
  ∀ (ρ₀ ρ : RangeOrder) (fuel : ℕ) (order : List String),
    (newDAG ρ₀ w).getTopologicalOrder ρ fuel = some (.ok order) →
      order.Perm (newDAG ρ₀ w).nodes.keys ∧
        ∀ c ∈ w.connections, c.source ∈ order → c.target ∈ order →
          Kahn.Before order c.source c.target

open Classical in
/-- The output is the nodes, less the stuck and plus the absent ones: its length is right exactly
when these are equally many. -/
theorem card_orderable (w : Workflow) :
    (w.graphIDs.filter (fun v => w.Orderable v)).card + w.stuckNodes.card
      = w.nodeIDs.toFinset.card + w.absentOrderable.card := by
  have hnodes : ∀ v, v ∈ w.nodeIDs → v ∈ w.graphIDs := fun v hv =>
    (w.mem_graphIDs v).mpr (.inl hv)
  have hout : w.graphIDs.filter (fun v => w.Orderable v)
      = w.nodeIDs.toFinset.filter (fun v => w.Orderable v) ∪ w.absentOrderable := by
    ext v
    simp only [absentOrderable, Finset.mem_filter, Finset.mem_union, mem_toFinset]
    by_cases hv : v ∈ w.nodeIDs
    · simp [hv, hnodes v hv]
    · simp [hv]
  have hdisj : Disjoint (w.nodeIDs.toFinset.filter (fun v => w.Orderable v)) w.absentOrderable := by
    rw [Finset.disjoint_left]
    intro v hv habs
    have hnode := mem_toFinset.mp (Finset.mem_filter.mp hv).1
    exact (Finset.mem_filter.mp habs).2.1 hnode
  have hsplit := Finset.card_filter_add_card_filter_not (s := w.nodeIDs.toFinset)
    (fun v => w.Orderable v)
  have hstuck : w.stuckNodes = w.nodeIDs.toFinset.filter (fun v => ¬ w.Orderable v) := rfl
  rw [hout, Finset.card_union_of_disjoint hdisj, hstuck]
  omega

open Classical in
theorem length_output (w : Workflow) {R : List String} (hnd : R.Nodup)
    (hR : ∀ v, v ∈ R ↔ v ∈ w.graphIDs ∧ w.Orderable v) :
    R.length + w.stuckNodes.card = w.nodeIDs.toFinset.card + w.absentOrderable.card := by
  have hset : R.toFinset = w.graphIDs.filter (fun v => w.Orderable v) := by
    ext v
    rw [mem_toFinset, hR v, Finset.mem_filter]
  rw [← w.card_orderable, ← hset, toFinset_card_of_nodup hnd]

/-- The length test is fooled: there are absent orderable targets, as many as stuck nodes. -/
def Cancelling (w : Workflow) : Prop :=
  0 < w.absentOrderable.card ∧ w.absentOrderable.card = w.stuckNodes.card

/-- Surplus IDs that make up for missing nodes break the contract. -/
theorem OrderContract.not_cancelling {w : Workflow} (hcontract : w.OrderContract) :
    ¬ w.Cancelling := by
  rintro ⟨hpos, heq⟩
  obtain ⟨r, hr⟩ := getTopologicalOrder_isSome RangeOrder.stored RangeOrder.stored w _ le_rfl
  obtain ⟨R, hnd, -, hR, hres⟩ := getTopologicalOrder_spec _ _ w _ r hr
  have hlen := w.length_output hnd hR
  rw [if_pos (by omega)] at hres
  subst hres
  -- the absent ID is output, and the contract would make it a node
  obtain ⟨g, hg⟩ := Finset.card_pos.mp hpos
  obtain ⟨hgK, hgabs, hgord⟩ := (w.mem_absentOrderable g).mp hg
  have hmem : g ∈ (newDAG RangeOrder.stored w).nodes.keys :=
    (hcontract _ _ _ R hr).1.mem_iff.mp ((hR g).mpr ⟨hgK, hgord⟩)
  exact hgabs ((mem_newDAG_nodes _ w g).mp (AList.mem_keys.mpr hmem))

/-- Without such IDs an answer of the right length lists the nodes and nothing else. -/
theorem mem_output_iff (w : Workflow) (hw : ¬ w.Cancelling) {R : List String} (hnd : R.Nodup)
    (hR : ∀ v, v ∈ R ↔ v ∈ w.graphIDs ∧ w.Orderable v)
    (hsucc : R.length = w.nodeIDs.toFinset.card) (v : String) : v ∈ R ↔ v ∈ w.nodeIDs := by
  have hlen := w.length_output hnd hR
  -- equal sizes and no cancelling: both sets are empty
  have habs : w.absentOrderable.card = 0 := by
    by_contra hne
    exact hw ⟨by omega, by omega⟩
  have hstuck : w.stuckNodes.card = 0 := by omega
  rw [hR v]
  constructor
  · rintro ⟨hvK, hvo⟩
    by_contra hv
    have hmem : v ∈ w.absentOrderable := (w.mem_absentOrderable v).mpr ⟨hvK, hv, hvo⟩
    rw [Finset.card_eq_zero.mp habs] at hmem
    exact Finset.notMem_empty v hmem
  · intro hv
    refine ⟨(w.mem_graphIDs v).mpr (.inl hv), ?_⟩
    by_contra hvo
    have hmem : v ∈ w.stuckNodes := (w.mem_stuckNodes v).mpr ⟨hv, hvo⟩
    rw [Finset.card_eq_zero.mp hstuck] at hmem
    exact Finset.notMem_empty v hmem

theorem orderContract_of_not_cancelling {w : Workflow} (hw : ¬ w.Cancelling) : w.OrderContract := by
  intro ρ₀ ρ fuel order h
  obtain ⟨R, hnd, hord, hR, hres⟩ := getTopologicalOrder_spec ρ₀ ρ w fuel _ h
  split_ifs at hres with hsucc
  obtain rfl : order = R := by simpa using hres
  refine ⟨?_, fun c hc _ ht => ?_⟩
  · refine (perm_ext_iff_of_nodup hnd (newDAG ρ₀ w).nodes.keys_nodup).mpr (fun v => ?_)
    rw [w.mem_output_iff hw hnd hR hsucc, ← AList.mem_keys, mem_newDAG_nodes]
  · obtain ⟨l₁, l₂, rfl⟩ := append_of_mem ht
    exact ⟨l₁, l₂, rfl, hord l₁ c.target l₂ rfl c.source
      ((w.edge_iff _ _).mpr ⟨c, hc, rfl, rfl⟩)⟩

/-- **`GetTopologicalOrder` keeps its contract exactly when the length test cannot be fooled.** -/
theorem orderContract_iff (w : Workflow) : w.OrderContract ↔
      ¬ (0 < w.absentOrderable.card ∧ w.absentOrderable.card = w.stuckNodes.card) :=
  ⟨fun h => h.not_cancelling, orderContract_of_not_cancelling⟩

def cancellingWorkflow : Workflow where
  nodes := [{ id := "a", type := "action" }, { id := "b", type := "action" }]
  connections := [{ source := "a", target := "ghost" }, { source := "b", target := "b" }]

/-- On that workflow the answer is `[a, ghost]`: the absent ID is listed and the
node on the self loop is not. -/
theorem cancellingWorkflow_breaks_contract : ¬ cancellingWorkflow.OrderContract := by
  intro hcontract
  have hrun : (newDAG RangeOrder.stored cancellingWorkflow).getTopologicalOrder
      RangeOrder.stored 2 = some (.ok ["a", "ghost"]) := by decide
  have hperm := (hcontract _ _ _ _ hrun).1
  have hb : "b" ∈ (newDAG RangeOrder.stored cancellingWorkflow).nodes.keys := by decide
  exact absurd (hperm.mem_iff.mpr hb) (by decide)

end Workflow

/-! ## Peeling and depth-first search agree -/

theorem Workflow.ConnectionsExist.absentOrderable_card {w : Workflow} (hw : w.ConnectionsExist) :
    w.absentOrderable.card = 0 := by
  rw [Finset.card_eq_zero, Finset.eq_empty_iff_forall_notMem]
  intro v hv
  obtain ⟨hvK, hvn, -⟩ := (w.mem_absentOrderable v).mp hv
  rw [hw.graphIDs_eq, mem_toFinset] at hvK
  exact hvn hvK

theorem DAG.hasCycle_isSome (ρ₀ ρ : RangeOrder) (w : Workflow) (fuel : ℕ)
    (hfuel : w.nodes.length + w.connections.length ≤ fuel) :
    ∃ b, (newDAG ρ₀ w).hasCycle ρ fuel = some b := by
  have hlen := newDAG_rangeKeys_length_le ρ₀ w ρ 130
  exact Dfs.hasCycleFrom_returns w.edges (newDAG_neighbors ρ₀ w) _ fuel
    (by rw [w.length_edges]; omega)

theorem DAG.hasCycle_correct (ρ₀ ρ : RangeOrder) (w : Workflow) (hw : w.ConnectionsExist) :
    (∀ fuel, w.nodes.length + w.connections.length ≤ fuel →
      ∃ b, (newDAG ρ₀ w).hasCycle ρ fuel = some b) ∧
    ∀ fuel b, (newDAG ρ₀ w).hasCycle ρ fuel = some b →
      (b = true ↔ Graph.HasClosedWalk w.edges) := by
  have h := Dfs.hasCycleFrom_correct w.edges (newDAG ρ₀ w).neighbors (newDAG_neighbors ρ₀ w)
    (rangeKeys ρ 130 (newDAG ρ₀ w).nodes) (fun u v huv => by
      rw [mem_rangeKeys, mem_newDAG_nodes]; exact hw.source_mem huv)
  exact ⟨DAG.hasCycle_isSome ρ₀ ρ w, h.2⟩

/-- With existing connection ends the answer is a list exactly when there is no closed walk. -/
theorem getTopologicalOrder_ok_iff (ρ₀ ρ : RangeOrder) (w : Workflow) (hw : w.ConnectionsExist)
    (fuel : ℕ) (r : Except String (List String))
    (h : (newDAG ρ₀ w).getTopologicalOrder ρ fuel = some r) :
    (∃ order, r = .ok order) ↔ ¬ Graph.HasClosedWalk w.edges := by
  obtain ⟨R, hnd, -, hR, hres⟩ := getTopologicalOrder_spec ρ₀ ρ w fuel r h
  have hlen := w.length_output hnd hR
  have habs := hw.absentOrderable_card
  constructor
  · rintro ⟨order, rfl⟩ ⟨v, hv⟩
    split_ifs at hres with hsucc
    have hstuck : w.stuckNodes.card = 0 := by omega
    -- the vertex of the closed walk is a node, and it is stuck
    obtain ⟨u, hvu, -⟩ := TransGen.head'_iff.mp hv
    have hmem : v ∈ w.stuckNodes := by
      refine (w.mem_stuckNodes v).mpr ⟨hw.source_mem hvu, ?_⟩
      exact fun hord => (hord v ReflTransGen.refl).2 hv
    rw [Finset.card_eq_zero.mp hstuck] at hmem
    exact Finset.notMem_empty v hmem
  · -- without a closed walk only an ancestor outside the nodes could make a node stuck
    intro hacyc
    have hstuck : w.stuckNodes.card = 0 := by
      rw [Finset.card_eq_zero, Finset.eq_empty_iff_forall_notMem]
      intro v hv
      obtain ⟨hvn, hvo⟩ := (w.mem_stuckNodes v).mp hv
      refine hvo (fun u huv => ⟨?_, fun hcyc => hacyc ⟨u, hcyc⟩⟩)
      rw [hw.graphIDs_eq, mem_toFinset]
      rcases ReflTransGen.cases_head huv with rfl | ⟨x, hux, -⟩
      · exact hvn
      · exact hw.source_mem hux
    exact ⟨R, by rw [hres, if_pos (by omega)]⟩

/-- **Kahn's loop and the depth-first search agree** on which workflows can be
ordered, whatever the map orders of the two calls. -/
theorem getTopologicalOrder_succeeds_iff_not_hasCycle (w : Workflow) (hw : w.ConnectionsExist)
    (ρ₀ ρ₁ ρ₂ : RangeOrder) (fuel : ℕ) (hfuel : w.nodes.length + w.connections.length ≤ fuel) :
    (∃ order, (newDAG ρ₀ w).getTopologicalOrder ρ₁ fuel = some (.ok order)) ↔
      (newDAG ρ₀ w).hasCycle ρ₂ fuel = some false := by
  obtain ⟨r, hr⟩ := getTopologicalOrder_isSome ρ₀ ρ₁ w fuel hfuel
  obtain ⟨b, hb⟩ := (DAG.hasCycle_correct ρ₀ ρ₂ w hw).1 fuel hfuel
  have hcyc := (DAG.hasCycle_correct ρ₀ ρ₂ w hw).2 fuel b hb
  have hord := getTopologicalOrder_ok_iff ρ₀ ρ₁ w hw fuel r hr
  rw [hr, hb]
  simp only [Option.some.injEq]
  rw [hord, ← hcyc]
  simp

/-- A chain of two nodes: both sides hold. -/
def chainWorkflow : Workflow where
  nodes := [{ id := "a", type := "trigger" }, { id := "b", type := "action" }]
  connections := [{ source := "a", target := "b" }]

theorem chainWorkflow_ordered : chainWorkflow.ConnectionsExist ∧
      ((∃ order, (newDAG RangeOrder.stored chainWorkflow).getTopologicalOrder
          RangeOrder.stored 3 = some (.ok order)) ↔
        (newDAG RangeOrder.stored chainWorkflow).hasCycle RangeOrder.stored 3 = some false) :=
  ⟨by decide, getTopologicalOrder_succeeds_iff_not_hasCycle chainWorkflow (by decide)
    RangeOrder.stored RangeOrder.stored RangeOrder.stored 3 (by decide)⟩

end LinkFlow
