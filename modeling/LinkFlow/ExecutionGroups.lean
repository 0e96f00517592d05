/-
`BuildExecutionGraph` of `pkg/contracts/workflow/execution.go` and its parallel groups.

The targets of connections are put into groups by a key: their sources, in the order of the
connections and each with a comma after it. The key is meant to stand for the set of sources. The
groups are right exactly if targets have the same text there whenever they have the same set of
sources, and only then (`parallelGroups_right_iff`). Without commas in the IDs that means that
targets with the same sources list them in the same order and equally often
(`groupsRight_iff_of_no_comma`).
-/
import LinkFlow.Workflow

set_option autoImplicit false

namespace LinkFlow

open List GoMap

structure ParallelExecutionGroup where
  id : String
  nodeIDs : List String
  maxConcurrency : ℤ
deriving DecidableEq, Repr

/-- Of a dependency the sources are kept, `DependsOn`: its `NodeID` is the key, and its flags are
the same in all. -/
structure ExecutionGraph where
  nodes : GoMap String Node
  dependencies : GoMap String (List String)
  parallelGroups : List ParallelExecutionGroup

namespace ExecutionGraph

def createDependencyKey (deps : List String) : String :=
  deps.foldl (fun key dep => key ++ (dep ++ ",")) ""

/-- The map `depGroups` of `identifyParallelGroups`. -/
def depGroups (ρ : RangeOrder) (dependencies : GoMap String (List String)) :
    GoMap String (List String) :=
  GoMap.group ∅ (((ρ.run 215 dependencies.entries).filter (fun e => 0 < e.2.length)).map
    (fun e => (createDependencyKey e.2, e.1)))

/-- `identifyParallelGroups`, with the time that `generateGroupID` formats for each group. -/
def identifyParallelGroups (ρ : RangeOrder) (now : ℕ → String)
    (dependencies : GoMap String (List String)) : List ParallelExecutionGroup :=
  ((ρ.run 224 (depGroups ρ dependencies).entries).filter (fun e => 1 < e.2.length)).mapIdx
    (fun i e => { id := "group_" ++ now i, nodeIDs := e.2, maxConcurrency := e.2.length })

/-- `BuildExecutionGraph` -/
def build (ρ : RangeOrder) (now : ℕ → String) (w : Workflow) : ExecutionGraph :=
  let dependencies := GoMap.group ∅ (w.connections.map (fun c => (c.target, c.source)))
  { nodes := GoMap.index Node.id ∅ w.nodes, dependencies := dependencies,
    parallelGroups := identifyParallelGroups ρ now dependencies }

end ExecutionGraph

/-- The sources of the connections to a node, in the order of the connections. -/
def Workflow.sources (w : Workflow) (id : String) : List String :=
  (w.connections.filter (fun c => c.target = id)).map Connection.source

/-- The same as a text, with a comma after every source. -/
def Workflow.sourcesText (w : Workflow) (id : String) : List Char :=
  (w.sources id).flatMap (fun source => source.toList ++ [','])

namespace ExecutionGraph

/-! ## The key -/

/-- The key is the text of the dependencies, with a comma after each. -/
theorem toList_createDependencyKey (deps : List String) :
    (createDependencyKey deps).toList = deps.flatMap (fun dep => dep.toList ++ [',']) := by
  have hgen : ∀ key : String, (deps.foldl (fun key dep => key ++ (dep ++ ",")) key).toList =
      key.toList ++ deps.flatMap (fun dep => dep.toList ++ [',']) := by
    induction deps with
    | nil => simp
    | cons dep deps ih =>
      intro key
      rw [foldl_cons, ih, flatMap_cons, String.toList_append, String.toList_append, append_assoc]
      rfl
  rw [createDependencyKey, hgen]
  rfl

/-- The first comma ends the first ID. -/
theorem split_comma {x y s t : List Char} (hx : ',' ∉ x) (hy : ',' ∉ y)
    (h : x ++ ',' :: s = y ++ ',' :: t) : x = y ∧ s = t := by
  have hfirst : ∀ {z r : List Char}, ',' ∉ z → (z ++ ',' :: r).takeWhile (· ≠ ',') = z := by
    intro z r hz
    rw [takeWhile_append_of_pos (fun c hc => decide_eq_true (ne_of_mem_of_not_mem hc hz))]
    simp
  obtain rfl : x = y := (hfirst hx).symm.trans (h ▸ hfirst hy)
  exact ⟨rfl, (cons.inj (append_cancel_left h)).2⟩

/-- Without commas in the IDs the key stands for the list. -/
theorem createDependencyKey_inj {deps deps' : List String} (h : ∀ d ∈ deps, ',' ∉ d.toList)
    (h' : ∀ d ∈ deps', ',' ∉ d.toList) :
    createDependencyKey deps = createDependencyKey deps' ↔ deps = deps' := by
  refine ⟨fun heq => ?_, congrArg _⟩
  have hlist := congrArg String.toList heq
  rw [toList_createDependencyKey, toList_createDependencyKey] at hlist
  clear heq
  induction deps generalizing deps' with
  | nil =>
    cases deps' with
    | nil => rfl
    | cons d' deps' => simp at hlist
  | cons d deps ih =>
    cases deps' with
    | nil => simp at hlist
    | cons d' deps' =>
      rw [flatMap_cons, flatMap_cons, append_assoc, append_assoc,
        singleton_append, singleton_append] at hlist
      obtain ⟨hd, hrest⟩ := split_comma (h d mem_cons_self) (h' d' mem_cons_self) hlist
      rw [String.toList_injective hd, ih (fun x hx => h x (mem_cons_of_mem _ hx))
        (fun x hx => h' x (mem_cons_of_mem _ hx)) hrest]

/-! ## The groups -/

section

variable (ρ : RangeOrder) (now : ℕ → String) (w : Workflow)

/-- A node depends on the sources of the connections to it. -/
theorem get_dependencies (x : String) : (build ρ now w).dependencies.get [] x = w.sources x := by
  rw [build, get_group, get_empty, nil_append, filter_map, map_map]
  rfl

/-- A node is filed under the key of its sources, if it has any. -/
theorem mem_depGroups (key x : String) : x ∈ (depGroups ρ (build ρ now w).dependencies).get [] key ↔
      w.sources x ≠ [] ∧ createDependencyKey (w.sources x) = key := by
  rw [depGroups, get_group, get_empty, nil_append]
  simp only [mem_map, mem_filter, RangeOrder.mem_run, decide_eq_true_eq]
  constructor
  · rintro ⟨_, ⟨⟨e, ⟨he, hlen⟩, rfl⟩, hkey⟩, rfl⟩
    have hget := get_of_entry [] he
    rw [get_dependencies] at hget
    dsimp only at hkey ⊢
    rw [hget]
    exact ⟨length_pos_iff.mp hlen, hkey⟩
  · rintro ⟨hne, hkey⟩
    have hget := get_dependencies ρ now w x
    cases hlookup : (build ρ now w).dependencies.lookup x with
    | none =>
      rw [GoMap.get, hlookup] at hget
      exact absurd hget.symm hne
    | some v =>
      rw [GoMap.get, hlookup, Option.getD_some] at hget
      refine ⟨_, ⟨⟨⟨x, v⟩, ⟨AList.mem_lookup_iff.mp hlookup, ?_⟩, rfl⟩, ?_⟩, rfl⟩
      · rw [hget]
        exact length_pos_iff.mpr hne
      · rw [hget]
        exact hkey

def groupKeys : List String :=
  ((ρ.run 224 (depGroups ρ (build ρ now w).dependencies).entries).filter
    (fun e => 1 < e.2.length)).map Sigma.fst

theorem groupKeys_nodup : (groupKeys ρ now w).Nodup :=
  ((ρ.perm 224 _).map Sigma.fst).nodup_iff.mpr (AList.nodupKeys _) |>.sublist
    (filter_sublist.map Sigma.fst)

/-- A group has all nodes of one key. -/
theorem getElem?_parallelGroups {i : ℕ} {g : ParallelExecutionGroup}
    (h : (build ρ now w).parallelGroups[i]? = some g) : ∃ key, (groupKeys ρ now w)[i]? = some key ∧
      ∀ x, x ∈ g.nodeIDs ↔ w.sources x ≠ [] ∧ createDependencyKey (w.sources x) = key := by
  rw [build, identifyParallelGroups, getElem?_mapIdx, Option.map_eq_some_iff] at h
  obtain ⟨e, he, rfl⟩ := h
  have hmem := mem_filter.mp (mem_of_getElem? he)
  have hget := get_of_entry [] ((ρ.mem_run 224 _ e).mp hmem.1)
  refine ⟨e.1, ?_, fun x => ?_⟩
  · rw [groupKeys, getElem?_map, Option.map_eq_some_iff]
    exact ⟨e, he, rfl⟩
  · rw [← mem_depGroups ρ now w, ← hget]
    rfl

/-- Two nodes share a group exactly if they have the same key. -/
theorem same_group_iff {x y : String} (hxy : x ≠ y) (hx : w.sources x ≠ [])
    (hy : w.sources y ≠ []) :
    (∃ g ∈ (build ρ now w).parallelGroups, x ∈ g.nodeIDs ∧ y ∈ g.nodeIDs) ↔
      createDependencyKey (w.sources x) = createDependencyKey (w.sources y) := by
  constructor
  · rintro ⟨g, hg, hxg, hyg⟩
    obtain ⟨i, hi⟩ := getElem?_of_mem hg
    obtain ⟨key, -, hkey⟩ := getElem?_parallelGroups ρ now w hi
    exact ((hkey x).mp hxg).2.trans ((hkey y).mp hyg).2.symm
  · intro heq
    have hxk := (mem_depGroups ρ now w _ x).mpr ⟨hx, rfl⟩
    have hyk := (mem_depGroups ρ now w _ y).mpr ⟨hy, heq.symm⟩
    cases hlookup : (depGroups ρ (build ρ now w).dependencies).lookup
        (createDependencyKey (w.sources x)) with
    | none =>
      rw [GoMap.get, hlookup] at hxk
      cases hxk
    | some ids =>
      rw [GoMap.get, hlookup, Option.getD_some] at hxk hyk
      have hlen : 1 < ids.length := by
        rcases ids with _ | ⟨a, _ | ⟨b, ids⟩⟩
        · cases hxk
        · exact absurd ((mem_singleton.mp hxk).trans (mem_singleton.mp hyk).symm) hxy
        · simp
      have hentry : (⟨_, ids⟩ : (_ : String) × List String) ∈
          (ρ.run 224 (depGroups ρ (build ρ now w).dependencies).entries).filter
            (fun e => 1 < e.2.length) :=
        mem_filter.mpr ⟨(ρ.mem_run 224 _ _).mpr (AList.mem_lookup_iff.mp hlookup),
          decide_eq_true hlen⟩
      obtain ⟨i, hi⟩ := getElem?_of_mem hentry
      refine ⟨⟨"group_" ++ now i, ids, ids.length⟩, mem_of_getElem? (i := i) ?_, hxk, hyk⟩
      rw [build, identifyParallelGroups, getElem?_mapIdx]
      exact Option.map_eq_some_iff.mpr ⟨_, hi, rfl⟩

end

/-- Two targets are in one group exactly if they have the same sources, and no target is in two
groups. -/
def GroupsRight (w : Workflow) (groups : List ParallelExecutionGroup) : Prop :=
  (∀ x y, x ≠ y → w.sources x ≠ [] → w.sources y ≠ [] →
    ((∃ g ∈ groups, x ∈ g.nodeIDs ∧ y ∈ g.nodeIDs) ↔
      ∀ u, u ∈ w.sources x ↔ u ∈ w.sources y)) ∧
  ∀ (x : String) (i j : ℕ) (g g' : ParallelExecutionGroup), groups[i]? = some g →
    groups[j]? = some g' → x ∈ g.nodeIDs → x ∈ g'.nodeIDs → i = j

/-- A node has one key, and different groups have different keys. -/
theorem parallelGroups_disjoint (ρ : RangeOrder) (now : ℕ → String) (w : Workflow) {x : String}
    {i j : ℕ} {g g' : ParallelExecutionGroup} (hi : (build ρ now w).parallelGroups[i]? = some g)
    (hj : (build ρ now w).parallelGroups[j]? = some g') (hx : x ∈ g.nodeIDs)
    (hx' : x ∈ g'.nodeIDs) : i = j := by
  obtain ⟨key, hkeyi, hmem⟩ := getElem?_parallelGroups ρ now w hi
  obtain ⟨key', hkeyj, hmem'⟩ := getElem?_parallelGroups ρ now w hj
  obtain rfl : key = key' := ((hmem x).mp hx).2.symm.trans ((hmem' x).mp hx').2
  obtain ⟨hilt, hikey⟩ := List.getElem?_eq_some_iff.mp hkeyi
  obtain ⟨hjlt, hjkey⟩ := List.getElem?_eq_some_iff.mp hkeyj
  exact (groupKeys_nodup ρ now w).getElem_inj_iff.mp (hikey.trans hjkey.symm)

/-- The groups are right exactly if equal keys and equal sets of sources are the same thing. -/
theorem groupsRight_iff_keys (ρ : RangeOrder) (now : ℕ → String) (w : Workflow) :
    GroupsRight w (build ρ now w).parallelGroups ↔
      ∀ x y, x ≠ y → w.sources x ≠ [] → w.sources y ≠ [] →
        (createDependencyKey (w.sources x) = createDependencyKey (w.sources y) ↔
          ∀ u, u ∈ w.sources x ↔ u ∈ w.sources y) := by
  constructor
  · intro hright x y hxy hx hy
    rw [← same_group_iff ρ now w hxy hx hy]
    exact hright.1 x y hxy hx hy
  · intro hkeys
    refine ⟨fun x y hxy hx hy => ?_, fun x i j g g' => parallelGroups_disjoint ρ now w⟩
    rw [same_group_iff ρ now w hxy hx hy]
    exact hkeys x y hxy hx hy

/-- **The parallel groups**, for every workflow: they are right exactly if any two targets have
the same text of sources, each with a comma after it, if and only if they have the same sources. -/
theorem parallelGroups_right_iff (ρ : RangeOrder) (now : ℕ → String) (w : Workflow) :
    GroupsRight w (build ρ now w).parallelGroups ↔
      ∀ x y, x ≠ y → w.sources x ≠ [] → w.sources y ≠ [] →
        (w.sourcesText x = w.sourcesText y ↔ ∀ u, u ∈ w.sources x ↔ u ∈ w.sources y) := by
  have htext : ∀ x y, createDependencyKey (w.sources x) = createDependencyKey (w.sources y) ↔
      w.sourcesText x = w.sourcesText y := by
    intro x y
    rw [← String.toList_inj, toList_createDependencyKey, toList_createDependencyKey]
    rfl
  rw [groupsRight_iff_keys]
  simp only [htext]

/-- If no source has a comma in its ID, that is the order and the number of the connections. -/
theorem groupsRight_iff_of_no_comma (ρ : RangeOrder) (now : ℕ → String) (w : Workflow)
    (hcomma : ∀ c ∈ w.connections, ',' ∉ c.source.toList) :
    GroupsRight w (build ρ now w).parallelGroups ↔
      ∀ x y, x ≠ y → w.sources x ≠ [] → w.sources y ≠ [] →
        (∀ u, u ∈ w.sources x ↔ u ∈ w.sources y) → w.sources x = w.sources y := by
  have hsources : ∀ x, ∀ d ∈ w.sources x, ',' ∉ d.toList := by
    intro x d hd
    obtain ⟨c, hc, rfl⟩ := mem_map.mp hd
    exact hcomma c (mem_filter.mp hc).1
  have hkey := fun x y => createDependencyKey_inj (hsources x) (hsources y)
  rw [groupsRight_iff_keys]
  constructor
  · exact fun hright x y hxy hx hy hset => (hkey x y).mp ((hright x y hxy hx hy).mpr hset)
  · intro hsame x y hxy hx hy
    rw [hkey]
    exact ⟨fun heq u => by rw [heq], hsame x y hxy hx hy⟩

/-- Connections `t, u` to `a` and `u, t` to `b`, and IDs with commas. -/
def swapped : Workflow where
  nodes := []
  connections := [{ source := "t", target := "a" }, { source := "u", target := "a" },
    { source := "u", target := "b" }, { source := "t", target := "b" },
    { source := "x,y", target := "c" }, { source := "x", target := "d" },
    { source := "y", target := "d" }]

/-- The targets with the sources `t` and `u` are not in one group, and two others are that have
different sources. -/
theorem swapped_groups :
    ¬ GroupsRight swapped (build .stored (fun _ => "") swapped).parallelGroups ∧
      (build .stored (fun _ => "") swapped).parallelGroups.map ParallelExecutionGroup.nodeIDs =
        [["d", "c"]] ∧
      (swapped.sources "a", swapped.sources "b") = (["t", "u"], ["u", "t"]) ∧
      (swapped.sources "c", swapped.sources "d") = (["x,y"], ["x", "y"]) := by
  refine ⟨fun hright => ?_, by decide +kernel⟩
  have hgroup : ∃ g ∈ (build .stored (fun _ => "") swapped).parallelGroups,
      "c" ∈ g.nodeIDs ∧ "d" ∈ g.nodeIDs := by decide +kernel
  have hset := (hright.1 "c" "d" (by decide) (by decide) (by decide)).mp hgroup "x"
  exact absurd hset (by decide)

end ExecutionGraph

end LinkFlow
