/-
What `selectWorker` of `internal/executor/app/distributed/coordinator.go` promises.

The candidates are collected in the order of the worker map, and an affinity key chooses one by its
place in that list: it chooses the same worker in every order exactly if there is no choice. Loads
are compared in whole percent: what is selected has the least ratio in every order exactly if
every worker with the least percentage has (`selection_right_iff`).
-/
import LinkFlow.Coordinator

set_option autoImplicit false

namespace LinkFlow.Distributed

open List Option

/-! ## Affinity and load -/

def WorkerNode.ratio (worker : WorkerNode) : ℚ := worker.currentLoad / worker.capacity

/-- A worker that `selectWorker` may select. -/
def Coordinator.Eligible (c : Coordinator) (requirements : WorkRequirements) (id : String)
    (worker : WorkerNode) : Prop :=
  c.workers.lookup id = some worker ∧ worker.eligible requirements = true

section Selection

variable {fl : Float64} {ρ ρ' : RangeOrder} {intn intn' : ℕ → ℕ} {c c' : Coordinator}
  {requirements : WorkRequirements}

/-- The candidates of `selectWorker`. -/
def candidates (ρ : RangeOrder) (c : Coordinator) (requirements : WorkRequirements) :
    List ((_ : String) × WorkerNode) :=
  (ρ.run 211 c.workers.entries).filter (fun e => e.2.eligible requirements)

theorem mem_candidates {e : (_ : String) × WorkerNode} :
    e ∈ candidates ρ c requirements ↔ c.Eligible requirements e.1 e.2 := by
  rw [candidates, mem_filter, RangeOrder.mem_run, Coordinator.Eligible, AList.mem_lookup_iff.symm]
  exact Iff.rfl

theorem nodup_candidates : ((candidates ρ c requirements).map Sigma.fst).Nodup := by
  refine (filter_sublist.map Sigma.fst).nodup ?_
  exact ((ρ.perm 211 c.workers.entries).map Sigma.fst).nodup_iff.mpr c.workers.nodupKeys

theorem mem_map_candidates {id : String} : id ∈ (candidates ρ c requirements).map Sigma.fst ↔
    ∃ worker, c.Eligible requirements id worker := by
  rw [List.mem_map]
  constructor
  · rintro ⟨e, he, rfl⟩
    exact ⟨e.2, mem_candidates.mp he⟩
  · rintro ⟨worker, h⟩
    exact ⟨⟨id, worker⟩, mem_candidates.mpr h, rfl⟩

/-- A list of at most one element is the only one with its elements. -/
theorem eq_of_perm {l l' : List String} (h : l.Perm l') (hnodup : l.Nodup)
    (hone : ∀ x ∈ l, ∀ y ∈ l, x = y) : l = l' := by
  cases l with
  | nil => exact (nil_perm.mp h).symm
  | cons x l =>
    cases l with
    | nil => exact singleton_perm.mp h
    | cons y l =>
      have heq : x = y := hone x mem_cons_self y (by simp)
      simp [heq] at hnodup

/-- The same workers are eligible. -/
def Coordinator.SameEligible (c c' : Coordinator) (requirements : WorkRequirements) : Prop :=
  ∀ id, (∃ worker, c.Eligible requirements id worker) ↔
    ∃ worker, c'.Eligible requirements id worker

/-- Two orders list the same candidates. -/
theorem candidates_perm (h : c.SameEligible c' requirements) :
    ((candidates ρ c requirements).map Sigma.fst).Perm
      ((candidates ρ' c' requirements).map Sigma.fst) :=
  (perm_ext_iff_of_nodup nodup_candidates nodup_candidates).mpr fun id =>
    mem_map_candidates.trans ((h id).trans mem_map_candidates.symm)

/-- An affinity key selects by a place in the list of the candidates. -/
theorem selectWorker_affinity (fl : Float64)
    (hstrategy : requirements.selectionStrategy = .affinity)
    (hkey : requirements.affinityKey ≠ "") : ∃ hash : ℤ, ∀ ρ intn c,
      selectWorker fl ρ intn c requirements = ((candidates ρ c requirements).map Sigma.fst)[
        (hash.tmod ((candidates ρ c requirements).map Sigma.fst).length).natAbs]? := by
  refine ⟨requirements.affinityKey.toList.foldl (fun hash ch => wrap (hash * 31 + ch.toNat)) 0, ?_⟩
  intro ρ intn c
  simp only [selectWorker, hstrategy, selectWithAffinity, if_neg hkey, candidates, getElem?_map,
    length_map]

/-- Every `range` starts at the place `k` and goes around. -/
def rotated (k : ℕ) : RangeOrder where
  run _ _ l := l.rotate k
  perm _ _ l := l.rotate_perm k

/-- An order in which an eligible worker comes first, and one in which it comes last. -/
theorem exists_candidates {e : (_ : String) × WorkerNode} (he : c.Eligible requirements e.1 e.2) :
    ∃ first last rest, candidates first c requirements = e :: rest ∧
      candidates last c requirements = rest ++ [e] := by
  have hentry : e ∈ c.workers.entries := AList.mem_lookup_iff.mp he.1
  obtain ⟨pre, post, hsplit⟩ := append_of_mem hentry
  have hone : [e].filter (fun e => e.2.eligible requirements) = [e] :=
    filter_eq_self.mpr (fun e' he' => mem_singleton.mp he' ▸ he.2)
  refine ⟨rotated pre.length, rotated (pre.length + 1),
    (post ++ pre).filter (fun e => e.2.eligible requirements), ?_, ?_⟩
  · have hrun : (rotated pre.length).run 211 c.workers.entries = e :: (post ++ pre) := by
      rw [hsplit]
      exact rotate_append_length_eq pre (e :: post)
    rw [candidates, hrun, ← singleton_append, filter_append, hone, singleton_append]
  · have hrun : (rotated (pre.length + 1)).run 211 c.workers.entries = post ++ pre ++ [e] := by
      have hlen : pre.length + 1 = (pre ++ [e]).length := by simp
      rw [hsplit, append_cons, append_assoc post, hlen]
      exact rotate_append_length_eq (pre ++ [e]) post
    rw [candidates, hrun, filter_append, hone]

/-- With every place moved by one, no place has what it had. -/
theorem getElem?_rotate_one_ne {α : Type} {l : List α} (hnodup : l.Nodup) (hlen : 1 < l.length)
    {i : ℕ} (hi : i < l.length) : l[i]? ≠ (l.rotate 1)[i]? := by
  intro heq
  rw [getElem?_rotate hi, getElem?_eq_getElem hi,
    getElem?_eq_getElem (Nat.mod_lt _ (by omega))] at heq
  have hplace := hnodup.getElem_inj_iff.mp (some.inj heq)
  rcases Nat.lt_or_ge (i + 1) l.length with hin | hout
  · rw [Nat.mod_eq_of_lt hin] at hplace
    omega
  · have hend : i + 1 = l.length := by omega
    rw [hend, Nat.mod_self] at hplace
    omega

/-- Where two workers are eligible, an affinity key selects different ones in two orders. -/
theorem affinity_depends_on_order (fl : Float64)
    (hstrategy : requirements.selectionStrategy = .affinity)
    (hkey : requirements.affinityKey ≠ "") {id id' : String} {worker worker' : WorkerNode}
    (h : c.Eligible requirements id worker) (h' : c.Eligible requirements id' worker')
    (hne : id ≠ id') (intn : ℕ → ℕ) : ∃ ρ ρ', selectWorker fl ρ intn c requirements ≠
      selectWorker fl ρ' intn c requirements := by
  obtain ⟨ρ, ρ', rest, hfirst, hlast⟩ := exists_candidates (e := ⟨id, worker⟩) h
  obtain ⟨hash, hselect⟩ := selectWorker_affinity fl hstrategy hkey
  refine ⟨ρ, ρ', fun heq => ?_⟩
  have hnodup : ((candidates ρ c requirements).map Sigma.fst).Nodup := nodup_candidates
  have hmem := mem_map_candidates (ρ := ρ).mpr ⟨worker', h'⟩
  rw [hfirst, map_cons] at hnodup hmem
  -- the second list is the first one, moved by one place
  have hrotate : (candidates ρ' c requirements).map Sigma.fst =
      (id :: rest.map Sigma.fst).rotate 1 := by
    rw [hlast, map_append, rotate_cons_succ, rotate_zero]
    rfl
  rw [hselect, hselect, hrotate, length_rotate, hfirst, map_cons] at heq
  have hlen : 1 < (id :: rest.map Sigma.fst).length := by
    rcases mem_cons.mp hmem with hid | hrest
    · exact absurd hid.symm hne
    · have := length_pos_of_mem hrest
      rw [length_cons]
      omega
  have hlt : (hash.tmod (id :: rest.map Sigma.fst).length).natAbs <
      (id :: rest.map Sigma.fst).length := by
    have := Int.natAbs_tmod hash (id :: rest.map Sigma.fst).length
    rw [this, Int.natAbs_natCast]
    exact Nat.mod_lt _ (by omega)
  exact getElem?_rotate_one_ne hnodup hlen hlt heq

/-- Where only one worker is eligible, an affinity key selects it in every order. -/
theorem affinity_eq_of_one (fl : Float64) (hstrategy : requirements.selectionStrategy = .affinity)
    (hkey : requirements.affinityKey ≠ "") (hone : ∀ id worker id' worker',
      c.Eligible requirements id worker → c.Eligible requirements id' worker' → id = id')
    (h : c.SameEligible c' requirements) (intn intn' : ℕ → ℕ) :
    selectWorker fl ρ intn c requirements = selectWorker fl ρ' intn' c' requirements := by
  obtain ⟨hash, hselect⟩ := selectWorker_affinity fl hstrategy hkey
  have hperm : ((candidates ρ c requirements).map Sigma.fst).Perm
      ((candidates ρ' c' requirements).map Sigma.fst) := candidates_perm h
  have hids := eq_of_perm hperm nodup_candidates (fun id hid id' hid' => by
    obtain ⟨worker, h⟩ := mem_map_candidates.mp hid
    obtain ⟨worker', h'⟩ := mem_map_candidates.mp hid'
    exact hone id worker id' worker' h h')
  rw [hselect, hselect, hids]

theorem selectWorker_leastLoaded (fl : Float64)
    (hstrategy : requirements.selectionStrategy = .leastLoaded) (intn : ℕ → ℕ) :
    selectWorker fl ρ intn c requirements =
      selectLeastLoaded fl (candidates ρ c requirements) := by
  rw [selectWorker, ← candidates, hstrategy]

/-- A candidate that comes first and has the least percentage is selected. -/
theorem selectLeastLoaded_cons {e : (_ : String) × WorkerNode}
    {l : List ((_ : String) × WorkerNode)} (hlt : e.2.percent fl < 2 ^ 63 - 1)
    (hleast : ∀ e' ∈ l, e.2.percent fl ≤ e'.2.percent fl) :
    selectLeastLoaded fl (e :: l) = some e.1 := by
  rw [selectLeastLoaded, foldl_cons]
  dsimp only
  rw [← WorkerNode.percent, if_pos hlt]
  induction l with
  | nil => rfl
  | cons e' l ih =>
    rw [foldl_cons]
    dsimp only
    rw [← WorkerNode.percent, if_neg (not_lt.mpr (hleast e' mem_cons_self))]
    exact ih (fun e'' he'' => hleast e'' (mem_cons_of_mem e' he''))

/-- **The selection.** With an affinity key, calls with the same eligible workers select the same
one, whatever the orders of the map, exactly if at most one worker is eligible. By load, none has
a smaller ratio than the selected one, whatever the order, exactly if that is so of every worker
with the least percentage. -/
theorem selection_right_iff (fl : Float64) (c : Coordinator) (requirements : WorkRequirements) :
    (requirements.selectionStrategy = .affinity → requirements.affinityKey ≠ "" →
      ((∀ ρ ρ' intn intn' c', c.SameEligible c' requirements →
          selectWorker fl ρ intn c requirements = selectWorker fl ρ' intn' c' requirements) ↔
        ∀ id worker id' worker', c.Eligible requirements id worker →
          c.Eligible requirements id' worker' → id = id')) ∧
    (requirements.selectionStrategy = .leastLoaded →
      ((∀ ρ intn selected, selectWorker fl ρ intn c requirements = some selected →
          ∃ worker, c.Eligible requirements selected worker ∧ ∀ id' worker',
            c.Eligible requirements id' worker' → worker.ratio ≤ worker'.ratio) ↔
        ∀ id worker, c.Eligible requirements id worker → worker.percent fl < 2 ^ 63 - 1 →
          (∀ id' worker', c.Eligible requirements id' worker' →
            worker.percent fl ≤ worker'.percent fl) →
          ∀ id' worker', c.Eligible requirements id' worker' →
            worker.ratio ≤ worker'.ratio)) := by
  constructor
  · intro hstrategy hkey
    constructor
    · intro hsame id worker id' worker' h h'
      by_contra hne
      obtain ⟨ρ, ρ', hdiffer⟩ :=
        affinity_depends_on_order fl hstrategy hkey h h' hne (fun n => n)
      exact hdiffer (hsame ρ ρ' _ _ c (fun _ => Iff.rfl))
    · intro hone ρ ρ' intn intn' c' hsame
      exact affinity_eq_of_one fl hstrategy hkey hone hsame intn intn'
  · intro hstrategy
    constructor
    · intro hright id worker h hlt hleast
      -- in the order that begins with the worker it is selected
      obtain ⟨ρ, -, rest, hfirst, -⟩ := exists_candidates (e := ⟨id, worker⟩) h
      have hselected : selectWorker fl ρ (fun n => n) c requirements = some id := by
        rw [selectWorker_leastLoaded fl hstrategy, hfirst]
        refine selectLeastLoaded_cons hlt (fun e' he' => hleast e'.1 e'.2 ?_)
        exact mem_candidates.mp (hfirst ▸ mem_cons_of_mem _ he')
      obtain ⟨worker', h', hmin⟩ := hright ρ _ id hselected
      obtain rfl := some.inj (h.1.symm.trans h'.1)
      exact hmin
    · intro hcond ρ intn selected hselected
      rw [selectWorker_leastLoaded fl hstrategy] at hselected
      obtain ⟨hnone, -⟩ | ⟨e, he, heq, hlt, hmin⟩ :=
        selectLeastLoaded_spec fl (candidates ρ c requirements)
      · cases hnone.symm.trans hselected
      obtain rfl := some.inj (heq.symm.trans hselected)
      have hleast : ∀ id' worker', c.Eligible requirements id' worker' →
          e.2.percent fl ≤ worker'.percent fl :=
        fun id' worker' h' => hmin ⟨id', worker'⟩ (mem_candidates.mpr h')
      exact ⟨e.2, mem_candidates.mp he, hcond e.1 e.2 (mem_candidates.mp he) hlt hleast⟩

end Selection

/-- Every `range` visits the entries backwards. -/
def reversed : RangeOrder where
  run _ _ l := l.reverse
  perm _ _ l := l.reverse_perm

/-- Two workers with whole percentages of 0, of which one has no load. -/
def zeroPercent : Coordinator where
  workers := GoMap.ofPairs [("b", { capacity := 256, currentLoad := 0 }),
    ("a", { capacity := 256, currentLoad := 1 })]
  partitions := ∅

/-- The order of the map decides between two workers with the same key, and between two with less
than one percent of load. -/
theorem zeroPercent_selected :
    (selectWorker Coordinator.exactFloat .stored id zeroPercent ⟨[], .affinity, "k"⟩,
        selectWorker Coordinator.exactFloat reversed id zeroPercent ⟨[], .affinity, "k"⟩) =
      (some "b", some "a") ∧
    selectWorker Coordinator.exactFloat .stored id zeroPercent ⟨[], .leastLoaded, ""⟩ =
      some "a" := by
  decide +kernel

end LinkFlow.Distributed
