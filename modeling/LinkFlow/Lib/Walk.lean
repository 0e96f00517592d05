/-
Walks in a finite directed multigraph.

A multigraph is the list of its edges: a pair may stand in it more than once,
and the vertices are whatever the edges name, so an arbitrary vertex type does
not have to be finite. A closed walk is `Relation.TransGen` from a vertex to
itself, which is Mathlib's notion of a non-empty walk; reachability is
`Relation.ReflTransGen`.

What the search algorithms need from it is accessibility: an edge relation that
is accessible towards the successors has no closed walk (`acyclic_of_acc_succ`,
what a depth-first search establishes vertex by vertex), and a relation without
a closed walk whose left ends lie in a finite set is accessible everywhere
(`acc_of_acyclic`, what in-degree peeling consumes).
-/
import Mathlib

set_option autoImplicit false

namespace Graph

variable {V : Type}

/-- `E` has an edge from `u` to `v`. -/
def Edge (E : List (V × V)) (u v : V) : Prop := (u, v) ∈ E

instance [DecidableEq V] (E : List (V × V)) (u v : V) : Decidable (Edge E u v) :=
  inferInstanceAs (Decidable ((u, v) ∈ E))

/-- `v` can be reached from `u` along edges, `u` itself included. -/
def Reach (E : List (V × V)) : V → V → Prop := Relation.ReflTransGen (Edge E)

/-- Some non-empty walk ends where it starts. -/
def HasClosedWalk (E : List (V × V)) : Prop := ∃ v, Relation.TransGen (Edge E) v v

/-- The targets of the edges leaving `u`, in edge order and with repetitions. -/
def succs [DecidableEq V] (E : List (V × V)) (u : V) : List V :=
  (E.filter (fun e => e.1 = u)).map Prod.snd

@[simp] theorem mem_succs [DecidableEq V] (E : List (V × V)) (u v : V) :
    v ∈ succs E u ↔ Edge E u v := by
  unfold succs Edge
  constructor
  · intro h
    obtain ⟨⟨a, b⟩, he, rfl⟩ := List.mem_map.mp h
    obtain ⟨hmem, hsrc⟩ := List.mem_filter.mp he
    obtain rfl : a = u := by simpa using hsrc
    exact hmem
  · intro h
    exact List.mem_map.mpr ⟨(u, v), List.mem_filter.mpr ⟨h, by simp⟩, rfl⟩

/-! ## Renaming the vertices -/

/-- An edge begins or ends at `v`. -/
def Touches (E : List (V × V)) (v : V) : Prop := ∃ u, Edge E u v ∨ Edge E v u

variable {W : Type} {E : List (V × V)}

theorem edge_map (f : V → W) (E : List (V × V)) (a b : W) :
    Edge (E.map (Prod.map f f)) a b ↔ ∃ u v, Edge E u v ∧ f u = a ∧ f v = b := by
  simp [Edge, Prod.map]

/-- A walk through the renamed graph is a walk through the graph, if the renaming joins no two
vertices on edges. -/
theorem transGen_of_map {f : V → W} (hinj : ∀ u v, Touches E u → Touches E v → f u = f v → u = v)
    {a b : W} (h : Relation.TransGen (Edge (E.map (Prod.map f f))) a b) :
    ∃ u v, Touches E u ∧ Touches E v ∧ f u = a ∧ f v = b ∧ Relation.TransGen (Edge E) u v := by
  induction h with
  | single hedge =>
    obtain ⟨u, v, huv, hu, hv⟩ := (edge_map f E _ _).mp hedge
    exact ⟨u, v, ⟨v, .inr huv⟩, ⟨u, .inl huv⟩, hu, hv, .single huv⟩
  | tail _ hedge ih =>
    obtain ⟨u, v, hu, hv, hfu, hfv, hwalk⟩ := ih
    obtain ⟨v', w, hvw, hfv', hfw⟩ := (edge_map f E _ _).mp hedge
    obtain rfl : v = v' := hinj v v' hv ⟨w, .inr hvw⟩ (hfv.trans hfv'.symm)
    exact ⟨u, w, hu, ⟨v, .inl hvw⟩, hfu, hfw, hwalk.tail hvw⟩

theorem hasClosedWalk_map_iff {f : V → W}
    (hinj : ∀ u v, Touches E u → Touches E v → f u = f v → u = v) :
    HasClosedWalk (E.map (Prod.map f f)) ↔ HasClosedWalk E := by
  constructor
  · rintro ⟨a, hwalk⟩
    obtain ⟨u, v, hu, hv, hfu, hfv, hwalk⟩ := transGen_of_map hinj hwalk
    obtain rfl : u = v := hinj u v hu hv (hfu.trans hfv.symm)
    exact ⟨u, hwalk⟩
  · rintro ⟨v, hwalk⟩
    refine ⟨f v, hwalk.lift f ?_⟩
    intro a b hab
    exact (edge_map f E (f a) (f b)).mpr ⟨a, b, hab, rfl, rfl⟩

/-! ## Accessible vertices lie on no closed walk -/

theorem not_transGen_self_of_acc {r : V → V → Prop} {a : V} (h : Acc r a) :
    ¬ Relation.TransGen r a a := by
  have hacc : Acc (Relation.TransGen r) a := Acc.transGen h
  clear h
  induction hacc with
  | intro x _ ih =>
    intro hx
    exact ih x hx hx

theorem acyclic_of_acc_succ (h : ∀ u v, Edge E u v → Acc (fun a b => Edge E b a) u) :
    ¬ HasClosedWalk E := by
  rintro ⟨v, hv⟩
  obtain ⟨w, hvw, -⟩ := Relation.TransGen.head'_iff.mp hv
  exact not_transGen_self_of_acc (h v w hvw) (Relation.transGen_swap.mpr hv)

/-! ## Without a closed walk every vertex is accessible -/

/-- A relation without closed walks whose left ends lie in a finite set is well founded: off the set
nothing has a predecessor. -/
theorem acc_of_acyclic {r : V → V → Prop} (S : Finset V) (hS : ∀ a b, r a b → a ∈ S)
    (hr : ∀ v, ¬ Relation.TransGen r v v) (v : V) : Acc r v := by
  -- on the finite set the walk relation is a strict order, hence well founded
  let t : S → S → Prop := fun a b => Relation.TransGen r a.1 b.1
  have htrans : IsTrans S t := ⟨fun _ _ _ hab hbc => Relation.TransGen.trans hab hbc⟩
  have hirr : Std.Irrefl t := ⟨fun a ha => hr a.1 ha⟩
  have hwf : WellFounded t := Finite.wellFounded_of_trans_of_irrefl t
  have hin : ∀ a : S, Acc r a.1 := by
    intro a
    induction a using hwf.induction with
    | _ a ih =>
      refine Acc.intro _ (fun b hb => ?_)
      exact ih ⟨b, hS b a.1 hb⟩ (Relation.TransGen.single hb)
  exact Acc.intro _ (fun b hb => hin ⟨b, hS b v hb⟩)

theorem Reach.mem_of_closed {S : V → Prop} (hS : ∀ u v, S u → Edge E u v → S v) {u v : V}
    (h : Reach E u v) (hu : S u) : S v := by
  induction h with
  | refl => exact hu
  | tail _ hvw ih => exact hS _ _ ih hvw

end Graph
