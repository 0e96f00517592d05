/-
In-degree peeling (Kahn's algorithm) over shared counters.

The state is the counter map, the queue and the result so far. A round takes
the head of the queue, appends it to the result and decrements the counter of
each of its neighbours, queueing a neighbour whose counter reaches zero.

The vertices are the keys `K` of the counter map. They contain every edge
target, but an edge may leave a vertex outside `K`; such an edge is never
processed, and its target never becomes ready. `Peelable` says which vertices
do: those all of whose ancestors are keys and lie on no closed walk.

`Inv` is the loop invariant. Its `degree` clause reads a counter as the number
of in-edges whose source has not been output yet, so parallel edges need no
special care, and `ordered` says that the sources of an edge into an output or
queued vertex stand before it.
-/
import LinkFlow.Lib.GoMap
import LinkFlow.Lib.Walk

set_option autoImplicit false

namespace Kahn

open Relation Graph List

variable {V : Type} [DecidableEq V]

/-! ## The loop -/

/-- The counters, the queue and the result so far. -/
structure State (V : Type) where
  inDegree : GoMap V ℤ
  (queue result : List V)

/-- `inDegree[n]--; if inDegree[n] == 0 { queue = append(queue, n) }` -/
def relaxOne (s : GoMap V ℤ × List V) (n : V) : GoMap V ℤ × List V :=
  let d := s.1.upd 0 n (· - 1)
  if d.get 0 n = 0 then (d, s.2 ++ [n]) else (d, s.2)

def relax (d : GoMap V ℤ) (q : List V) (ns : List V) : GoMap V ℤ × List V :=
  ns.foldl relaxOne (d, q)

/-- One round: `c` is the head of the queue and `q` the rest of it. -/
def step (adj : V → List V) (s : State V) (c : V) (q : List V) : State V :=
  let r := relax s.inDegree q (adj c)
  { inDegree := r.1, queue := r.2, result := s.result ++ [c] }

/-- `for len(queue) > 0 { … }`; `none` when the fuel runs out. -/
def loop (adj : V → List V) : ℕ → State V → Option (State V)
  | 0, s => if s.queue = [] then some s else none
  | fuel + 1, s =>
    match s.queue with
    | [] => some s
    | c :: q => loop adj fuel (step adj s c q)

/-! ## The neighbour loop -/

theorem get_relaxOne (s : GoMap V ℤ × List V) (n v : V) :
    (relaxOne s n).1.get 0 v = s.1.get 0 v - if v = n then 1 else 0 := by
  have hd : (relaxOne s n).1 = s.1.upd 0 n (· - 1) := by
    unfold relaxOne
    dsimp only
    split_ifs <;> rfl
  rw [hd, GoMap.get_upd]
  by_cases h : v = n
  · subst h; simp
  · simp [h]

/-- The counters fall by the multiplicity of each neighbour, and the vertices
that join the queue are those whose counter reaches zero on the way, each once. -/
theorem relax_spec (ns : List V) (d : GoMap V ℤ) (q : List V) :
    (∀ v, (relax d q ns).1.get 0 v = d.get 0 v - (ns.count v : ℤ)) ∧
      ∃ new, (relax d q ns).2 = q ++ new ∧ new.Nodup ∧
        ∀ v, v ∈ new ↔ 0 < d.get 0 v ∧ d.get 0 v ≤ (ns.count v : ℤ) := by
  induction ns generalizing d q with
  | nil =>
    refine ⟨fun v => by simp [relax], [], by simp [relax], nodup_nil, ?_⟩
    intro v
    simp only [not_mem_nil, count_nil, Nat.cast_zero, false_iff, not_and, not_le]
    exact fun h => h
  | cons n ns ih =>
    have hone := get_relaxOne (d, q) n
    obtain ⟨hdeg, new, hq, hnd, hmem⟩ := ih (relaxOne (d, q) n).1 (relaxOne (d, q) n).2
    have hfold : relax d q (n :: ns)
        = relax (relaxOne (d, q) n).1 (relaxOne (d, q) n).2 ns := rfl
    have hcount : ∀ v, ((n :: ns).count v : ℤ) = (ns.count v : ℤ) + if v = n then 1 else 0 := by
      intro v
      rw [count_cons]
      by_cases h : v = n
      · subst h; simp
      · have h' : ¬ n = v := fun e => h e.symm
        simp [h, h']
    refine ⟨fun v => ?_, ?_⟩
    · rw [hfold, hdeg v, hone v, hcount v]
      ring
    -- `n` is queued now exactly when its counter was one, and then never again
    by_cases h1 : d.get 0 n = 1
    · have hq1 : (relaxOne (d, q) n).2 = q ++ [n] := by
        unfold relaxOne
        dsimp only
        rw [if_pos]
        rw [GoMap.get_upd, if_pos rfl, h1]
        norm_num
      have hnew : n ∉ new := by
        rw [hmem n, hone n, if_pos rfl, h1]
        simp
      refine ⟨n :: new, by rw [hfold, hq, hq1]; simp, nodup_cons.mpr ⟨hnew, hnd⟩, ?_⟩
      intro v
      rw [mem_cons, hmem v, hone v, hcount v]
      by_cases h : v = n
      · subst h
        have hpos : (0 : ℤ) ≤ (ns.count v : ℤ) := Int.natCast_nonneg _
        simp only [true_or, if_pos, h1, true_iff]
        omega
      · simp [h]
    · have hq1 : (relaxOne (d, q) n).2 = q := by
        unfold relaxOne
        dsimp only
        rw [if_neg]
        rw [GoMap.get_upd, if_pos rfl]
        omega
      refine ⟨new, by rw [hfold, hq, hq1], hnd, ?_⟩
      intro v
      rw [hmem v, hone v, hcount v]
      by_cases h : v = n
      · subst h
        simp only [if_pos]
        omega
      · simp [h]

/-! ## The invariant -/

/-- How many edges into `v` have a source that is not in `R`. -/
def pending (E : List (V × V)) (R : List V) (v : V) : ℕ :=
  E.countP (fun e => decide (e.2 = v) && decide (e.1 ∉ R))

theorem pending_eq_zero_iff (E : List (V × V)) (R : List V) (v : V) :
    pending E R v = 0 ↔ ∀ u, Edge E u v → u ∈ R := by
  rw [pending, countP_eq_zero]
  constructor
  · intro h u hu
    have := h (u, v) hu
    simpa using this
  · rintro h ⟨a, b⟩ he
    simp only [Bool.and_eq_true, decide_eq_true_eq, not_and, not_not]
    rintro rfl
    exact h a he

variable {c v : V} {E : List (V × V)} {L q : List V} {K : Finset V} {adj : V → List V} {s : State V}

/-- Processing a vertex lowers the counters of its successors. -/
theorem pending_snoc (E : List (V × V)) {R : List V} (hc : c ∉ R) (v : V) :
    pending E R v = pending E (R ++ [c]) v + (succs E c).count v := by
  unfold pending succs
  induction E with
  | nil => simp
  | cons e E ih =>
    obtain ⟨a, b⟩ := e
    rw [countP_cons, countP_cons, filter_cons, ih]
    by_cases hac : a = c
    · subst hac
      by_cases hbv : b = v
      · subst hbv; simp [hc]; omega
      · simp [hbv]
    · by_cases hbv : b = v
      · subst hbv
        by_cases haR : a ∈ R
        · simp [hac, haR]
        · simp [hac, haR]; omega
      · simp [hac, hbv]

/-- `u` stands before some occurrence of `v` in `l`. -/
def Before (l : List V) (u v : V) : Prop := ∃ l₁ l₂, l = l₁ ++ v :: l₂ ∧ u ∈ l₁

/-- Every edge source stands before the target in `L`. -/
def Ordered (E : List (V × V)) (L : List V) : Prop :=
  ∀ l₁ v l₂, L = l₁ ++ v :: l₂ → ∀ u, Edge E u v → u ∈ l₁

omit [DecidableEq V] in
theorem ordered_append (hL : Ordered E L) (new : List V)
    (hnew : ∀ v ∈ new, ∀ u, Edge E u v → u ∈ L) : Ordered E (L ++ new) := by
  intro l₁ v l₂ h u hu
  rcases append_eq_append_iff.mp h with ⟨t, rfl, ht⟩ | ⟨t, rfl, ht⟩
  · have hv : v ∈ new := by rw [ht]; simp
    exact mem_append_left t (hnew v hv u hu)
  cases t with
  | nil =>
    simp only [nil_append] at ht
    have hv : v ∈ new := by rw [← ht]; simp
    simpa using hnew v hv u hu
  | cons a t =>
    simp only [cons_append, cons.injEq] at ht
    obtain ⟨rfl, -⟩ := ht
    exact hL l₁ v t rfl u hu

omit [DecidableEq V] in
/-- What is ordered lies behind no cycle. -/
theorem Ordered.acc (hL : Ordered E L) : ∀ v ∈ L, Acc (Edge E) v := by
  have hpre : ∀ n, ∀ l₁ v l₂, l₁.length = n → L = l₁ ++ v :: l₂ → Acc (Edge E) v := by
    intro n
    induction n using Nat.strong_induction_on with
    | _ n ih =>
      intro l₁ v l₂ hn h
      refine Acc.intro _ (fun u hu => ?_)
      obtain ⟨a, b, rfl⟩ := append_of_mem (hL l₁ v l₂ h u hu)
      refine ih a.length ?_ a u (b ++ v :: l₂) rfl (by rw [h]; simp)
      rw [← hn]
      simp
  intro v hv
  obtain ⟨a, b, rfl⟩ := append_of_mem hv
  exact hpre a.length a v b rfl rfl

/-- The loop invariant over the keys `K`. -/
structure Inv (E : List (V × V)) (K : Finset V) (s : State V) : Prop where
  degree : ∀ v, s.inDegree.get 0 v = (pending E s.result v : ℤ)
  nodup : (s.result ++ s.queue).Nodup
  ready : ∀ v, v ∈ s.result ++ s.queue ↔ v ∈ K ∧ pending E s.result v = 0
  ordered : Ordered E (s.result ++ s.queue)

/-- **One round keeps the invariant.** -/
theorem Inv.step (hK : ∀ u v, Edge E u v → v ∈ K) (hadj : ∀ u, adj u = succs E u) (hs : Inv E K s)
    (hq : s.queue = c :: q) : Inv E K (step adj s c q) := by
  obtain ⟨hdeg, new, hqueue, hnd, hnew⟩ := relax_spec (adj c) s.inDegree q
  have hcR : c ∉ s.result := by
    have hn := hs.nodup
    rw [hq] at hn
    exact fun hc => (nodup_append.mp hn).2.2 c hc c mem_cons_self rfl
  have hpend := fun v => pending_snoc E hcR v
  -- the queued and output vertices are the old ones followed by the new ones
  have hlist : s.result ++ [c] ++ (q ++ new) = s.result ++ s.queue ++ new := by
    rw [hq]; simp
  have hnew' : ∀ v, v ∈ new ↔ 0 < pending E s.result v ∧
      pending E s.result v ≤ (succs E c).count v := by
    intro v
    rw [hnew v, hs.degree v, hadj c]
    omega
  -- a new vertex had a positive count, and the edges from `c` were all of it
  have hsub : ∀ v, v ∈ new → v ∈ K ∧ pending E (s.result ++ [c]) v = 0 := by
    intro v hv
    have hv' := (hnew' v).mp hv
    have hp := hpend v
    have hcount : 0 < (succs E c).count v := by omega
    exact ⟨hK c v ((mem_succs E c v).mp (count_pos_iff.mp hcount)), by omega⟩
  refine ⟨?_, ?_, ?_, ?_⟩
  · intro v
    show (relax s.inDegree q (adj c)).1.get 0 v = _
    rw [hdeg v, hs.degree v, hadj c, hpend v]
    show _ = (pending E (s.result ++ [c]) v : ℤ)
    push_cast
    ring
  · show (s.result ++ [c] ++ (relax s.inDegree q (adj c)).2).Nodup
    rw [hqueue, hlist]
    refine nodup_append.mpr ⟨hs.nodup, hnd, ?_⟩
    rintro v hv w hw rfl
    have h0 := ((hs.ready v).mp hv).2
    have h1 := ((hnew' v).mp hw).1
    omega
  · intro v
    show v ∈ s.result ++ [c] ++ (relax s.inDegree q (adj c)).2 ↔
      v ∈ K ∧ pending E (s.result ++ [c]) v = 0
    rw [hqueue, hlist, mem_append, hs.ready v]
    have hp := hpend v
    constructor
    · rintro (⟨hvK, h0⟩ | hv)
      · exact ⟨hvK, by omega⟩
      · exact hsub v hv
    · rintro ⟨hvK, h0⟩
      -- ready before this round, or brought to zero by it
      by_cases hz : pending E s.result v = 0
      · exact .inl ⟨hvK, hz⟩
      · exact .inr ((hnew' v).mpr ⟨by omega, by omega⟩)
  · show Ordered E (s.result ++ [c] ++ (relax s.inDegree q (adj c)).2)
    rw [hqueue, hlist]
    refine ordered_append hs.ordered new (fun v hv u hu => ?_)
    have hmem := (pending_eq_zero_iff E _ v).mp (hsub v hv).2 u hu
    rw [hq]
    rcases mem_append.mp hmem with h | h
    · exact mem_append_left _ h
    · rw [mem_singleton.mp h]
      exact mem_append_right _ mem_cons_self

/-- **The loop keeps the invariant**, by induction on the fuel. -/
theorem Inv.loop (hK : ∀ u v, Edge E u v → v ∈ K) (hadj : ∀ u, adj u = succs E u) (fuel : ℕ)
    {s' : State V} (hs : Inv E K s) (h : loop adj fuel s = some s') :
    Inv E K s' ∧ s'.queue = [] := by
  induction fuel generalizing s with
  | zero =>
    rw [Kahn.loop] at h
    split_ifs at h with hq
    cases h
    exact ⟨hs, hq⟩
  | succ fuel ih =>
    rw [Kahn.loop] at h
    cases hq : s.queue with
    | nil =>
      rw [hq] at h
      cases h
      exact ⟨hs, hq⟩
    | cons c q =>
      rw [hq] at h
      exact ih (hs.step hK hadj hq) h

/-- Every vertex is processed at most once, so this much fuel is enough. -/
theorem loop_isSome (hK : ∀ u v, Edge E u v → v ∈ K) (hadj : ∀ u, adj u = succs E u) (fuel : ℕ)
    (hs : Inv E K s) (hfuel : K.card ≤ fuel + s.result.length) :
    ∃ s', loop adj fuel s = some s' := by
  have hlen : s.result.length + s.queue.length ≤ K.card := by
    rw [← length_append, ← toFinset_card_of_nodup hs.nodup]
    exact Finset.card_le_card (fun v hv => ((hs.ready v).mp (mem_toFinset.mp hv)).1)
  induction fuel generalizing s with
  | zero =>
    have hq : s.queue = [] := length_eq_zero_iff.mp (by omega)
    exact ⟨s, by rw [loop, if_pos hq]⟩
  | succ fuel ih =>
    cases hq : s.queue with
    | nil => exact ⟨s, by rw [loop, hq]⟩
    | cons c q =>
      have hstep := hs.step hK hadj hq
      have hres : (Kahn.step adj s c q).result.length = s.result.length + 1 := by
        simp [Kahn.step]
      obtain ⟨s', h'⟩ := ih hstep (by omega) (by
        rw [← length_append, ← toFinset_card_of_nodup hstep.nodup]
        exact Finset.card_le_card
          (fun v hv => ((hstep.ready v).mp (mem_toFinset.mp hv)).1))
      exact ⟨s', by rw [loop, hq]; exact h'⟩

/-! ## Which vertices are output -/

/-- Every ancestor of `v`, `v` included, is a key and lies on no closed walk. -/
def Peelable (E : List (V × V)) (K : Finset V) (v : V) : Prop :=
  ∀ u, Reach E u v → u ∈ K ∧ ¬ TransGen (Edge E) u u

omit [DecidableEq V] in
theorem Peelable.pred {u : V} (hv : Peelable E K v) (huv : Edge E u v) : Peelable E K u :=
  fun w hw => hv w (ReflTransGen.tail hw huv)

/-- A peelable vertex is accessible, although the rest of the graph may have
closed walks: the accessibility argument runs over its ancestors only. -/
theorem Peelable.induction {P : V → Prop} (hP : ∀ v, v ∈ K → (∀ u, Edge E u v → P u) → P v)
    (hv : Peelable E K v) : P v := by
  have hacc : Acc (fun a b => Edge E a b ∧ Peelable E K b) v := by
    refine acc_of_acyclic (E.map Prod.fst).toFinset (fun a b hab => ?_) (fun x hx => ?_) v
    · exact mem_toFinset.mpr (mem_map.mpr ⟨(a, b), hab.1, rfl⟩)
    obtain ⟨y, -, hyx⟩ := TransGen.tail'_iff.mp hx
    have hwalk : TransGen (Edge E) x x :=
      TransGen.mono (fun _ _ (h : Edge E _ _ ∧ Peelable E K _) => h.1) x x hx
    exact (hyx.2 x ReflTransGen.refl).2 hwalk
  induction hacc with
  | intro v _ ih =>
    exact hP v (hv v ReflTransGen.refl).1 (fun u hu => ih u ⟨hu, hv⟩ (hv.pred hu))

/-- **What the loop outputs**: each peelable key once, sources before targets. -/
theorem Inv.result_spec (hs : Inv E K s) (hq : s.queue = []) :
    s.result.Nodup ∧ Ordered E s.result ∧ ∀ v, v ∈ s.result ↔ v ∈ K ∧ Peelable E K v := by
  have hnd := hs.nodup
  have hord := hs.ordered
  have hready := hs.ready
  rw [hq, append_nil] at hnd hord
  simp only [hq, append_nil, pending_eq_zero_iff] at hready
  refine ⟨hnd, hord, fun v => ⟨fun hv => ⟨((hready v).mp hv).1, ?_⟩, ?_⟩⟩
  · intro u hu
    have hmem : u ∈ s.result := by
      clear hord hnd
      induction hu using ReflTransGen.head_induction_on with
      | refl => exact hv
      | head hab _ ih => exact ((hready _).mp ih).2 _ hab
    exact ⟨((hready u).mp hmem).1, not_transGen_self_of_acc (hord.acc u hmem)⟩
  · rintro ⟨-, hpeel⟩
    exact hpeel.induction (fun w hw hpre => (hready w).mpr ⟨hw, hpre⟩)

/-- The state the loop starts in: the counters hold the in-degrees and the queue
holds the keys of degree zero, each once and in any order. -/
theorem inv_init {d : GoMap V ℤ} (hdeg : ∀ v, d.get 0 v = ((E.map Prod.snd).count v : ℤ))
    (hnd : q.Nodup) (hq : ∀ v, v ∈ q ↔ v ∈ K ∧ d.get 0 v = 0) : Inv E K ⟨d, q, []⟩ := by
  have hpend : ∀ v, (pending E [] v : ℤ) = ((E.map Prod.snd).count v : ℤ) := by
    intro v
    rw [pending, count, countP_map]
    congr 1
    refine countP_congr (fun e _ => ?_)
    simp
  refine ⟨fun v => by rw [hdeg v, hpend v], by simpa using hnd, fun v => ?_, ?_⟩
  · simp only [nil_append, hq v, hdeg v, ← hpend v]
    exact and_congr_right (fun _ => by norm_cast)
  intro l₁ v l₂ h u hu
  have hv : v ∈ q := by
    rw [show q = l₁ ++ v :: l₂ by simpa using h]
    simp
  have h0 : pending E [] v = 0 := by
    have := ((hq v).mp hv).2
    rw [hdeg v, ← hpend v] at this
    exact_mod_cast this
  exact absurd ((pending_eq_zero_iff E [] v).mp h0 u hu) not_mem_nil

end Kahn
