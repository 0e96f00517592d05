/-
First-come exploration of a graph: in which order a queue visits the vertices.

The queue starts with a list of start vertices; visiting a vertex appends the
unvisited targets of its edges in edge order, and a vertex found visited when it
reaches the head is dropped. A vertex may stand in the queue several times.

To say in which order vertices are visited, every queue entry is keyed by the
walk that put it there: the position of its start vertex followed by the
positions of the edges it took. `Inv` says that the keys of the visited entries
and of the queue are increasing in the shortlex order (shorter first, then
lexicographic), and that every walk is dominated by an entry (`Covered`).
From this follow, for any moment of the exploration, that the visited vertices
are closed under smaller walks (`Inv.visited_of_le`), and at its end that
exactly the reachable vertices were visited, each under its smallest walk.
-/
import LinkFlow.Lib.Kahn

set_option autoImplicit false

namespace Frontier

open Relation Graph List

variable {V : Type}

/-! ## Walks as keys -/

/-- `p` names a walk to `v`: a position in `starts`, then positions in `E`. -/
inductive Walk (starts : List V) (E : List (V × V)) : List ℕ → V → Prop
  | start {i : ℕ} {v : V} (h : starts[i]? = some v) : Walk starts E [i] v
  | step {p : List ℕ} {u v : V} {c : ℕ} (hp : Walk starts E p u) (hc : E[c]? = some (u, v)) :
      Walk starts E (p ++ [c]) v

def Less (p q : List ℕ) : Prop := List.Shortlex (· < ·) p q

theorem less_def {p q : List ℕ} :
    Less p q ↔ p.length < q.length ∨ p.length = q.length ∧ List.Lex (· < ·) p q :=
  shortlex_def

theorem less_irrefl (p : List ℕ) : ¬ Less p p :=
  fun h => Std.Asymm.asymm (r := List.Shortlex (· < ·)) p p h h

variable {p q r : List ℕ} {E : List (V × V)} {starts : List V} {v : V} {D K : List (List ℕ × V)}

theorem lex_trans (hpq : List.Lex (· < ·) p q) (hqr : List.Lex (· < ·) q r) :
    List.Lex (· < ·) p r := by
  have h₁ : p < q := hpq
  have h₂ : q < r := hqr
  exact lt_trans h₁ h₂

theorem less_trans (hpq : Less p q) (hqr : Less q r) : Less p r := by
  rw [less_def] at *
  rcases hpq with h₁ | ⟨h₁, l₁⟩
  · rcases hqr with h₂ | ⟨h₂, -⟩
    · exact .inl (by omega)
    · exact .inl (by omega)
  · rcases hqr with h₂ | ⟨h₂, l₂⟩
    · exact .inl (by omega)
    · exact .inr ⟨by omega, lex_trans l₁ l₂⟩

theorem less_of_le_of_less (hpq : p = q ∨ Less p q) (hqr : Less q r) : Less p r := by
  rcases hpq with rfl | hpq
  · exact hqr
  · exact less_trans hpq hqr

theorem less_of_less_of_le (hpq : Less p q) (hqr : q = r ∨ Less q r) : Less p r := by
  rcases hqr with rfl | hqr
  · exact hpq
  · exact less_trans hpq hqr

theorem less_snoc (p : List ℕ) (c : ℕ) : Less p (p ++ [c]) :=
  less_def.mpr (.inl (by simp))

theorem lex_append {p q : List ℕ} (h : List.Lex (· < ·) p q) (hlen : p.length = q.length)
    (s t : List ℕ) : List.Lex (· < ·) (p ++ s) (q ++ t) := by
  induction h with
  | nil => simp at hlen
  | rel h => exact List.Lex.rel h
  | cons _ ih => exact List.Lex.cons (ih (by simpa using hlen))

theorem less_snoc_snoc {p q : List ℕ} (h : Less p q) (c d : ℕ) : Less (p ++ [c]) (q ++ [d]) := by
  rw [less_def] at *
  rcases h with h | ⟨h, l⟩
  · exact .inl (by simpa using h)
  · exact .inr ⟨by simpa using h, lex_append l h [c] [d]⟩

theorem snoc_less_snoc (p : List ℕ) {c d : ℕ} (h : c < d) : Less (p ++ [c]) (p ++ [d]) := by
  refine List.Shortlex.append_left ?_ p
  exact (shortlex_singleton_iff c d).mpr h

theorem pairwise_zipIdx {α : Type} (l : List α) : l.zipIdx.Pairwise (fun a b => a.2 < b.2) := by
  have hidx : (l.zipIdx.map Prod.snd).Pairwise (· < ·) := by
    rw [zipIdx_map_snd]
    exact pairwise_lt_range'
  rwa [pairwise_map] at hidx

theorem Walk.length_pos {p : List ℕ} (h : Walk starts E p v) : 0 < p.length := by
  cases h with
  | start _ => simp
  | step _ _ => simp

/-- Positions are of the vertices that are reached. -/
theorem exists_walk_iff (starts : List V) (E : List (V × V)) (v : V) :
    (∃ p, Walk starts E p v) ↔ ∃ s ∈ starts, Reach E s v := by
  constructor
  · rintro ⟨p, hp⟩
    induction hp with
    | start h => exact ⟨_, mem_of_getElem? h, ReflTransGen.refl⟩
    | step _ hc ih =>
      obtain ⟨s, hs, hsu⟩ := ih
      exact ⟨s, hs, ReflTransGen.tail hsu (mem_of_getElem? hc)⟩
  · rintro ⟨s, hs, hsv⟩
    induction hsv with
    | refl =>
      obtain ⟨i, hi⟩ := getElem?_of_mem hs
      exact ⟨[i], Walk.start hi⟩
    | tail _ hedge ih =>
      obtain ⟨p, hp⟩ := ih
      obtain ⟨c, hc⟩ := getElem?_of_mem hedge
      exact ⟨p ++ [c], Walk.step hp hc⟩

/-! ## The invariant -/

/-- The walk `p` to `v` is in the queue, or `v` was visited under a key that is
not larger. -/
def Covered (D K : List (List ℕ × V)) (p : List ℕ) (v : V) : Prop :=
  (p, v) ∈ K ∨ ∃ x ∈ D, x.2 = v ∧ (x.1 = p ∨ Less x.1 p)

/-- The invariant of the exploration: `D` are the visited entries and `K` the
queue, each with its key. -/
structure Inv (starts : List V) (E : List (V × V)) (D K : List (List ℕ × V)) : Prop where
  walk : ∀ x ∈ D ++ K, Walk starts E x.1 x.2
  sorted : (D ++ K).Pairwise (fun x y => Less x.1 y.1)
  fresh : (D.map Prod.snd).Nodup
  parent : ∀ x ∈ K, x.1.length = 1 ∨ ∃ y ∈ D, ∃ c, x.1 = y.1 ++ [c]
  start_covered : ∀ i v, starts[i]? = some v → Covered D K [i] v
  step_covered : ∀ x ∈ D, ∀ c v, E[c]? = some (x.2, v) → Covered D K (x.1 ++ [c]) v

def initial (starts : List V) : List (List ℕ × V) := starts.zipIdx.map (fun x => ([x.2], x.1))

theorem map_snd_initial (starts : List V) : (initial starts).map Prod.snd = starts := by
  rw [initial, List.map_map]
  exact List.zipIdx_map_fst 0 starts

theorem mem_initial (starts : List V) (p : List ℕ) (v : V) :
    (p, v) ∈ initial starts ↔ ∃ i, p = [i] ∧ starts[i]? = some v := by
  simp only [initial, mem_map, Prod.mk.injEq, Prod.exists, mem_zipIdx_iff_getElem?]
  constructor
  · rintro ⟨a, i, h, rfl, rfl⟩
    exact ⟨i, rfl, h⟩
  · rintro ⟨i, rfl, h⟩
    exact ⟨v, i, h, rfl, rfl⟩

/-- Before the first round the frontier is the starts. -/
theorem inv_initial (starts : List V) (E : List (V × V)) : Inv starts E [] (initial starts) := by
  refine ⟨?_, ?_, nodup_nil, ?_, ?_, by simp⟩
  · rintro ⟨p, v⟩ hx
    obtain ⟨i, rfl, hi⟩ := (mem_initial starts p v).mp (by simpa using hx)
    exact Walk.start hi
  · rw [nil_append, initial, pairwise_map]
    refine (pairwise_zipIdx starts).imp (fun {a b} h => ?_)
    exact (shortlex_singleton_iff a.2 b.2).mpr h
  · rintro ⟨p, v⟩ hx
    obtain ⟨i, rfl, -⟩ := (mem_initial starts p v).mp hx
    exact .inl rfl
  · intro i v h
    exact .inl ((mem_initial starts [i] v).mpr ⟨i, rfl, h⟩)

/-! ## One round -/

/-- What dropping or visiting the head does to coverage: the head's own entry
moves to the visited ones, or was already beaten by one of them. -/
theorem Covered.move {D D' K K' : List (List ℕ × V)} {k : List ℕ} (hD : ∀ x ∈ D, x ∈ D')
    (hK : ∀ x ∈ K, x ∈ K') (hhead : ∃ x ∈ D', x.2 = v ∧ (x.1 = k ∨ Less x.1 k)) {p : List ℕ} {u : V}
    (h : Covered D ((k, v) :: K) p u) : Covered D' K' p u := by
  rcases h with h | ⟨x, hx, hu, hle⟩
  · rcases mem_cons.mp h with heq | h
    · cases heq
      exact .inr hhead
    · exact .inl (hK _ h)
  · exact .inr ⟨x, hD x hx, hu, hle⟩

/-- **Dropping a visited head keeps the invariant.** -/
theorem Inv.drop {k : List ℕ} (h : Inv starts E D ((k, v) :: K)) (hv : v ∈ D.map Prod.snd) :
    Inv starts E D K := by
  obtain ⟨x, hx, hxv⟩ := mem_map.mp hv
  have hlt : Less x.1 k :=
    (pairwise_append.mp h.sorted).2.2 x hx (k, v) mem_cons_self
  have hmove : ∀ {p u}, Covered D ((k, v) :: K) p u → Covered D K p u :=
    fun hc => hc.move (fun _ hy => hy) (fun _ hy => hy) ⟨x, hx, hxv, .inr hlt⟩
  have hsub : (D ++ K).Sublist (D ++ (k, v) :: K) :=
    (sublist_cons_self (k, v) K).append_left D
  exact ⟨fun y hy => h.walk y (hsub.subset hy), h.sorted.sublist hsub, h.fresh,
    fun y hy => h.parent y (mem_cons_of_mem _ hy), fun i u hi => hmove (h.start_covered i u hi),
    fun y hy c u hc => hmove (h.step_covered y hy c u hc)⟩

section Visit

variable [DecidableEq V]

/-- The entries a visit of `v` under key `k` appends: the targets of its edges
that `visited` does not hold, in edge order. -/
def extend (E : List (V × V)) (visited : List V) (k : List ℕ) (v : V) : List (List ℕ × V) :=
  E.zipIdx.filterMap (fun e =>
    if e.1.1 = v ∧ e.1.2 ∉ visited then some (k ++ [e.2], e.1.2) else none)

theorem mem_extend (E : List (V × V)) (visited : List V) (k p : List ℕ) (v t : V) :
    (p, t) ∈ extend E visited k v ↔
      ∃ c, p = k ++ [c] ∧ E[c]? = some (v, t) ∧ t ∉ visited := by
  simp only [extend, mem_filterMap, Prod.exists, mem_zipIdx_iff_getElem?]
  constructor
  · rintro ⟨a, b, c, hc, hif⟩
    split_ifs at hif with hcond
    obtain ⟨rfl, rfl⟩ := Prod.mk.inj (Option.some.inj hif)
    obtain ⟨rfl, hb⟩ := hcond
    exact ⟨c, rfl, hc, hb⟩
  · rintro ⟨c, rfl, hc, ht⟩
    exact ⟨v, t, c, hc, by rw [if_pos ⟨rfl, ht⟩]⟩

theorem map_snd_extend (E : List (V × V)) (visited : List V) (k : List ℕ) (v : V) :
    (extend E visited k v).map Prod.snd
      = (E.filter (fun e => e.1 = v ∧ e.2 ∉ visited)).map Prod.snd := by
  have hgen : ∀ n, ((E.zipIdx n).filterMap (fun e =>
      if e.1.1 = v ∧ e.1.2 ∉ visited then some (k ++ [e.2], e.1.2) else none)).map Prod.snd
        = (E.filter (fun e => e.1 = v ∧ e.2 ∉ visited)).map Prod.snd := by
    induction E with
    | nil => intro n; rfl
    | cons e E ih =>
      intro n
      rw [zipIdx_cons, filterMap_cons, filter_cons]
      by_cases hcond : e.1 = v ∧ e.2 ∉ visited
      · simp only [hcond, not_false_eq_true, and_self, if_true, map_cons, decide_true]
        rw [ih]
      · simp only [hcond, if_false, decide_false, Bool.false_eq_true]
        rw [ih]
  exact hgen 0

theorem sorted_extend (E : List (V × V)) (visited : List V) (k : List ℕ) (v : V) :
    (extend E visited k v).Pairwise (fun x y => Less x.1 y.1) := by
  refine List.Pairwise.filterMap _ (fun a a' haa' b hb b' hb' => ?_) (pairwise_zipIdx E)
  split_ifs at hb with hcond
  split_ifs at hb' with hcond'
  cases hb
  cases hb'
  exact snoc_less_snoc k haa'

/-- **Visiting a fresh head keeps the invariant.** -/
theorem Inv.visit {starts : List V} {E : List (V × V)} {D K : List (List ℕ × V)} {k : List ℕ}
    {v : V} (h : Inv starts E D ((k, v) :: K)) (hv : v ∉ D.map Prod.snd) :
    Inv starts E (D ++ [(k, v)]) (K ++ extend E ((D ++ [(k, v)]).map Prod.snd) k v) := by
  have hkv : (k, v) ∈ D ++ (k, v) :: K := mem_append_right _ mem_cons_self
  have hkwalk : Walk starts E k v := h.walk (k, v) hkv
  have hDlt : ∀ x ∈ D, Less x.1 k := fun x hx =>
    (pairwise_append.mp h.sorted).2.2 x hx (k, v) mem_cons_self
  have hlist : D ++ [(k, v)] ++ (K ++ extend E ((D ++ [(k, v)]).map Prod.snd) k v)
      = (D ++ (k, v) :: K) ++ extend E ((D ++ [(k, v)]).map Prod.snd) k v := by simp
  have hmove : ∀ {p u}, Covered D ((k, v) :: K) p u →
      Covered (D ++ [(k, v)]) (K ++ extend E ((D ++ [(k, v)]).map Prod.snd) k v) p u :=
    fun hc => hc.move (fun _ hx => mem_append_left _ hx)
      (fun _ hx => mem_append_left _ hx)
      ⟨(k, v), mem_append_right _ (mem_singleton.mpr rfl), rfl, .inl rfl⟩
  refine ⟨?_, ?_, ?_, ?_, fun i u hi => hmove (h.start_covered i u hi), ?_⟩
  · rw [hlist]
    rintro ⟨p, t⟩ hx
    rcases mem_append.mp hx with hx | hx
    · exact h.walk (p, t) hx
    · obtain ⟨c, rfl, hc, -⟩ := (mem_extend E _ k p v t).mp hx
      exact Walk.step hkwalk hc
  · rw [hlist]
    refine pairwise_append.mpr ⟨h.sorted, sorted_extend E _ k v, ?_⟩
    rintro x hx ⟨p, t⟩ hy
    obtain ⟨c, rfl, -, -⟩ := (mem_extend E _ k p v t).mp hy
    -- the old keys are at most `k`, or one edge longer than a key below `k`
    rcases mem_append.mp hx with hx | hx
    · exact less_trans (hDlt x hx) (less_snoc k c)
    rcases mem_cons.mp hx with rfl | hxK
    · exact less_snoc k c
    rcases h.parent x hx with hone | ⟨y, hy, d, hxy⟩
    · refine less_def.mpr (.inl ?_)
      have := hkwalk.length_pos
      simp only [length_append, length_singleton]
      omega
    · rw [hxy]
      exact less_snoc_snoc (hDlt y hy) d c
  · rw [map_append, map_singleton]
    refine nodup_append.mpr ⟨h.fresh, nodup_singleton v, ?_⟩
    rintro a ha b hb rfl
    rw [mem_singleton.mp hb] at ha
    exact hv ha
  · rintro ⟨p, t⟩ hx
    rcases mem_append.mp hx with hx | hx
    · rcases h.parent (p, t) (mem_cons_of_mem _ hx) with hone | ⟨y, hy, c, hpc⟩
      · exact .inl hone
      · exact .inr ⟨y, mem_append_left _ hy, c, hpc⟩
    · obtain ⟨c, rfl, -, -⟩ := (mem_extend E _ k p v t).mp hx
      exact .inr ⟨(k, v), mem_append_right _ (mem_singleton.mpr rfl), c, rfl⟩
  · intro x hx c u hc
    rcases mem_append.mp hx with hx | hx
    · exact hmove (h.step_covered x hx c u hc)
    -- an edge out of `v`: its target was visited, or joins the queue now
    obtain rfl := mem_singleton.mp hx
    by_cases hu : u ∈ (D ++ [(k, v)]).map Prod.snd
    · obtain ⟨y, hy, hyu⟩ := mem_map.mp hu
      refine .inr ⟨y, hy, hyu, .inr ?_⟩
      rcases mem_append.mp hy with hy | hy
      · exact less_trans (hDlt y hy) (less_snoc k c)
      · rw [mem_singleton.mp hy]
        exact less_snoc k c
    · exact .inl (mem_append_right _ ((mem_extend E _ k _ v u).mpr ⟨c, rfl, hc, hu⟩))

end Visit

/-! ## What the invariant gives -/

/-- Every walk ends at a vertex visited under a key that is not larger, or some
queue entry is not larger. The induction is on the walk. -/
theorem Inv.frontier (h : Inv starts E D K) {p : List ℕ} (hp : Walk starts E p v) :
    (∃ x ∈ D, x.2 = v ∧ (x.1 = p ∨ Less x.1 p)) ∨ ∃ x ∈ K, x.1 = p ∨ Less x.1 p := by
  induction hp with
  | start hi =>
    rcases h.start_covered _ _ hi with hK | hD
    · exact .inr ⟨_, hK, .inl rfl⟩
    · exact .inl hD
  | @step p u v c _ hc ih =>
    rcases ih with ⟨x, hx, rfl, hle⟩ | ⟨x, hx, hle⟩
    · have hle' : x.1 ++ [c] = p ++ [c] ∨ Less (x.1 ++ [c]) (p ++ [c]) :=
        hle.imp (fun e => by rw [e]) (fun hl => less_snoc_snoc hl c c)
      rcases h.step_covered x hx c v hc with hK | ⟨y, hy, hyv, hley⟩
      · exact .inr ⟨_, hK, hle'⟩
      refine .inl ⟨y, hy, hyv, ?_⟩
      rcases hley with heq | hl
      · rw [heq]; exact hle'
      · exact .inr (less_of_less_of_le hl hle')
    · -- an entry ahead of the shorter walk is ahead of the longer one
      exact .inr ⟨x, hx, .inr (less_of_le_of_less hle (less_snoc p c))⟩

/-- A walk below the key of a visited entry ends at a visited vertex: the keys
still in the queue are all larger. -/
theorem Inv.visited_of_le (h : Inv starts E D K) {y : List ℕ × V} (hy : y ∈ D) {p : List ℕ}
    (hp : Walk starts E p v) (hle : Less p y.1) : ∃ x ∈ D, x.2 = v ∧ (x.1 = p ∨ Less x.1 p) := by
  rcases h.frontier hp with hD | ⟨x, hx, hxp⟩
  · exact hD
  · have hyx : Less y.1 x.1 := (pairwise_append.mp h.sorted).2.2 y hy x hx
    have hxx : Less x.1 x.1 := less_of_le_of_less hxp (less_trans hle hyx)
    exact absurd hxx (less_irrefl x.1)

theorem Inv.before_of_less (h : Inv starts E D K) {x y : List ℕ × V} (hx : x ∈ D) (hy : y ∈ D)
    (hlt : Less x.1 y.1) : Kahn.Before (D.map Prod.snd) x.2 y.2 := by
  obtain ⟨l₁, l₂, rfl⟩ := append_of_mem hy
  refine ⟨l₁.map Prod.snd, l₂.map Prod.snd, by simp, ?_⟩
  have hpair := (pairwise_append.mp h.sorted).1
  rcases mem_append.mp hx with hx | hx
  · exact mem_map_of_mem hx
  -- `x` is `y` or comes after it
  rcases mem_cons.mp hx with rfl | hx
  · exact absurd hlt (less_irrefl _)
  · have hyx := (pairwise_cons.mp (pairwise_append.mp hpair).2.1).1 x hx
    exact absurd (less_trans hlt hyx) (less_irrefl _)

/-- `P` has a walk that is smaller than every walk to `N`. -/
def FirstReached (starts : List V) (E : List (V × V)) (P N : V) : Prop :=
  ∃ p, Walk starts E p P ∧ ∀ q, Walk starts E q N → Less p q

theorem Inv.before_of_firstReached (h : Inv starts E D K) {P N : V} (hN : N ∈ D.map Prod.snd)
    (hfirst : FirstReached starts E P N) : Kahn.Before (D.map Prod.snd) P N := by
  obtain ⟨y, hy, rfl⟩ := mem_map.mp hN
  obtain ⟨p, hp, hall⟩ := hfirst
  have hpy : Less p y.1 := hall y.1 (h.walk y (mem_append_left K hy))
  obtain ⟨x, hx, rfl, hle⟩ := h.visited_of_le hy hp hpy
  exact h.before_of_less hx hy (less_of_le_of_less hle hpy)

theorem Inv.le_of_walk {D : List (List ℕ × V)} (h : Inv starts E D []) {y : List ℕ × V} (hy : y ∈ D)
    {q : List ℕ} (hq : Walk starts E q y.2) : y.1 = q ∨ Less y.1 q := by
  rcases h.frontier hq with ⟨x, hx, hxy, hle⟩ | ⟨x, hx, -⟩
  · have hxy' : x = y := inj_on_of_nodup_map h.fresh hx hy hxy
    rw [← hxy']
    exact hle
  · exact absurd hx not_mem_nil

/-- The order of the visits is that of the least positions. -/
theorem Inv.firstReached_of_before {D : List (List ℕ × V)} (h : Inv starts E D []) {P N : V}
    (hbefore : Kahn.Before (D.map Prod.snd) P N) : FirstReached starts E P N := by
  obtain ⟨l₁, l₂, heq, hP⟩ := hbefore
  obtain ⟨D₁, D₂, rfl, rfl, hD₂⟩ := map_eq_append_iff.mp heq
  obtain ⟨y, D₃, rfl, rfl, -⟩ := map_eq_cons_iff.mp hD₂
  obtain ⟨x, hx, rfl⟩ := mem_map.mp hP
  have hxy : Less x.1 y.1 :=
    (pairwise_append.mp (pairwise_append.mp h.sorted).1).2.2 x hx y mem_cons_self
  have hxD : x ∈ D₁ ++ y :: D₃ := mem_append_left _ hx
  have hyD : y ∈ D₁ ++ y :: D₃ := mem_append_right _ mem_cons_self
  refine ⟨x.1, h.walk x (by simpa using hxD), fun q hq => ?_⟩
  exact less_of_less_of_le hxy (h.le_of_walk hyD hq)

/-- When the frontier is empty, what is reached is visited. -/
theorem Inv.visited_iff {D : List (List ℕ × V)} (h : Inv starts E D []) (v : V) :
    v ∈ D.map Prod.snd ↔ ∃ s ∈ starts, Reach E s v := by
  rw [← exists_walk_iff]
  constructor
  · intro hv
    obtain ⟨x, hx, rfl⟩ := mem_map.mp hv
    exact ⟨x.1, h.walk x (by simpa using hx)⟩
  · rintro ⟨p, hp⟩
    rcases h.frontier hp with ⟨x, hx, hxv, -⟩ | ⟨x, hx, -⟩
    · exact mem_map.mpr ⟨x, hx, hxv⟩
    · exact absurd hx not_mem_nil

end Frontier
