/-
Depth-first cycle detection with two shared mark maps.

`hasCycleDFS` is the usual recursive closure: it marks its vertex visited and
on the recursion stack, scans the neighbours, answers `true` at the first
neighbour that is on the stack, and takes its vertex off the stack again when
the scan ends. `hasCycleFrom` starts it at every root that is still unvisited,
with the marks of the earlier roots kept.

The recursion is not structural, so it takes fuel, and `none` means that the
fuel ran out. `hasCycleDFS_isSome` shows that as much fuel as there are
unvisited vertices is enough, `hasCycleFrom_returns` bounds that by the roots
and the edges, and `hasCycleFrom_correct` says what the answer means.

The invariant that carries the proof is `Sound`: a vertex that is visited and
off the stack is accessible towards its successors. It says in one clause that
finished vertices have only finished successors and lie on no closed walk, so
neither fact has to be threaded through the recursion separately.
-/
import LinkFlow.Lib.Walk

set_option autoImplicit false

namespace Dfs

open Relation List Option

/-- The two mark maps of the search. Both are read with the zero value `false`
and neither is ever iterated, so total functions carry all that matters. -/
structure Marks (V : Type) where
  (visited recStack : V → Bool)

variable {V : Type} [DecidableEq V]

namespace Marks

/-- The two empty maps the search starts with. -/
def none : Marks V := ⟨fun _ => false, fun _ => false⟩

/-- `visited[v] = true; recStack[v] = true` -/
def enter (m : Marks V) (v : V) : Marks V :=
  ⟨Function.update m.visited v true, Function.update m.recStack v true⟩

/-- `recStack[v] = false` -/
def leave (m : Marks V) (v : V) : Marks V :=
  { m with recStack := Function.update m.recStack v false }

end Marks

/-! ## The search -/

/-- The loop over the neighbours. `visit` is the recursive call. -/
def scan (visit : V → Marks V → Option (Bool × Marks V)) :
    List V → Marks V → Option (Bool × Marks V)
  | [], m => some (false, m)
  | n :: ns, m =>
    if m.visited n = false then
      match visit n m with
      | none => none
      | some (true, m') => some (true, m')
      | some (false, m') => scan visit ns m'
    else if m.recStack n = true then some (true, m)
    else scan visit ns m

/-- The recursive search from `v`; `none` when the fuel runs out. -/
def hasCycleDFS (adj : V → List V) : ℕ → V → Marks V → Option (Bool × Marks V)
  | 0, _, _ => none
  | fuel + 1, v, m =>
    match scan (hasCycleDFS adj fuel) (adj v) (m.enter v) with
    | none => none
    | some (true, m') => some (true, m')
    | some (false, m') => some (false, m'.leave v)

def hasCycleFrom (adj : V → List V) (fuel : ℕ) : List V → Marks V → Option Bool
  | [], _ => some false
  | r :: rs, m =>
    if m.visited r = false then
      match hasCycleDFS adj fuel r m with
      | none => none
      | some (true, _) => some true
      | some (false, m') => hasCycleFrom adj fuel rs m'
    else hasCycleFrom adj fuel rs m

/-! ## What the marks mean -/

/-- The step relation of the graph. -/
def Step (adj : V → List V) (u v : V) : Prop := v ∈ adj u

/-- Stack vertices are visited, and a finished vertex is accessible towards its
successors. -/
structure Sound (adj : V → List V) (m : Marks V) : Prop where
  stack_visited : ∀ u, m.recStack u = true → m.visited u = true
  finished : ∀ u, m.visited u = true → m.recStack u = false → Acc (fun a b => Step adj b a) u

/-- What a call that found no cycle leaves behind. -/
structure Returned (adj : V → List V) (m m' : Marks V) : Prop where
  sound : Sound adj m'
  stack : m'.recStack = m.recStack
  grows : ∀ u, m.visited u = true → m'.visited u = true

omit [DecidableEq V] in
theorem Returned.trans {adj : V → List V} {m₁ m₂ m₃ : Marks V} (h₁ : Returned adj m₁ m₂)
    (h₂ : Returned adj m₂ m₃) : Returned adj m₁ m₃ :=
  ⟨h₂.sound, h₂.stack.trans h₁.stack, fun u hu => h₂.grows u (h₁.grows u hu)⟩

/-- What a call of the search from `v` on the marks `m` establishes: an answer
`true` comes with a closed walk, an answer `false` with `v` finished. -/
def VisitSpec (adj : V → List V) (v : V) (m : Marks V) (r : Bool × Marks V) : Prop :=
  match r with
  | (true, _) => ∃ u, TransGen (Step adj) u u
  | (false, m') => Returned adj m m' ∧ m'.visited v = true

theorem Marks.visited_enter {m : Marks V} {u : V} (h : m.visited u = true) (v : V) :
    (m.enter v).visited u = true := by
  by_cases huv : u = v
  · subst huv; simp [enter]
  · simpa only [enter, Function.update_of_ne huv] using h

theorem sound_enter {adj : V → List V} {m : Marks V} (hm : Sound adj m) (v : V) :
    Sound adj (m.enter v) := by
  constructor
  · intro u hu
    by_cases h : u = v
    · subst h; simp [Marks.enter]
    · simp only [Marks.enter, Function.update_of_ne h] at hu ⊢
      exact hm.stack_visited u hu
  · intro u hu hs
    by_cases h : u = v
    · subst h; simp [Marks.enter] at hs
    · simp only [Marks.enter, Function.update_of_ne h] at hu hs
      exact hm.finished u hu hs

theorem sound_leave {adj : V → List V} {m : Marks V} (hm : Sound adj m) (v : V)
    (hv : ∀ n ∈ adj v, m.visited n = true ∧ m.recStack n = false) : Sound adj (m.leave v) := by
  constructor
  · intro u hu
    by_cases h : u = v
    · subst h; simp [Marks.leave] at hu
    · simp only [Marks.leave, Function.update_of_ne h] at hu ⊢
      exact hm.stack_visited u hu
  · intro u hu hs
    by_cases h : u = v
    · subst h
      refine Acc.intro _ (fun n hn => ?_)
      obtain ⟨hvis, hoff⟩ := hv n hn
      exact hm.finished n hvis hoff
    · simp only [Marks.leave, Function.update_of_ne h] at hu hs
      exact hm.finished u hu hs

omit [DecidableEq V] in
/-- The neighbour loop. Every stack vertex reaches `v`, so a neighbour on the
stack closes a walk; and a scan that ends has finished all of `ns`. -/
theorem scan_spec {adj : V → List V} {visit : V → Marks V → Option (Bool × Marks V)} {v : V}
    (hvisit : ∀ n m r, n ∈ adj v → m.visited n = false → Sound adj m →
      (∀ u, m.recStack u = true → ReflTransGen (Step adj) u n) →
      visit n m = some r → VisitSpec adj n m r)
    (ns : List V) (m : Marks V) (b : Bool) (m' : Marks V)
    (hns : ∀ n ∈ ns, n ∈ adj v) (hm : Sound adj m)
    (hstk : ∀ u, m.recStack u = true → ReflTransGen (Step adj) u v)
    (h : scan visit ns m = some (b, m')) : (b = true → ∃ u, TransGen (Step adj) u u) ∧
      (b = false → Returned adj m m' ∧
        ∀ n ∈ ns, m'.visited n = true ∧ m'.recStack n = false) := by
  induction ns generalizing m with
  | nil =>
    simp only [scan, some.injEq, Prod.mk.injEq] at h
    obtain ⟨rfl, rfl⟩ := h
    exact ⟨by simp, fun _ => ⟨⟨hm, rfl, fun _ hu => hu⟩, by simp⟩⟩
  | cons n ns ih =>
    have hn : n ∈ adj v := hns n mem_cons_self
    have hns' : ∀ k ∈ ns, k ∈ adj v := fun k hk => hns k (mem_cons_of_mem n hk)
    rw [scan] at h
    by_cases hvis : m.visited n = false
    · rw [if_pos hvis] at h
      have hreach : ∀ u, m.recStack u = true → ReflTransGen (Step adj) u n :=
        fun u hu => (hstk u hu).tail hn
      cases hr : visit n m with
      | none => rw [hr] at h; simp at h
      | some r =>
        have hspec := hvisit n m r hn hvis hm hreach hr
        rw [hr] at h
        obtain ⟨c, m₁⟩ := r
        cases c with
        | true =>
          simp only [some.injEq, Prod.mk.injEq] at h
          obtain ⟨rfl, rfl⟩ := h
          exact ⟨fun _ => hspec, by simp⟩
        | false =>
          -- `n` was unvisited, so it was off the stack, and the call put the stack back
          obtain ⟨hret, hfin⟩ := hspec
          have hoff : m₁.recStack n = false := by
            by_contra hon
            have hon' : m.recStack n = true := by
              rw [← hret.stack]; simpa using hon
            rw [hm.stack_visited n hon'] at hvis
            exact absurd hvis (by simp)
          obtain ⟨htrue, hfalse⟩ := ih m₁ hns' hret.sound
            (fun u hu => hstk u (by rw [← hret.stack]; exact hu)) h
          refine ⟨htrue, fun hb => ?_⟩
          obtain ⟨hret', hall⟩ := hfalse hb
          refine ⟨hret.trans hret', ?_⟩
          intro k hk
          rcases mem_cons.mp hk with rfl | hk
          · exact ⟨hret'.grows k hfin, by rw [hret'.stack]; exact hoff⟩
          · exact hall k hk
    · have hvis' : m.visited n = true := by simpa using hvis
      rw [if_neg hvis] at h
      by_cases hon : m.recStack n = true
      · -- a back edge: the stack vertex `n` reaches `v`, and `v` steps to `n`
        rw [if_pos hon] at h
        simp only [some.injEq, Prod.mk.injEq] at h
        obtain ⟨rfl, rfl⟩ := h
        exact ⟨fun _ => ⟨n, TransGen.tail' (hstk n hon) hn⟩, by simp⟩
      · -- `n` was finished by an earlier call and is skipped
        rw [if_neg hon] at h
        obtain ⟨htrue, hfalse⟩ := ih m hns' hm hstk h
        refine ⟨htrue, fun hb => ?_⟩
        obtain ⟨hret', hall⟩ := hfalse hb
        refine ⟨hret', ?_⟩
        intro k hk
        rcases mem_cons.mp hk with rfl | hk
        · exact ⟨hret'.grows k hvis', by rw [hret'.stack]; simpa using hon⟩
        · exact hall k hk

/-- **The recursive search is right**, by induction on the fuel. -/
theorem hasCycleDFS_spec (adj : V → List V) (fuel : ℕ) (v : V) (m : Marks V) (r : Bool × Marks V)
    (hvis : m.visited v = false) (hm : Sound adj m)
    (hstk : ∀ u, m.recStack u = true → ReflTransGen (Step adj) u v)
    (h : hasCycleDFS adj fuel v m = some r) : VisitSpec adj v m r := by
  induction fuel generalizing v m r with
  | zero => simp [hasCycleDFS] at h
  | succ fuel ih =>
    have hstk' : ∀ u, (m.enter v).recStack u = true → ReflTransGen (Step adj) u v := by
      intro u hu
      by_cases huv : u = v
      · subst huv; exact ReflTransGen.refl
      · simp only [Marks.enter, Function.update_of_ne huv] at hu
        exact hstk u hu
    rw [hasCycleDFS] at h
    cases hs : scan (hasCycleDFS adj fuel) (adj v) (m.enter v) with
    | none => rw [hs] at h; simp at h
    | some q =>
      rw [hs] at h
      obtain ⟨b, m₁⟩ := q
      obtain ⟨htrue, hfalse⟩ := scan_spec (v := v)
        (fun n m r _ hv' hm' hst' hr => ih n m r hv' hm' hst' hr)
        (adj v) (m.enter v) b m₁ (fun _ hn => hn) (sound_enter hm v) hstk' hs
      cases b with
      | true =>
        simp only [some.injEq] at h
        subst h
        exact htrue rfl
      | false =>
        simp only [some.injEq] at h
        subst h
        obtain ⟨hret, hall⟩ := hfalse rfl
        have hoff : m.recStack v = false := by
          by_contra hon
          have := hm.stack_visited v (by simpa using hon)
          rw [this] at hvis
          exact absurd hvis (by simp)
        refine ⟨⟨sound_leave hret.sound v hall, ?_, ?_⟩, ?_⟩
        · funext u
          by_cases huv : u = v
          · subst huv; simp [Marks.leave, hoff]
          · simp only [Marks.leave, Function.update_of_ne huv, hret.stack, Marks.enter]
        · intro u hu
          exact hret.grows u (Marks.visited_enter hu v)
        · exact hret.grows v (by simp [Marks.enter])

/-- The answer is yes only if there is a cycle, and no only if the roots reach none. -/
theorem hasCycleFrom_spec (adj : V → List V) (fuel : ℕ) (rs : List V) (m : Marks V) (b : Bool)
    (hm : Sound adj m) (hstk : ∀ u, m.recStack u = false)
    (h : hasCycleFrom adj fuel rs m = some b) : (b = true → ∃ u, TransGen (Step adj) u u) ∧
      (b = false → ∀ r ∈ rs, Acc (fun a b => Step adj b a) r) := by
  induction rs generalizing m with
  | nil =>
    simp only [hasCycleFrom, some.injEq] at h
    subst h
    exact ⟨by simp, by simp⟩
  | cons r rs ih =>
    rw [hasCycleFrom] at h
    by_cases hvis : m.visited r = false
    · rw [if_pos hvis] at h
      cases hr : hasCycleDFS adj fuel r m with
      | none => rw [hr] at h; simp at h
      | some q =>
        have hspec := hasCycleDFS_spec adj fuel r m q hvis hm
          (fun u hu => by rw [hstk u] at hu; exact absurd hu (by simp)) hr
        rw [hr] at h
        obtain ⟨c, m₁⟩ := q
        cases c with
        | true =>
          simp only [some.injEq] at h
          subst h
          exact ⟨fun _ => hspec, by simp⟩
        | false =>
          obtain ⟨hret, hfin⟩ := hspec
          have hstk₁ : ∀ u, m₁.recStack u = false := fun u => by rw [hret.stack]; exact hstk u
          obtain ⟨htrue, hfalse⟩ := ih m₁ hret.sound hstk₁ h
          refine ⟨htrue, fun hb k hk => ?_⟩
          rcases mem_cons.mp hk with rfl | hk
          · exact hret.sound.finished k hfin (hstk₁ k)
          · exact hfalse hb k hk
    · rw [if_neg hvis] at h
      obtain ⟨htrue, hfalse⟩ := ih m hm hstk h
      refine ⟨htrue, fun hb k hk => ?_⟩
      rcases mem_cons.mp hk with rfl | hk
      · exact hm.finished k (by simpa using hvis) (hstk k)
      · exact hfalse hb k hk

/-! ## Termination

The fuel is a bound on the recursion depth. Every nested call marks a vertex
that was unvisited before, so the number of unvisited vertices of a finite set
closed under `adj` is enough. -/

/-- How many vertices of `U` are unvisited. -/
def unvisited (U : Finset V) (m : Marks V) : ℕ := (U.filter (fun u => m.visited u = false)).card

omit [DecidableEq V] in
theorem unvisited_mono (U : Finset V) {m m' : Marks V}
    (h : ∀ u, m.visited u = true → m'.visited u = true) : unvisited U m' ≤ unvisited U m := by
  refine Finset.card_le_card (fun u hu => ?_)
  obtain ⟨huU, huv⟩ := Finset.mem_filter.mp hu
  refine Finset.mem_filter.mpr ⟨huU, ?_⟩
  by_contra hne
  rw [h u (by simpa using hne)] at huv
  exact absurd huv (by simp)

theorem unvisited_enter (U : Finset V) {m : Marks V} {v : V} (hv : v ∈ U)
    (hvis : m.visited v = false) : unvisited U (m.enter v) < unvisited U m := by
  refine Finset.card_lt_card (Finset.ssubset_iff_subset_ne.mpr ⟨fun u hu => ?_, fun heq => ?_⟩)
  · obtain ⟨huU, huv⟩ := Finset.mem_filter.mp hu
    refine Finset.mem_filter.mpr ⟨huU, ?_⟩
    by_cases huv' : u = v
    · subst huv'; exact hvis
    · simpa only [Marks.enter, Function.update_of_ne huv'] using huv
  · have hmem : v ∈ U.filter (fun u => m.visited u = false) := Finset.mem_filter.mpr ⟨hv, hvis⟩
    rw [← heq] at hmem
    have hfalse := (Finset.mem_filter.mp hmem).2
    simp [Marks.enter] at hfalse

omit [DecidableEq V] in
theorem scan_isSome {visit : V → Marks V → Option (Bool × Marks V)} {U : Finset V} {k : ℕ}
    (hvisit : ∀ n ∈ U, ∀ m, m.visited n = false → unvisited U m ≤ k →
      ∃ b m', visit n m = some (b, m') ∧ ∀ u, m.visited u = true → m'.visited u = true)
    (ns : List V) (hns : ∀ n ∈ ns, n ∈ U) (m : Marks V) (hk : unvisited U m ≤ k) :
    ∃ b m', scan visit ns m = some (b, m') ∧ ∀ u, m.visited u = true → m'.visited u = true := by
  induction ns generalizing m with
  | nil => exact ⟨false, m, rfl, fun _ hu => hu⟩
  | cons n ns ih =>
    have hns' : ∀ a ∈ ns, a ∈ U := fun a ha => hns a (mem_cons_of_mem n ha)
    rw [scan]
    by_cases hvis : m.visited n = false
    · obtain ⟨b, m₁, hr, hgrow⟩ := hvisit n (hns n mem_cons_self) m hvis hk
      rw [if_pos hvis, hr]
      cases b with
      | true => exact ⟨true, m₁, rfl, hgrow⟩
      | false =>
        obtain ⟨c, m₂, hr₂, hgrow₂⟩ :=
          ih hns' m₁ (le_trans (unvisited_mono U hgrow) hk)
        exact ⟨c, m₂, hr₂, fun u hu => hgrow₂ u (hgrow u hu)⟩
    · rw [if_neg hvis]
      by_cases hon : m.recStack n = true
      · rw [if_pos hon]; exact ⟨true, m, rfl, fun _ hu => hu⟩
      · rw [if_neg hon]; exact ih hns' m hk

/-- Fuel for every vertex not visited yet is enough. -/
theorem hasCycleDFS_isSome {adj : V → List V} {U : Finset V}
    (hU : ∀ u ∈ U, ∀ n ∈ adj u, n ∈ U) (fuel : ℕ) :
    ∀ v ∈ U, ∀ m : Marks V, m.visited v = false → unvisited U m ≤ fuel →
      ∃ b m', hasCycleDFS adj fuel v m = some (b, m') ∧
        ∀ u, m.visited u = true → m'.visited u = true := by
  induction fuel with
  | zero =>
    -- `v` itself is unvisited, so the bound is not zero
    intro v hv m hvis hfuel
    have := unvisited_enter U hv hvis
    omega
  | succ fuel ih =>
    intro v hv m hvis hfuel
    have hlt := unvisited_enter U hv hvis
    obtain ⟨b, m₁, hs, hgrow⟩ := scan_isSome ih (adj v) (hU v hv) (m.enter v) (by omega)
    have hgrow' : ∀ u, m.visited u = true → m₁.visited u = true :=
      fun u hu => hgrow u (Marks.visited_enter hu v)
    rw [hasCycleDFS, hs]
    cases b with
    | true => exact ⟨true, m₁, rfl, hgrow'⟩
    | false => exact ⟨false, m₁.leave v, rfl, hgrow'⟩

theorem hasCycleFrom_isSome {adj : V → List V} {U : Finset V}
    (hU : ∀ u ∈ U, ∀ n ∈ adj u, n ∈ U) (fuel : ℕ) (rs : List V) (hrs : ∀ r ∈ rs, r ∈ U)
    (m : Marks V) (hfuel : unvisited U m ≤ fuel) : ∃ b, hasCycleFrom adj fuel rs m = some b := by
  induction rs generalizing m with
  | nil => exact ⟨false, rfl⟩
  | cons r rs ih =>
    have hrs' : ∀ a ∈ rs, a ∈ U := fun a ha => hrs a (mem_cons_of_mem r ha)
    rw [hasCycleFrom]
    by_cases hvis : m.visited r = false
    · obtain ⟨b, m₁, hr, hgrow⟩ :=
        hasCycleDFS_isSome hU fuel r (hrs r mem_cons_self) m hvis hfuel
      rw [if_pos hvis, hr]
      cases b with
      | true => exact ⟨true, rfl⟩
      | false => exact ih hrs' m₁ (le_trans (unvisited_mono U hgrow) hfuel)
    · rw [if_neg hvis]; exact ih hrs' m hfuel

theorem hasCycleFrom_returns (E : List (V × V)) {adj : V → List V}
    (hadj : ∀ u, adj u = Graph.succs E u) (roots : List V) (fuel : ℕ)
    (hfuel : roots.length + E.length ≤ fuel) :
    ∃ b, hasCycleFrom adj fuel roots Marks.none = some b := by
  -- the vertices a call can be made for: a root or an edge target
  let U : Finset V := (roots ++ E.map Prod.snd).toFinset
  have hclosed : ∀ u ∈ U, ∀ n ∈ adj u, n ∈ U := by
    intro u _ n hn
    rw [hadj, Graph.mem_succs] at hn
    exact mem_toFinset.mpr (mem_append_right _ (mem_map.mpr ⟨(u, n), hn, rfl⟩))
  refine hasCycleFrom_isSome hclosed fuel roots
    (fun r hr => mem_toFinset.mpr (mem_append_left _ hr)) Marks.none ?_
  have hcard : unvisited U (Marks.none : Marks V) ≤ U.card :=
    Finset.card_le_card (Finset.filter_subset _ _)
  have hlen : U.card ≤ (roots ++ E.map Prod.snd).length := toFinset_card_le _
  rw [length_append, length_map] at hlen
  omega

/-! ## The answer -/

omit [DecidableEq V] in
theorem sound_none (adj : V → List V) : Sound adj Marks.none :=
  ⟨by simp [Marks.none], by simp [Marks.none]⟩

/-- **The search decides whether the graph has a closed walk**, for an `adj` that reads the
successors off the edges and roots that contain every edge source: enough fuel gives an answer, and
any answer is right. -/
theorem hasCycleFrom_correct (E : List (V × V)) (adj : V → List V)
    (hadj : ∀ u, adj u = Graph.succs E u) (roots : List V)
    (hsrc : ∀ u v, Graph.Edge E u v → u ∈ roots) : (∀ fuel, roots.length + E.length ≤ fuel →
      ∃ b, hasCycleFrom adj fuel roots Marks.none = some b) ∧
    (∀ fuel b, hasCycleFrom adj fuel roots Marks.none = some b →
      (b = true ↔ Graph.HasClosedWalk E)) := by
  refine ⟨hasCycleFrom_returns E hadj roots, fun fuel b h => ?_⟩
  obtain ⟨htrue, hfalse⟩ := hasCycleFrom_spec adj fuel roots Marks.none b (sound_none adj)
    (fun _ => rfl) h
  have hrel : Step adj = Graph.Edge E := by
    funext u v
    rw [Step, hadj, Graph.mem_succs]
  rw [hrel] at htrue hfalse
  refine ⟨htrue, fun hcyc => ?_⟩
  -- after an answer `false` every source is accessible, which leaves no closed walk
  by_contra hb
  refine Graph.acyclic_of_acc_succ (fun u v huv => ?_) hcyc
  exact hfalse (by simpa using hb) u (hsrc u v huv)

end Dfs
