/-
Breadth-first marking from a list of start vertices.

A vertex is marked when it enters the queue, so it enters at most once, and the
loop ends after one round per marked vertex. `loop_spec` says that the marks
left at the end are exactly the vertices reachable from a start, and
`loop_returns` that a round for every start and every edge is enough.
-/
import LinkFlow.Lib.Walk

set_option autoImplicit false

namespace Flood

open Relation Graph List

variable {V : Type} [DecidableEq V]

/-- `if !marked[n] { marked[n] = true; queue = append(queue, n) }` -/
def markOne (s : (V → Bool) × List V) (n : V) : (V → Bool) × List V :=
  if s.1 n = false then (Function.update s.1 n true, s.2 ++ [n]) else s

def markAll (m : V → Bool) (q : List V) (ns : List V) : (V → Bool) × List V :=
  ns.foldl markOne (m, q)

/-- `for len(queue) > 0 { … }`; `none` when the fuel runs out. -/
def loop (adj : V → List V) : ℕ → (V → Bool) × List V → Option (V → Bool)
  | 0, s => if s.2 = [] then some s.1 else none
  | fuel + 1, s =>
    match s.2 with
    | [] => some s.1
    | c :: q => loop adj fuel (markAll s.1 q (adj c))

def marksOf (starts : List V) : V → Bool := fun v => decide (v ∈ starts)

theorem markAll_spec (ns : List V) (m : V → Bool) (q : List V) :
    (∀ v, (markAll m q ns).1 v = true ↔ m v = true ∨ v ∈ ns) ∧
      ∃ new, (markAll m q ns).2 = q ++ new ∧ new.Nodup ∧
        ∀ v, v ∈ new ↔ v ∈ ns ∧ m v = false := by
  induction ns generalizing m q with
  | nil => exact ⟨fun v => by simp [markAll], [], by simp [markAll], nodup_nil, by simp⟩
  | cons n ns ih =>
    by_cases hn : m n = false
    · -- `n` is new: marked and queued here, and not again by the rest of the loop
      have hone : markOne (m, q) n = (Function.update m n true, q ++ [n]) := by
        simp [markOne, hn]
      have hfold : markAll m q (n :: ns) = markAll (Function.update m n true) (q ++ [n]) ns := by
        show ns.foldl markOne (markOne (m, q) n) = _
        rw [hone]; rfl
      obtain ⟨hmark, new, hq, hnd, hmem⟩ := ih (Function.update m n true) (q ++ [n])
      refine ⟨fun v => ?_, n :: new, by rw [hfold, hq]; simp, ?_, fun v => ?_⟩
      · rw [hfold, hmark v, mem_cons]
        by_cases h : v = n
        · subst h; simp
        · simp [h]
      · refine nodup_cons.mpr ⟨?_, hnd⟩
        rw [hmem n]
        simp
      · rw [mem_cons, hmem v, mem_cons]
        by_cases h : v = n
        · subst h; simp [hn]
        · simp [h]
    · have hn' : m n = true := by simpa using hn
      have hfold : markAll m q (n :: ns) = markAll m q ns := by
        show ns.foldl markOne (markOne (m, q) n) = _
        rw [show markOne (m, q) n = (m, q) by simp [markOne, hn']]
        rfl
      obtain ⟨hmark, new, hq, hnd, hmem⟩ := ih m q
      refine ⟨fun v => ?_, new, by rw [hfold, hq], hnd, fun v => ?_⟩
      · rw [hfold, hmark v, mem_cons]
        by_cases h : v = n
        · subst h; simp [hn']
        · simp [h]
      · rw [hmem v, mem_cons]
        by_cases h : v = n
        · subst h; simp [hn']
        · simp [h]

variable {m : V → Bool} {E : List (V × V)} {adj : V → List V} {starts : List V}
   {s : (V → Bool) × List V}

theorem marked_of_markAll {ns q : List V} {u : V} (hu : (markAll m q ns).1 u = true)
    (hq : u ∉ (markAll m q ns).2) : m u = true ∧ u ∉ q := by
  obtain ⟨hmark, new, hnew, -, hmem⟩ := markAll_spec ns m q
  rw [hnew, mem_append, not_or] at hq
  refine ⟨?_, hq.1⟩
  by_contra hne
  rcases (hmark u).mp hu with h | h
  · exact hne h
  · exact hq.2 ((hmem u).mpr ⟨h, by simpa using hne⟩)

/-- The loop invariant: the starts are marked, every mark is justified, and a
marked vertex that has left the queue has all its successors marked. -/
structure Inv (E : List (V × V)) (starts : List V) (s : (V → Bool) × List V) : Prop where
  start : ∀ v ∈ starts, s.1 v = true
  reach : ∀ v, s.1 v = true → ∃ a ∈ starts, Reach E a v
  queued : ∀ v ∈ s.2, s.1 v = true
  closed : ∀ u v, s.1 u = true → u ∉ s.2 → Edge E u v → s.1 v = true

theorem inv_init (E : List (V × V)) (starts : List V) : Inv E starts (marksOf starts, starts) := by
  refine ⟨fun v hv => by simpa [marksOf] using hv, fun v hv => ?_,
    fun v hv => by simpa [marksOf] using hv, fun u v hu hq _ => ?_⟩
  · exact ⟨v, by simpa [marksOf] using hv, ReflTransGen.refl⟩
  · exact absurd (by simpa [marksOf] using hu) hq

/-- Marking the neighbours of a vertex keeps what is marked reachable. -/
theorem Inv.step (hadj : ∀ u, adj u = succs E u) {c : V} {q : List V}
    (hs : Inv E starts (m, c :: q)) : Inv E starts (markAll m q (adj c)) := by
  obtain ⟨hmark, new, hq, -, hnew⟩ := markAll_spec (adj c) m q
  have hedge : ∀ v, v ∈ adj c ↔ Edge E c v := fun v => by rw [hadj, mem_succs]
  refine ⟨fun v hv => (hmark v).mpr (.inl (hs.start v hv)), fun v hv => ?_, fun v hv => ?_,
    fun u v hu hnq huv => ?_⟩
  · rcases (hmark v).mp hv with h | h
    · exact hs.reach v h
    · obtain ⟨a, ha, hac⟩ := hs.reach c (hs.queued c mem_cons_self)
      exact ⟨a, ha, ReflTransGen.tail hac ((hedge v).mp h)⟩
  · rw [hq] at hv
    rcases mem_append.mp hv with h | h
    · exact (hmark v).mpr (.inl (hs.queued v (mem_cons_of_mem c h)))
    · exact (hmark v).mpr (.inr ((hnew v).mp h).1)
  · obtain ⟨hm, hnq⟩ := marked_of_markAll hu hnq
    by_cases huc : u = c
    · subst huc
      exact (hmark v).mpr (.inr ((hedge v).mpr huv))
    have hnq' : u ∉ c :: q := by
      rw [mem_cons, not_or]
      exact ⟨huc, hnq⟩
    exact (hmark v).mpr (.inl (hs.closed u v hm hnq' huv))

omit [DecidableEq V] in
/-- With an empty queue everything reachable is marked. -/
theorem Inv.marked_iff (hs : Inv E starts s) (hq : s.2 = []) (v : V) :
    s.1 v = true ↔ ∃ a ∈ starts, Reach E a v := by
  refine ⟨hs.reach v, ?_⟩
  rintro ⟨a, ha, hav⟩
  refine Reach.mem_of_closed (S := fun u => s.1 u = true) (fun u w hu huw => ?_) hav (hs.start a ha)
  exact hs.closed u w hu (by rw [hq]; exact not_mem_nil) huw

/-- **The marks left at the end are the reachable vertices.** -/
theorem loop_spec (hadj : ∀ u, adj u = succs E u) (fuel : ℕ) (hs : Inv E starts s)
    (h : loop adj fuel s = some m) (v : V) : m v = true ↔ ∃ a ∈ starts, Reach E a v := by
  induction fuel generalizing s with
  | zero =>
    rw [loop] at h
    split_ifs at h with hq
    cases h
    exact hs.marked_iff hq v
  | succ fuel ih =>
    obtain ⟨m', q⟩ := s
    cases q with
    | nil =>
      cases h
      exact hs.marked_iff rfl v
    | cons c q => exact ih (hs.step hadj) h

/-! ## Termination -/

/-- How many vertices of `U` are unmarked. -/
def unmarked (U : Finset V) (m : V → Bool) : ℕ := (U.filter (fun u => m u = false)).card

/-- A vertex that is marked moves from the unmarked to the queued, so their sum stays. -/
theorem unmarked_markAll {U : Finset V} (m : V → Bool) (q ns : List V) (hns : ∀ n ∈ ns, n ∈ U) :
    unmarked U (markAll m q ns).1 + (markAll m q ns).2.length = unmarked U m + q.length := by
  obtain ⟨hmark, new, hq, hnd, hnew⟩ := markAll_spec ns m q
  have hsub : U.filter ((markAll m q ns).1 · = false) ⊆ U.filter (m · = false) := by
    intro u
    simp only [Finset.mem_filter, ← Bool.not_eq_true, hmark]
    tauto
  have hmoved : U.filter (m · = false) \ U.filter ((markAll m q ns).1 · = false)
      = new.toFinset := by
    ext u
    have hu := hns u
    simp only [Finset.mem_sdiff, Finset.mem_filter, mem_toFinset, hnew, ← Bool.not_eq_true, hmark]
    tauto
  have hcard := Finset.card_sdiff_add_card_eq_card hsub
  rw [hmoved, toFinset_card_of_nodup hnd] at hcard
  rw [unmarked, unmarked, hq, length_append]
  omega

/-- Fuel for the queue and every unmarked vertex is enough. -/
theorem loop_isSome (hadj : ∀ u, adj u = succs E u) (fuel : ℕ) (s : (V → Bool) × List V)
    (hfuel : unmarked (E.map Prod.snd).toFinset s.1 + s.2.length ≤ fuel) :
    ∃ m, loop adj fuel s = some m := by
  induction fuel generalizing s with
  | zero =>
    have hq : s.2 = [] := length_eq_zero_iff.mp (by omega)
    exact ⟨s.1, by rw [loop, if_pos hq]⟩
  | succ fuel ih =>
    obtain ⟨m, q⟩ := s
    cases q with
    | nil => exact ⟨m, rfl⟩
    | cons c q =>
      have htargets : ∀ n ∈ adj c, n ∈ (E.map Prod.snd).toFinset := by
        intro n hn
        rw [hadj, mem_succs] at hn
        exact mem_toFinset.mpr (mem_map.mpr ⟨(c, n), hn, rfl⟩)
      have hround := unmarked_markAll m q (adj c) htargets
      simp only [length_cons] at hfuel
      exact ih (markAll m q (adj c)) (by omega)

/-- **The search answers** if it has a round for every start and every edge. -/
theorem loop_returns (starts : List V) (hadj : ∀ u, adj u = succs E u) (fuel : ℕ)
    (hfuel : starts.length + E.length ≤ fuel) :
    ∃ m, loop adj fuel (marksOf starts, starts) = some m := by
  have hcard : unmarked (E.map Prod.snd).toFinset (marksOf starts) ≤ E.length := by
    refine le_trans (Finset.card_le_card (Finset.filter_subset _ _)) ?_
    exact le_trans (toFinset_card_le _) (by rw [length_map])
  exact loop_isSome hadj fuel (marksOf starts, starts) (by dsimp only; omega)

end Flood
