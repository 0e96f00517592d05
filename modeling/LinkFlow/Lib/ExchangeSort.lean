/-
Sorting by exchanges: two nested loops that swap the elements at `i < j` whenever they are out of
order.

After the inner loop for `i` the greatest of the elements from `i` on is at `i`, so the list ends
up in descending order of its keys. The sort is not stable: a swap carries an element past others
with the same key.

The first `n` elements of two lists in descending order are the same if every element of only one of
them has `n` common ones before it (`exists_take_eq`), and conversely (`length_le_of_take_eq`).
-/
import Mathlib

set_option autoImplicit false

namespace ExchangeSort

open List

variable {α K : Type} [LinearOrder K] (key : α → K)

/-- The inner loop for the element `a` at `i`: what is at `i` afterwards, and the elements behind
it. -/
def pass : α → List α → α × List α
  | a, [] => (a, [])
  | a, b :: l =>
    if key a < key b then ((pass b l).1, a :: (pass b l).2)
    else ((pass a l).1, b :: (pass a l).2)

/-- The outer loop, for the first `n` positions. -/
def loop : ℕ → List α → List α
  | n + 1, a :: l => (pass key a l).1 :: loop n (pass key a l).2
  | _, l => l

def sort (l : List α) : List α := loop key l.length l

theorem pass_perm (a : α) (l : List α) : ((pass key a l).1 :: (pass key a l).2).Perm (a :: l) := by
  induction l generalizing a with
  | nil => exact List.Perm.refl _
  | cons b l ih =>
    rw [pass]
    split_ifs
    · exact (List.Perm.swap _ _ _).trans ((ih b).cons a)
    · exact (List.Perm.swap _ _ _).trans (((ih a).cons b).trans (List.Perm.swap _ _ _))

theorem le_pass (a : α) (l : List α) : ∀ x ∈ a :: l, key x ≤ key (pass key a l).1 := by
  induction l generalizing a with
  | nil =>
    intro x hx
    rw [mem_singleton.mp hx]
    exact le_rfl
  | cons b l ih =>
    intro x hx
    rw [pass]
    split_ifs with h
    · have hb := ih b b mem_cons_self
      rcases mem_cons.mp hx with rfl | hx
      · exact h.le.trans hb
      · exact ih b x hx
    · have ha := ih a a mem_cons_self
      rcases mem_cons.mp hx with rfl | hx
      · exact ha
      rcases mem_cons.mp hx with rfl | hx
      · exact (le_of_not_gt h).trans ha
      · exact ih a x (mem_cons_of_mem a hx)

theorem loop_perm (n : ℕ) (l : List α) : (loop key n l).Perm l := by
  induction n generalizing l with
  | zero => cases l <;> exact List.Perm.refl _
  | succ n ih =>
    cases l with
    | nil => exact List.Perm.refl _
    | cons a l => exact ((ih _).cons _).trans (pass_perm key a l)

theorem sort_perm (l : List α) : (sort key l).Perm l := loop_perm key _ l

/-- The sort returns the greatest first. -/
theorem loop_pairwise (n : ℕ) (l : List α) (h : l.length ≤ n) :
    (loop key n l).Pairwise (fun a b => key b ≤ key a) := by
  induction n generalizing l with
  | zero =>
    rw [length_eq_zero_iff.mp (Nat.le_zero.mp h)]
    exact List.Pairwise.nil
  | succ n ih =>
    cases l with
    | nil => exact List.Pairwise.nil
    | cons a l =>
      have hlength := (pass_perm key a l).length_eq
      rw [length_cons, length_cons] at hlength
      refine pairwise_cons.mpr ⟨fun x hx => ?_, ih _ ?_⟩
      · have hmem : x ∈ (pass key a l).2 := (loop_perm key n _).mem_iff.mp hx
        exact le_pass key a l x
          ((pass_perm key a l).mem_iff.mp (mem_cons_of_mem _ hmem))
      · rw [length_cons] at h
        omega

theorem sort_pairwise (l : List α) : (sort key l).Pairwise (fun a b => key b ≤ key a) :=
  loop_pairwise key _ l le_rfl

/-! ## The first elements of a list in descending order -/

section Take

variable {key} {n : ℕ} {a l S : List α}

/-- What is not among the first `n` elements has no greater key than they have. -/
theorem key_le_of_mem_take (ha : a.Pairwise (fun x y => key y ≤ key x)) {r y : α}
    (hr : r ∈ a.take n) (hy : y ∈ a) (hnot : y ∉ a.take n) : key y ≤ key r := by
  rw [← take_append_drop n a] at hy ha
  exact (pairwise_append.mp ha).2.2 r hr y ((mem_append.mp hy).resolve_left hnot)

/-- Fewer than `n` elements have a greater key than one of the first `n`. -/
theorem length_filter_lt (ha : a.Pairwise (fun x y => key y ≤ key x)) {r : α}
    (hr : r ∈ a.take n) (hS : S.Nodup) (hsub : ∀ t ∈ S, t ∈ a) {p : α → Bool}
    (hp : ∀ t, p t = true → key r < key t) : (S.filter p).length < n := by
  have htake : ∀ t ∈ S.filter p, t ∈ a.take n := by
    intro t ht
    by_contra hnot
    obtain ⟨htS, hpt⟩ := mem_filter.mp ht
    exact absurd (key_le_of_mem_take ha hr (hsub t htS) hnot) (not_le.mpr (hp t hpt))
  have hnodup : (r :: S.filter p).Nodup :=
    nodup_cons.mpr ⟨fun hmem => lt_irrefl _ (hp r (mem_filter.mp hmem).2), hS.filter p⟩
  have hle := (hnodup.subperm (cons_subset.mpr ⟨hr, htake⟩)).length_le
  rw [length_cons] at hle
  exact Nat.lt_of_lt_of_le hle (length_take_le n a)

/-- The first `n` elements of the list are the first of `M`, in some order of `M`, if every element
that is not in `M` has `n` of the common ones before it, and so has every element of `M` that is
missing, up to equal keys. -/
theorem exists_take_eq {M : List α} (ha : a.Pairwise (fun x y => key y ≤ key x)) (hnodup : a.Nodup)
    (hM : M.Nodup) (hS : S.Nodup) (hcommon : ∀ x ∈ S, x ∈ a ∧ x ∈ M)
    (hwrong : ∀ x ∈ a, x ∉ M → n ≤ (S.filter (fun y => key x < key y)).length)
    (hmissed : ∀ x ∈ M, x ∉ a → n ≤ (S.filter (fun y => key x ≤ key y)).length) :
    ∃ l : List α, l.Perm M ∧ l.Pairwise (fun x y => key y ≤ key x) ∧ a.take n = l.take n := by
  classical
  have hsub : ∀ t ∈ S, t ∈ a := fun t ht => (hcommon t ht).1
  have hfirst : ∀ r ∈ a.take n, r ∈ M := by
    intro r hr
    by_contra hnot
    exact not_lt.mpr (hwrong r (mem_of_mem_take hr) hnot)
      (length_filter_lt ha hr hS hsub fun t ht => of_decide_eq_true ht)
  -- what of `M` is not among the first elements has no greater key than they have
  have hrest : ∀ r ∈ a.take n, ∀ y ∈ M, y ∉ a.take n → key y ≤ key r := by
    intro r hr y hy hnot
    by_cases hya : y ∈ a
    · exact key_le_of_mem_take ha hr hya hnot
    · by_contra hlt
      exact not_lt.mpr (hmissed y hy hya) (length_filter_lt ha hr hS hsub fun t ht =>
        lt_of_lt_of_le (not_le.mp hlt) (of_decide_eq_true ht))
  let rest := M.filter (fun y => y ∉ a.take n)
  have hmem : ∀ y, y ∈ sort key rest ↔ y ∈ M ∧ y ∉ a.take n := fun y => by
    rw [(sort_perm key rest).mem_iff, mem_filter, decide_eq_true_eq]
  refine ⟨a.take n ++ sort key rest, ?_, ?_, ?_⟩
  · refine (perm_ext_iff_of_nodup (nodup_append.mpr ⟨hnodup.sublist (take_sublist n a),
      (sort_perm key rest).nodup_iff.mpr (hM.filter _), ?_⟩) hM).mpr fun y => ?_
    · rintro x hx y hy rfl
      exact ((hmem x).mp hy).2 hx
    · rw [mem_append, hmem]
      constructor
      · exact fun h => h.elim (hfirst y) And.left
      · exact fun h => or_iff_not_imp_left.mpr (fun hnot => ⟨h, hnot⟩)
  · exact pairwise_append.mpr ⟨ha.sublist (take_sublist n a), sort_pairwise key rest,
      fun r hr y hy => hrest r hr y ((hmem y).mp hy).1 ((hmem y).mp hy).2⟩
  · rcases Nat.lt_or_ge a.length n with hlt | hge
    -- the whole list is taken, so that nothing is missing
    · have hempty : sort key rest = [] := by
        refine eq_nil_iff_forall_not_mem.mpr fun y hy => ?_
        obtain ⟨hyM, hya⟩ := (hmem y).mp hy
        rw [take_of_length_le hlt.le] at hya
        have hle := hmissed y hyM hya
        have hS : S.length ≤ a.length := (hS.subperm hsub).length_le
        have := length_filter_le (fun x => decide (key y ≤ key x)) S
        omega
      rw [hempty, append_nil, take_take, min_self]
    · rw [take_left' (length_take_of_le hge)]

/-- If the first `n` elements of two lists are the same, an element of only one of them has `n`
common ones with no smaller keys. -/
theorem length_le_of_take_eq (ha : a.Pairwise (fun x y => key y ≤ key x)) (hnodup : a.Nodup)
    (hcommon : ∀ x ∈ a, x ∈ l → x ∈ S) (h : a.take n = l.take n) {x : α} (hx : x ∈ a)
    (hnot : x ∉ l) {p : α → Bool} (hp : ∀ r ∈ S, key x ≤ key r → p r = true) :
    n ≤ (S.filter p).length := by
  have hout : x ∉ a.take n := fun htake => hnot (mem_of_mem_take (h ▸ htake))
  have hlength : (a.take n).length = n := by
    rw [length_take, Nat.min_eq_left]
    by_contra hlt
    rw [take_of_length_le (by omega)] at hout
    exact hout hx
  have hsub : ∀ r ∈ a.take n, r ∈ S.filter p := by
    intro r hr
    have hrS := hcommon r (mem_of_mem_take hr) (mem_of_mem_take (h ▸ hr))
    exact mem_filter.mpr ⟨hrS, hp r hrS (key_le_of_mem_take ha hr hx hout)⟩
  calc n = (a.take n).length := hlength.symm
    _ ≤ (S.filter p).length := ((hnodup.sublist (take_sublist n a)).subperm hsub).length_le

end Take

example : sort (fun n : ℕ => n) [1, 3, 2, 3] = [3, 3, 2, 1] := by decide

end ExchangeSort
