/-
Lists whose entries are numbered one after the other.

A log is kept as rows that carry their own number; `Numbered key v l` says that the
numbers of `l` are `v + 1`, `v + 2` and so on, without gap or repetition. Such a list
is sorted by its numbers, its largest number is its length, and the rows above a
number are a suffix.
-/
import Mathlib.Data.List.Sort

set_option autoImplicit false

namespace Numbered

open List

variable {α : Type*} {key : α → ℤ}

/-- The entries of the list carry the numbers that follow `v`, in order. -/
def From (key : α → ℤ) : ℤ → List α → Prop
  | _, [] => True
  | v, a :: l => key a = v + 1 ∧ From key (v + 1) l

instance instDecidableFrom : ∀ (v : ℤ) (l : List α), Decidable (From key v l)
  | _, [] => isTrue trivial
  | v, a :: l =>
    have : Decidable (From key (v + 1) l) := instDecidableFrom (v + 1) l
    inferInstanceAs (Decidable (key a = v + 1 ∧ From key (v + 1) l))

variable {v : ℤ} {l : List α}

theorem from_append {l l' : List α} :
    From key v (l ++ l') ↔ From key v l ∧ From key (v + l.length) l' := by
  induction l generalizing v with
  | nil => simp [From]
  | cons a l ih =>
    have hlen : v + ((a :: l).length : ℤ) = v + 1 + l.length := by
      rw [length_cons]
      push_cast
      omega
    rw [cons_append, From, From, ih, hlen, and_assoc]

theorem from_iff_map :
    From key v l ↔ l.map key = (List.range l.length).map fun i : ℕ => v + i + 1 := by
  induction l generalizing v with
  | nil => simp [From]
  | cons a l ih =>
    have hshift : (fun i : ℕ => v + 1 + (i : ℤ) + 1) =
        (fun i : ℕ => v + (i : ℤ) + 1) ∘ Nat.succ := by
      funext i
      simp only [Function.comp_apply]
      omega
    rw [From, ih, map_cons, length_cons, range_succ_eq_map, map_cons, map_map, hshift, cons.injEq]
    simp

theorem From.eq_of_key (h : From key v l) {a b : α} (ha : a ∈ l) (hb : b ∈ l)
    (hab : key a = key b) : a = b := by
  have hnodup : (l.map key).Nodup := by
    rw [from_iff_map.mp h]
    exact nodup_range.map (fun i j hij => by omega)
  exact inj_on_of_nodup_map hnodup ha hb hab

theorem From.lt_key (h : From key v l) {a : α} (ha : a ∈ l) : v < key a ∧ key a ≤ v + l.length := by
  induction l generalizing v with
  | nil => cases ha
  | cons b l ih =>
    rw [length_cons]
    push_cast
    rcases mem_cons.mp ha with rfl | ha
    · have := h.1
      omega
    · have := ih h.2 ha
      omega

theorem From.pairwise (h : From key v l) : l.Pairwise fun a b => key a ≤ key b := by
  induction l generalizing v with
  | nil => exact List.Pairwise.nil
  | cons a l ih =>
    refine List.Pairwise.cons ?_ (ih h.2)
    intro b hb
    have ha := h.1
    have := (h.2.lt_key hb).1
    omega

theorem From.insertionSort (h : From key v l) : l.insertionSort (fun a b => key a ≤ key b) = l :=
  h.pairwise.insertionSort_eq

theorem From.filter_lt {l l' : List α} (h : From key v (l ++ l')) :
    (l ++ l').filter (fun a => v + l.length < key a) = l' := by
  obtain ⟨hl, hl'⟩ := from_append.mp h
  rw [filter_append, filter_eq_nil_iff.mpr, filter_eq_self.mpr, nil_append]
  · intro a ha
    exact decide_eq_true (hl'.lt_key ha).1
  · intro a ha
    have := (hl.lt_key ha).2
    simpa using this

theorem From.max_key (h : From key 0 l) : (l.map key).max?.getD 0 = l.length := by
  rcases eq_nil_or_concat' l with rfl | ⟨l', a, rfl⟩
  · rfl
  obtain ⟨-, ha, -⟩ := from_append.mp h
  have hmax : ((l' ++ [a]).map key).max? = some (key a) := by
    refine max?_eq_some_iff.mpr ⟨by simp, ?_⟩
    intro k hk
    obtain ⟨b, hb, rfl⟩ := mem_map.mp hk
    have := (h.lt_key hb).2
    rw [length_append, length_singleton] at this
    push_cast at this
    omega
  rw [hmax, Option.getD_some, ha, length_append, length_singleton]
  push_cast
  omega

end Numbered
