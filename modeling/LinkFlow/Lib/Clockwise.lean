/-
Points on a circle of `N` places, and the next one of a set.

`ahead N h k` is how far `k` lies from `h`, going up and around. The next point of a set
from `h` is the one least far ahead (`IsNext`); there is at most one. A set and a larger one
have the same next point, unless the larger one's is new (`IsNext.of_subset`).
-/
import Mathlib.Data.Set.Basic
import Mathlib.Data.Nat.Basic

set_option autoImplicit false

namespace Clockwise

/-- How far `k` lies ahead of `h` on a circle of `N` places. -/
def ahead (N h k : ℕ) : ℕ := if h ≤ k then k - h else k + N - h

theorem ahead_of_le {N h k : ℕ} (hk : h ≤ k) : ahead N h k = k - h := if_pos hk

theorem ahead_of_lt {N h k : ℕ} (hk : k < h) : ahead N h k = k + N - h :=
  if_neg (Nat.not_le.mpr hk)

theorem ahead_inj {N h k k' : ℕ} (hk : k < N) (hk' : k' < N) (hh : h < N)
    (heq : ahead N h k = ahead N h k') : k = k' := by
  unfold ahead at heq
  split_ifs at heq <;> omega

/-- `k` is the point of `S` that comes next from `h`. -/
def IsNext (N : ℕ) (S : Set ℕ) (h k : ℕ) : Prop := k ∈ S ∧ ∀ k' ∈ S, ahead N h k ≤ ahead N h k'

variable {N : ℕ} {S T : Set ℕ} {h k k' : ℕ}

theorem IsNext.unique (hS : ∀ k ∈ S, k < N) (hh : h < N) (hk : IsNext N S h k)
    (hk' : IsNext N S h k') : k = k' :=
  ahead_inj (hS k hk.1) (hS k' hk'.1) hh (le_antisymm (hk.2 k' hk'.1) (hk'.2 k hk.1))

theorem IsNext.of_subset (hk : IsNext N T h k) (hST : S ⊆ T) (hkS : k ∈ S) : IsNext N S h k :=
  ⟨hkS, fun k' hk' => hk.2 k' (hST hk')⟩

theorem isNext_of_le (hS : ∀ k ∈ S, k < N) (hk : k ∈ S) (hle : h ≤ k)
    (hleast : ∀ k' ∈ S, h ≤ k' → k ≤ k') : IsNext N S h k := by
  refine ⟨hk, fun k' hk' => ?_⟩
  rw [ahead_of_le hle]
  have hkN := hS k hk
  rcases Nat.lt_or_ge k' h with hlt | hge
  · rw [ahead_of_lt hlt]
    omega
  · rw [ahead_of_le hge]
    exact Nat.sub_le_sub_right (hleast k' hk' hge) h

theorem isNext_of_lt (hk : k ∈ S) (hlt : ∀ k' ∈ S, k' < h) (hleast : ∀ k' ∈ S, k ≤ k') :
    IsNext N S h k := by
  refine ⟨hk, fun k' hk' => ?_⟩
  rw [ahead_of_lt (hlt k hk), ahead_of_lt (hlt k' hk')]
  have := hleast k' hk'
  omega

end Clockwise
