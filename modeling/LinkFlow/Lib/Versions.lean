/-
The past of something that is written over and over.

`past` is what was there before each step so far, oldest first, and `now` is what is there. A
thing that step `n` took away, and that has not come back since, is outdated. Further steps
make no fewer demands (`outdated_push`): what has come back stays excused.
-/
import Mathlib.Data.List.Basic

set_option autoImplicit false

namespace Versions

variable {S P : Type} (holds : S → P → Prop)

/-- `p` was there before step `n`, and not at any time after it. -/
def Outdated (past : List S) (now : S) (n : ℕ) (p : P) : Prop :=
  (∃ s ∈ past[n]?, holds s p) ∧ ∀ s ∈ past.drop (n + 1) ++ [now], ¬ holds s p

instance [∀ s p, Decidable (holds s p)] (past : List S) (now : S) (n : ℕ) (p : P) :
    Decidable (Outdated holds past now n p) :=
  inferInstanceAs (Decidable (_ ∧ _))

variable {holds} {past : List S} {now now' : S} {n : ℕ} {p : P}

theorem not_outdated_of_holds (h : holds now p) : ¬ Outdated holds past now n p :=
  fun hold => hold.2 now (by simp) h

theorem outdated_push (hn : n < past.length) :
    Outdated holds (past ++ [now]) now' n p ↔ Outdated holds past now n p ∧ ¬ holds now' p := by
  have hbefore : (past ++ [now])[n]? = past[n]? := List.getElem?_append_left hn
  have hafter : (past ++ [now]).drop (n + 1) = past.drop (n + 1) ++ [now] :=
    List.drop_append_of_le_length hn
  unfold Outdated
  rw [hbefore, hafter, and_assoc]
  refine and_congr_right (fun _ => ?_)
  rw [List.forall_mem_append, List.forall_mem_singleton]

theorem not_outdated_push (hn : n < past.length) (h : ¬ Outdated holds past now n p) :
    ¬ Outdated holds (past ++ [now]) now' n p :=
  fun hold => h ((outdated_push hn).mp hold).1

end Versions
