/-
Runs of a system whose steps are a function of the state and an action.

`as.foldl step s` is the state after the actions `as` from `s`. Two properties of
a whole run are named: every step meets a condition in the state before it
(`Along`), and a predicate holds in every state of the run (`Always`). The rules
below pass from one step to a run: an invariant that the conditioned steps keep
holds throughout (`Along.always`), where the condition is exactly what keeps it
the two are equivalent (`always_iff_along`), and a preorder that every step
respects relates every state to all later ones (`later_iff_along`).
-/
import Mathlib.Data.List.Infix

set_option autoImplicit false

namespace Runs

open List

variable {S A : Type*} (step : S → A → S)

/-- Every step of the run from `s` meets `ok` in the state before it. -/
def Along (ok : S → A → Prop) : S → List A → Prop
  | _, [] => True
  | s, a :: as => ok s a ∧ Along ok (step s a) as

/-- `P` holds in every state of the run from `s`, the first and the last included. -/
def Always (P : S → Prop) (s : S) (as : List A) : Prop := ∀ pre, pre <+: as → P (pre.foldl step s)

variable {step} {ok : S → A → Prop} {P : S → Prop} {s : S} {as : List A}

instance instDecidableAlong [∀ s a, Decidable (ok s a)] :
    ∀ (s : S) (as : List A), Decidable (Along step ok s as)
  | _, [] => isTrue trivial
  | s, a :: as =>
    have : Decidable (Along step ok (step s a) as) := instDecidableAlong (step s a) as
    inferInstanceAs (Decidable (ok s a ∧ Along step ok (step s a) as))

/-- Every step, with the steps before it. -/
theorem along_iff :
    Along step ok s as ↔ ∀ pre a post, as = pre ++ a :: post → ok (pre.foldl step s) a := by
  constructor
  · intro h pre a post heq
    induction pre generalizing s as with
    | nil =>
      subst heq
      exact h.1
    | cons b pre ih =>
      subst heq
      exact ih h.2 rfl
  · intro h
    induction as generalizing s with
    | nil => exact trivial
    | cons a as ih =>
      refine ⟨h [] a as rfl, ih ?_⟩
      intro pre b post heq
      exact h (a :: pre) b post (by rw [heq, cons_append])

theorem along_append {bs : List A} : Along step ok s (as ++ bs) ↔
    Along step ok s as ∧ Along step ok (as.foldl step s) bs := by
  induction as generalizing s with
  | nil => simp only [Along, nil_append, foldl_nil, true_and]
  | cons a as ih => rw [cons_append, Along, Along, ih, foldl_cons, and_assoc]

theorem Always.last (h : Always step P s as) : P (as.foldl step s) :=
  h as (prefix_refl as)

theorem always_nil : Always step P s [] ↔ P s := by
  constructor
  · intro h
    exact h [] (prefix_refl [])
  · intro h pre hpre
    rw [prefix_nil.mp hpre]
    exact h

theorem always_cons {a : A} : Always step P s (a :: as) ↔ P s ∧ Always step P (step s a) as := by
  constructor
  · intro h
    refine ⟨h [] nil_prefix, ?_⟩
    intro pre hpre
    exact h (a :: pre) ((prefix_cons_inj a).mpr hpre)
  · rintro ⟨h0, h⟩ pre hpre
    cases pre with
    | nil => exact h0
    | cons b pre =>
      obtain ⟨rfl, htail⟩ := cons_prefix_cons.mp hpre
      exact h pre htail

/-- An invariant of the steps that meet a condition holds throughout. -/
theorem Along.always (hstep : ∀ s a, P s → ok s a → P (step s a)) (h0 : P s)
    (h : Along step ok s as) : Always step P s as := by
  induction as generalizing s with
  | nil => exact always_nil.mpr h0
  | cons a as ih => exact always_cons.mpr ⟨h0, ih (hstep s a h0 h.1) h.2⟩

/-- An invariant of all steps holds throughout. -/
theorem always_of_step (hstep : ∀ s a, P s → P (step s a)) (h0 : P s) : Always step P s as := by
  induction as generalizing s with
  | nil => exact always_nil.mpr h0
  | cons a as ih => exact always_cons.mpr ⟨h0, ih (hstep s a h0)⟩

/-- Two conditions that agree wherever an invariant of the steps that meet the second one holds
are met by the same runs. -/
theorem along_iff_along {ok' : S → A → Prop} (hstep : ∀ s a, P s → ok s a → P (step s a))
    (hiff : ∀ s a, P s → (ok' s a ↔ ok s a)) (h0 : P s) :
    Along step ok' s as ↔ Along step ok s as := by
  induction as generalizing s with
  | nil => exact Iff.rfl
  | cons a as ih =>
    rw [Along, Along, hiff s a h0]
    exact and_congr_right (fun ha => ih (hstep s a h0 ha))

/-- **Exact conditions.** The runs that keep `P` are those whose steps all meet `ok`, where the
steps that meet `ok` keep `Q`, and a step from `Q` that keeps `P` meets it. -/
theorem always_iff_along_of_strengthen {Q : S → Prop} (hQP : ∀ s, Q s → P s)
    (hstep : ∀ s a, Q s → ok s a → Q (step s a)) (hback : ∀ s a, Q s → P (step s a) → ok s a)
    (h0 : Q s) : Always step P s as ↔ Along step ok s as := by
  constructor
  · intro h
    induction as generalizing s with
    | nil => exact trivial
    | cons a as ih =>
      obtain ⟨-, h⟩ := always_cons.mp h
      have ha : ok s a := hback s a h0 (h [] nil_prefix)
      exact ⟨ha, ih (hstep s a h0 ha) h⟩
  · intro h pre hpre
    exact hQP _ (h.always hstep h0 pre hpre)

/-- Where a step keeps `P` exactly if it meets `ok`, so does a run. -/
theorem always_iff_along (hstep : ∀ s a, P s → (P (step s a) ↔ ok s a)) (h0 : P s) :
    Always step P s as ↔ Along step ok s as := by
  refine always_iff_along_of_strengthen (fun _ hs => hs) ?_ ?_ h0
  · intro s a hs ha
    exact (hstep s a hs).mpr ha
  · intro s a hs h
    exact (hstep s a hs).mp h

/-- A condition on steps may be exchanged for one that agrees with it wherever an
invariant of all steps holds. -/
theorem along_congr {ok' : S → A → Prop} {Q : S → A → Prop} (hP : ∀ s a, P s → Q s a → P (step s a))
    (hok : ∀ s a, P s → Q s a → (ok s a ↔ ok' s a)) (h0 : P s) (hQ : Along step Q s as) :
    Along step ok s as ↔ Along step ok' s as := by
  induction as generalizing s with
  | nil => exact Iff.rfl
  | cons a as ih =>
    exact and_congr (hok s a h0 hQ.1) (ih (hP s a h0 hQ.1) hQ.2)

/-- A preorder relates every state of a run to every later one exactly when each
step goes up in it. -/
theorem later_iff_along {R : S → S → Prop} (hrefl : ∀ s, R s s)
    (htrans : ∀ s t u, R s t → R t u → R s u) : (∀ pre mid post, as = pre ++ mid ++ post →
        R (pre.foldl step s) ((pre ++ mid).foldl step s)) ↔
      Along step (fun s a => R s (step s a)) s as := by
  rw [along_iff]
  constructor
  · intro h pre a post heq
    have := h pre [a] post (by simpa using heq)
    rwa [foldl_append] at this
  · intro h pre mid
    -- by the length of the stretch between the two states, from its end
    induction mid using reverseRecOn with
    | nil =>
      intro post _
      rw [append_nil]
      exact hrefl _
    | append_singleton mid a ih =>
      intro post heq
      have hmid := ih (a :: post) (by simpa using heq)
      have ha := h (pre ++ mid) a post (by simpa using heq)
      rw [← append_assoc, foldl_append]
      exact htrans _ _ _ hmid ha

end Runs
