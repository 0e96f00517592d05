/-
Calls that run in sections over a shared state, other calls between them.

A `System` says how a call enters, what one section does to the shared state and to the call, and
what can happen to the shared state besides. A run is a list of events that name the call that
moves. The proof rule is freedom from interference: an invariant of the shared state, an assertion
at every place where a call can stand, and a relation between any two calls in progress. A
section has to establish the assertion of the place it leads to and to leave those of the other
calls alone (`Holds.settle`).
-/
import LinkFlow.Lib.GoMap

set_option autoImplicit false

namespace Interleaving

/-- The shared state and the calls in progress, by a number. -/
structure Race (S P : Type) where
  shared : S
  calls : GoMap ℕ P := ∅

/-- A call begins, a call runs its next section, or something else happens. -/
inductive Event (R E O : Type)
  | begin (i : ℕ) (r : R)
  | next (i : ℕ) (e : E)
  | outside (o : O)

/-- `R` are the requests that calls begin with, `E` is what a section draws from outside. -/
structure System (S P R E O : Type) where
  enter : S → R → S × P
  advance : E → S → P → S × Option P
  disturb : S → O → S

section Step

variable {S P R E O : Type}

/-- The state after a section of call `i`. -/
def Race.settle (s : Race S P) (i : ℕ) (r : S × Option P) : Race S P where
  shared := r.1
  calls := match r.2 with
    | some p => s.calls.insert i p
    | none => s.calls.erase i

def System.step (M : System S P R E O) (s : Race S P) : Event R E O → Race S P
  | .begin i r =>
    if i ∈ s.calls then s
    else
      let (shared, p) := M.enter s.shared r
      s.settle i (shared, some p)
  | .next i e => match s.calls.lookup i with
      | none => s
      | some p => s.settle i (M.advance e s.shared p)
  | .outside o => { s with shared := M.disturb s.shared o }

theorem lookup_settle (s : Race S P) (i j : ℕ) (r : S × Option P) :
    (s.settle i r).calls.lookup j = if j = i then r.2 else s.calls.lookup j := by
  obtain ⟨shared, q⟩ := r
  cases q with
  | some q => exact GoMap.lookup_insert _ _ _ _
  | none => exact GoMap.lookup_erase _ _ _

end Step

/-! ## The proof rule -/

/-- An invariant, an assertion for every place, and a relation between calls in progress. -/
structure Outline (S P : Type) where
  inv : S → Prop
  sound : S → P → Prop
  apart : P → P → Prop

namespace Outline

variable {S P : Type} (A : Outline S P)

structure Holds (s : Race S P) : Prop where
  shared : A.inv s.shared
  calls : ∀ i p, s.calls.lookup i = some p → A.sound s.shared p
  pairs : ∀ i j p q, i ≠ j → s.calls.lookup i = some p → s.calls.lookup j = some q → A.apart p q

variable {A} {s : Race S P}

/-- With no call begun, the invariant of the shared state is enough. -/
theorem Holds.start {shared : S} (h : A.inv shared) : A.Holds { shared } :=
  ⟨h, fun _ _ hp => (nomatch hp), fun _ _ _ _ _ hp => (nomatch hp)⟩

variable (A) in
/-- What a section of call `i` with the outcome `r` owes to itself and to the other calls. -/
structure Keeps (s : Race S P) (i : ℕ) (r : S × Option P) : Prop where
  inv : A.inv r.1
  own : ∀ p, r.2 = some p → A.sound r.1 p
  others : ∀ j q, j ≠ i → s.calls.lookup j = some q → A.sound r.1 q
  apart : ∀ p j q, r.2 = some p → j ≠ i → s.calls.lookup j = some q → A.apart p q ∧ A.apart q p

/-- A section that keeps the invariant and spares the other calls keeps the outline. -/
theorem Holds.settle (h : A.Holds s) {i : ℕ} {r : S × Option P} (hr : A.Keeps s i r) :
    A.Holds (s.settle i r) where
  shared := hr.inv
  calls := by
    intro j q hq
    rw [lookup_settle] at hq
    split_ifs at hq with hj
    · exact hr.own q hq
    · exact hr.others j q hj hq
  pairs := by
    intro j k p q hne hp hq
    rw [lookup_settle] at hp hq
    split_ifs at hp hq with hj hk
    · exact absurd (hj.trans hk.symm) hne
    · exact (hr.apart p k q hp hk hq).1
    · exact (hr.apart q j p hq hj hp).2
    · exact h.pairs j k p q hne hp hq

section Events

variable {R E O : Type} {M : System S P R E O}

theorem Holds.begin (h : A.Holds s) {i : ℕ} {r : R}
    (hr : A.Keeps s i ((M.enter s.shared r).1, some (M.enter s.shared r).2)) :
    A.Holds (M.step s (.begin i r)) := by
  rw [System.step]
  split_ifs
  · exact h
  · exact h.settle hr

theorem Holds.next (h : A.Holds s) {i : ℕ} {e : E}
    (hr : ∀ p, s.calls.lookup i = some p → A.Keeps s i (M.advance e s.shared p)) :
    A.Holds (M.step s (.next i e)) := by
  rw [System.step]
  split
  · exact h
  · next p hp => exact h.settle (hr p hp)

end Events

end Outline

end Interleaving
