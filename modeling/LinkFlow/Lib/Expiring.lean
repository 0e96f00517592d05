/-
A store whose keys go away by themselves, as Redis keeps them.

An entry has a value and a deadline, or none; it is there as long as the clock is
before the deadline. Writing and deleting are over Mathlib's `AList`; what a program
relies on across several commands is that a key stays until some time (`HoldsUntil`)
and that it is gone by some time (`GoneBy`). Both only speak of the key's own entry, so
that a command on another key leaves them alone.
-/
import Mathlib

set_option autoImplicit false

namespace Expiring

structure Entry (V T : Type) where
  value : V
  deadline : Option T
deriving DecidableEq

abbrev Store (K V T : Type) := AList (fun _ : K => Entry V T)

namespace Store

variable {K V T : Type} [DecidableEq K]

/-! ## Commands -/

/-- `SET` with a time to live that ends at `deadline` -/
def set (m : Store K V T) (k : K) (v : V) (deadline : T) : Store K V T :=
  m.insert k ⟨v, some deadline⟩

def del (m : Store K V T) (k : K) : Store K V T := m.erase k

section Clock

variable [LinearOrder T]

/-- The entry is still there at `now`. -/
def live (now : T) (e : Entry V T) : Bool := e.deadline.all (now < ·)

/-- `EXISTS` -/
def has (m : Store K V T) (now : T) (k : K) : Bool := (m.lookup k).any (live now)

/-- `SET` with `NX`: whether the key was not there and is now set. -/
def setNX (m : Store K V T) (now : T) (k : K) (v : V) (deadline : T) : Bool × Store K V T :=
  if m.has now k = true then (false, m) else (true, m.set k v deadline)

/-- The counter's new value; a counter that is not there starts from 0 and has no deadline. -/
def incr (m : Store K ℕ T) (now : T) (k : K) : ℕ × Store K ℕ T :=
  match (m.lookup k).filter (live now) with
  | some e => (e.value + 1, m.insert k { e with value := e.value + 1 })
  | none => (1, m.insert k ⟨1, none⟩)

/-- `EXPIRE`, on a key that is there -/
def expire (m : Store K V T) (now : T) (k : K) (deadline : T) : Store K V T :=
  match (m.lookup k).filter (live now) with
  | some e => m.insert k { e with deadline := some deadline }
  | none => m

end Clock

/-! ## Other keys -/

section Frame

variable {k k' : K}

@[simp] theorem lookup_set (m : Store K V T) (v : V) (deadline : T) :
    (m.set k v deadline).lookup k = some ⟨v, some deadline⟩ :=
  AList.lookup_insert m

theorem lookup_set_ne (h : k ≠ k') (m : Store K V T) (v : V) (deadline : T) :
    (m.set k' v deadline).lookup k = m.lookup k :=
  AList.lookup_insert_ne h

theorem lookup_del_ne (h : k ≠ k') (m : Store K V T) : (m.del k').lookup k = m.lookup k :=
  AList.lookup_erase_ne h

theorem lookup_incr_ne [LinearOrder T] (h : k ≠ k') (m : Store K ℕ T) (now : T) :
    (m.incr now k').2.lookup k = m.lookup k := by
  unfold incr
  split <;> exact AList.lookup_insert_ne h

theorem lookup_expire_ne [LinearOrder T] (h : k ≠ k') (m : Store K V T) (now deadline : T) :
    (m.expire now k' deadline).lookup k = m.lookup k := by
  unfold expire
  split
  · exact AList.lookup_insert_ne h
  · rfl

end Frame

/-! ## How long a key is there -/

variable [LinearOrder T]

/-- The key is there at every time before `d`. -/
def HoldsUntil (m : Store K V T) (k : K) (d : T) : Prop :=
  ∃ e, m.lookup k = some e ∧ ∀ dl, e.deadline = some dl → d ≤ dl

/-- The key's entry, if any, has a deadline, and this is not after `d`. -/
def GoneBy (m : Store K V T) (k : K) (d : T) : Prop :=
  ∀ e, m.lookup k = some e → ∃ dl, e.deadline = some dl ∧ dl ≤ d

variable {m m' : Store K V T} {k : K} {d d' now : T}

theorem HoldsUntil.has (h : m.HoldsUntil k d) (hnow : now < d) : m.has now k = true := by
  obtain ⟨e, he, hd⟩ := h
  rw [Store.has, he]
  change e.deadline.all (now < ·) = true
  rw [Option.all_eq_true]
  intro dl hdl
  exact decide_eq_true (lt_of_lt_of_le hnow (hd dl hdl))

theorem HoldsUntil.congr (h : m.HoldsUntil k d) (heq : m'.lookup k = m.lookup k) :
    m'.HoldsUntil k d := by
  rw [HoldsUntil, heq]
  exact h

theorem GoneBy.congr (h : m.GoneBy k d) (heq : m'.lookup k = m.lookup k) : m'.GoneBy k d := by
  rw [GoneBy, heq]
  exact h

theorem GoneBy.mono (h : m.GoneBy k d) (hd : d ≤ d') : m.GoneBy k d' := by
  intro e he
  obtain ⟨dl, hdl, hle⟩ := h e he
  exact ⟨dl, hdl, le_trans hle hd⟩

theorem holdsUntil_of_lookup {v : V} {dl : T} (h : m.lookup k = some ⟨v, some dl⟩)
    (hd : d ≤ dl) : m.HoldsUntil k d := by
  refine ⟨_, h, ?_⟩
  intro dl' hdl'
  cases hdl'
  exact hd

theorem goneBy_of_lookup {v : V} {dl : T} (h : m.lookup k = some ⟨v, some dl⟩)
    (hd : dl ≤ d) : m.GoneBy k d := by
  intro e he
  rw [h] at he
  cases he
  exact ⟨dl, rfl, hd⟩

theorem HoldsUntil.le_of_goneBy (h : m.HoldsUntil k d) (hgone : m.GoneBy k d') : d ≤ d' := by
  obtain ⟨e, he, hd⟩ := h
  obtain ⟨dl, hdl, hle⟩ := hgone e he
  exact le_trans (hd dl hdl) hle

end Store

end Expiring
