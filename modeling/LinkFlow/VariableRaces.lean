/-
Interleaved calls of `VariableService`.

A call of `GetAllForExecution` must not return a value that an `Update` or `Delete` has replaced
which returned before the call began, unless the table has had the value again since. The table's
past is kept beside the state to say so: `Outdated n p` is that step `n` took the pair `p` out of
the table for good.

A reader that lists the table, is overtaken by an `Update` with its `Del`, and then writes what it
has read, leaves the old value in the hash (`old_value_returned`); so does a `Del` that fails. If
every `Del` works and comes when no reader is about to write what it listed before the change, no
old value is returned (`fresh_of_apart`).
-/
import LinkFlow.Variables
import LinkFlow.Lib.Interleaving
import LinkFlow.Lib.Versions

set_option autoImplicit false

namespace LinkFlow.Variables

open List

open Credentials (Crypto)
open Interleaving (Race System Outline)

variable {Byte : Type} {v : Crypto Byte}

/-! ## Calls in progress -/

/-- A call in progress. Not in the program: `since` are the writes that had returned when it began,
`stamp` is the step in which it wrote to the table or listed it. -/
structure Call where
  next : Section
  since : List ℕ
  stamp : ℕ

/-- The table and the hash. Not in the program are the contents of the table before every step, the
steps in which calls that have returned wrote, and what `GetAllForExecution` has returned. -/
structure Shared where
  stores : Stores
  past : List Table := []
  returned : List ℕ := []
  answers : List (List ℕ × GoMap String String) := []

def Shared.tick (s : Shared) : Shared := { s with past := s.past ++ [s.stores.rows] }

def Shared.settle (s : Shared) (c : Call) : Stores × Outcome → Shared × Option Call
  | (stores, .next p) =>
    let stamp := match p with
      | .invalidate _ | .fill _ => s.past.length
      | _ => c.stamp
    ({ s.tick with stores }, some { c with next := p, stamp })
  | (stores, .reply r) =>
    ({ s.tick with
        stores
        returned := match c.next with
          | .finish _ => c.stamp :: s.returned
          | _ => s.returned
        answers := match r with
          | .values m => (c.since, m) :: s.answers
          | _ => s.answers }, none)

/-- The calls of the service; besides, the hash reaches the end of its lifetime. -/
def system (v : Crypto Byte) : System Shared Call Request (Draws v) Unit where
  enter s r := (s.tick, { next := r.first, since := s.returned, stamp := s.past.length })
  advance d s c := s.settle c (advance d s.stores c.next)
  disturb s _ :=
    if s.stores.expiring then
      { s.tick with stores := { s.stores with cache := ∅, expiring := false } }
    else s.tick

abbrev Event (v : Crypto Byte) := Interleaving.Event Request (Draws v) Unit

/-! ## Old values -/

def Holds (v : Crypto Byte) (rows : Table) (p : String × String) : Prop :=
  ∃ e ∈ rows.entries, e.2.visible v = some p

instance (v : Crypto Byte) (rows : Table) (p : String × String) : Decidable (Holds v rows p) :=
  inferInstanceAs (Decidable (∃ e ∈ rows.entries, e.2.visible v = some p))

namespace Shared

/-- Step `n` took the pair out of the table, and it has not been there since. -/
def Outdated (v : Crypto Byte) (s : Shared) (n : ℕ) (p : String × String) : Prop :=
  Versions.Outdated (Holds v) s.past s.stores.rows n p

instance (v : Crypto Byte) (s : Shared) (n : ℕ) (p : String × String) :
    Decidable (s.Outdated v n p) :=
  inferInstanceAs (Decidable (Versions.Outdated (Holds v) s.past s.stores.rows n p))

/-- The map holds nothing that step `n` made outdated. -/
def Avoids (v : Crypto Byte) (s : Shared) (n : ℕ) (m : GoMap String String) : Prop :=
  ∀ k t, m.lookup k = some t → ¬ s.Outdated v n (k, t)

/-- No call of `GetAllForExecution` has returned an outdated value of a write that had returned
before it began, and neither would one that begins now and runs alone. -/
structure Fresh (v : Crypto Byte) (s : Shared) : Prop where
  answers : ∀ a ∈ s.answers, ∀ n ∈ a.1, s.Avoids v n a.2
  ahead : ∀ n ∈ s.returned, ∀ rank, s.Avoids v n (s.stores.getAllForExecution v rank).1

end Shared

/-! ## Writes and readers apart -/

/-- The next command is a `Del`. -/
def Section.deletes : Section → Bool
  | .invalidate _ => true
  | _ => false

/-- The next command is an `HSet`. -/
def Section.fills : Section → Bool
  | .fill _ => true
  | _ => false

/-- A `Del` works, and no call that listed the table before the write is about to write what it has
listed into the hash. -/
def Apart (s : Race Shared Call) : Event v → Prop
  | .next i d => ∀ c ∈ s.calls.lookup i, c.next.deletes = true →
      d.fault = none ∧ ∀ e ∈ s.calls.entries, e.2.next.fills = true → c.stamp < e.2.stamp
  | _ => True

instance (s : Race Shared Call) : DecidablePred (Apart (v := v) s)
  | .begin _ _ => .isTrue trivial
  | .next _ _ => inferInstanceAs (Decidable (∀ c ∈ _, _ → _ ∧ _))
  | .outside _ => .isTrue trivial

/-! ## What a section does -/

theorem holds_of_lookup_collect {s : Stores} {rank : Variable → ℕ} {k t : String}
    (h : (collect v (s.list rank)).lookup k = some t) : Holds v s.rows (k, t) := by
  obtain ⟨x, hx, hvisible⟩ := mem_filterMap.mp (GoMap.mem_of_lookup_ofPairs h)
  rw [Stores.list, Sql.mem_orderBy] at hx
  obtain ⟨e, he, rfl⟩ := mem_map.mp hx
  exact ⟨e, he, hvisible⟩

def Section.writes : Section → Bool
  | .insert _ | .save _ | .remove _ => true
  | _ => false

/-- What the section `p` leads to, in the words of the invariants below. -/
structure Advanced (d : Draws v) (s : Stores) (p : Section) (r : Stores × Outcome) : Prop where
  rows : r.1.rows = s.rows ∨ p.writes = true ∧ d.fault = none ∧ ∃ x, r.2 = .next (.invalidate x)
  cache : r.1.cache = s.cache ∨ r.1.cache = ∅ ∨
    ∃ result, p = .fill result ∧ d.fault = none ∧ r.1.cache = result ∪ s.cache
  fill : ∀ result, r.2 = .next (.fill result) → result = collect v (s.list d.rank)
  expire : ∀ result, r.2 = .next (.expire result) → p = .fill result
  finish : ∀ x, r.2 = .next (.finish x) → p = .invalidate x ∧ (d.fault = none → r.1.cache = ∅)
  values : ∀ m, r.2 = .reply (.values m) →
    m = s.cache ∨ m = collect v (s.list d.rank) ∨ p = .expire m

theorem advanced (d : Draws v) (s : Stores) (p : Section) : Advanced d s p (advance d s p) := by
  -- field by field, over the sections and the branches of each
  constructor
  all_goals
    cases p <;> simp only [advance] <;> grind [Section.writes]

theorem Advanced.lookup_cache {d : Draws v} {s : Stores} {p : Section} {r : Stores × Outcome}
    (h : Advanced d s p r) {k t : String} (ht : r.1.cache.lookup k = some t) :
    s.cache.lookup k = some t ∨
      ∃ result, p = .fill result ∧ d.fault = none ∧ result.lookup k = some t := by
  obtain hsame | hempty | ⟨result, hp, hd, hunion⟩ := h.cache
  · exact .inl (hsame ▸ ht)
  · rw [hempty, AList.lookup_empty] at ht
    cases ht
  rw [hunion] at ht
  rcases AList.mem_lookup_union.mp ht with hnew | ⟨-, hold⟩
  · exact .inr ⟨result, hp, hd, hnew⟩
  · exact .inl hold

/-! ## One step -/

namespace Shared

variable {s s' : Shared} {n : ℕ} {m : GoMap String String}

/-- What holds between the steps: neither what was answered nor the hash is outdated for the writes
that have returned. -/
structure Inv (v : Crypto Byte) (s : Shared) : Prop where
  answers : ∀ a ∈ s.answers, ∀ n ∈ a.1, n ∈ s.returned ∧ s.Avoids v n a.2
  cache : ∀ n ∈ s.returned, s.Avoids v n s.stores.cache
  drawn : ∀ n ∈ s.returned, n < s.past.length

/-- What a call in progress can rely on: what it is about to write into the hash is outdated for no
step before the listing, and no write that has returned came after that; and when a write is about
to return the hash has nothing that it made outdated. -/
structure Sound (v : Crypto Byte) (s : Shared) (c : Call) : Prop where
  since : c.since ⊆ s.returned
  stamp : c.stamp < s.past.length
  fill : ∀ result, c.next = .fill result →
    (∀ n < c.stamp, s.Avoids v n result) ∧ ∀ n ∈ s.returned, n < c.stamp
  expire : ∀ result, c.next = .expire result → ∀ n ∈ c.since, s.Avoids v n result
  finish : ∀ x, c.next = .finish x → s.Avoids v c.stamp s.stores.cache

theorem avoids_of_holds (h : ∀ k t, m.lookup k = some t → Holds v s.stores.rows (k, t)) :
    s.Avoids v n m :=
  fun k t ht => Versions.not_outdated_of_holds (h k t ht)

theorem avoids_getAllForExecution_iff :
    (∀ rank, s.Avoids v n (s.stores.getAllForExecution v rank).1) ↔
      s.Avoids v n s.stores.cache := by
  by_cases hcache : 0 < s.stores.cache.len
  · have hhit : ∀ rank, (s.stores.getAllForExecution v rank).1 = s.stores.cache := by
      intro rank
      rw [Stores.getAllForExecution, if_pos hcache]
    simp only [hhit, forall_const]
  · refine iff_of_true (fun rank => avoids_of_holds (fun k t ht => ?_)) ?_
    · rw [Stores.getAllForExecution, if_neg hcache] at ht
      exact holds_of_lookup_collect ht
    · intro k t ht
      rw [GoMap.eq_empty_of_len (Nat.eq_zero_of_not_pos hcache), AList.lookup_empty] at ht
      cases ht

theorem Inv.fresh (h : s.Inv v) : s.Fresh v where
  answers := fun a ha n hn => (h.answers a ha n hn).2
  ahead := fun n hn => avoids_getAllForExecution_iff.mpr (h.cache n hn)

theorem Avoids.tick (h : s.Avoids v n m) (hpast : s'.past = s.past ++ [s.stores.rows])
    (hn : n < s.past.length) : s'.Avoids v n m := by
  intro k t ht
  rw [Outdated, hpast]
  exact Versions.not_outdated_push hn (h k t ht)

/-- A step of another call: it has put nothing into the hash that is outdated for this one, and a
write that has returned by it came before this one's listing. -/
theorem Sound.tick {c : Call} (h : s.Sound v c) (hs : s.Inv v)
    (hpast : s'.past = s.past ++ [s.stores.rows]) (hreturned : s.returned ⊆ s'.returned)
    (hfill : ∀ result, c.next = .fill result → ∀ n ∈ s'.returned, n < c.stamp)
    (hcache : ∀ x, c.next = .finish x → s.Avoids v c.stamp s'.stores.cache) : s'.Sound v c where
  since := fun n hn => hreturned (h.since hn)
  stamp := by
    rw [hpast, length_append]
    exact Nat.lt_add_right 1 h.stamp
  fill := fun result hp => ⟨fun n hn =>
    ((h.fill result hp).1 n hn).tick hpast (hn.trans h.stamp), hfill result hp⟩
  expire := fun result hp n hn =>
    (h.expire result hp n hn).tick hpast (hs.drawn n (h.since hn))
  finish := fun x hp => (hcache x hp).tick hpast h.stamp

theorem Inv.tick (h : s.Inv v) (hpast : s'.past = s.past ++ [s.stores.rows])
    (hreturned : s.returned ⊆ s'.returned)
    (hcache : ∀ n ∈ s'.returned, n < s.past.length ∧ s.Avoids v n s'.stores.cache)
    (hanswers : ∀ a ∈ s'.answers,
      a ∈ s.answers ∨ ∀ n ∈ a.1, n ∈ s.returned ∧ s.Avoids v n a.2) : s'.Inv v where
  answers := by
    intro a ha n hn
    have hold : n ∈ s.returned ∧ s.Avoids v n a.2 := by
      rcases hanswers a ha with hmem | hnew
      · exact h.answers a hmem n hn
      · exact hnew n hn
    exact ⟨hreturned hold.1, hold.2.tick hpast (h.drawn n hold.1)⟩
  cache := fun n hn => (hcache n hn).2.tick hpast (hcache n hn).1
  drawn := by
    intro n hn
    rw [hpast, length_append]
    exact Nat.lt_add_right 1 (hcache n hn).1

theorem Inv.tick_quiet (h : s.Inv v) (hpast : s'.past = s.past ++ [s.stores.rows])
    (hreturned : s'.returned = s.returned) (hanswers : s'.answers = s.answers)
    (hcache : ∀ n ∈ s.returned, s.Avoids v n s'.stores.cache) : s'.Inv v := by
  refine h.tick hpast ?_ ?_ ?_
  · rw [hreturned]
    exact List.Subset.refl _
  · rw [hreturned]
    exact fun n hn => ⟨h.drawn n hn, hcache n hn⟩
  · rw [hanswers]
    exact fun a ha => .inl ha

section Settle

variable {d : Draws v} {c : Call} {stores : Stores}

theorem past_settle (r : Stores × Outcome) : (s.settle c r).1.past = s.past ++ [s.stores.rows] := by
  obtain ⟨stores, p | r⟩ := r <;> rfl

theorem mem_returned_settle {r : Reply} : n ∈ (s.settle c (stores, .reply r)).1.returned ↔
      n ∈ s.returned ∨ n = c.stamp ∧ ∃ x, c.next = .finish x := by
  simp only [settle]
  split
  · next x hx =>
      rw [mem_cons, or_comm]
      simp [hx]
  · next hne =>
      refine (or_iff_left ?_).symm
      rintro ⟨-, x, hx⟩
      exact hne x hx

theorem returned_settle {r : Stores × Outcome} (hn : n ∈ (s.settle c r).1.returned) :
    n ∈ s.returned ∨ n = c.stamp ∧ ∃ x, c.next = .finish x := by
  obtain ⟨stores, p | r⟩ := r
  · exact .inl hn
  · exact mem_returned_settle.mp hn

theorem returned_subset_settle (r : Stores × Outcome) : s.returned ⊆ (s.settle c r).1.returned := by
  obtain ⟨stores, p | r⟩ := r
  · exact List.Subset.refl _
  · exact fun n hn => mem_returned_settle.mpr (.inl hn)

/-- What a section leaves in the call's stamp. -/
theorem stamp_settle {r : Stores × Outcome} (hr : Advanced d s.stores c.next r) {c' : Call}
    (hc' : (s.settle c r).2 = some c') :
    (∀ x, c'.next = .finish x → c.next.deletes = true ∧ c'.stamp = c.stamp) ∧
      ∀ result, c'.next = .fill result → c'.stamp = s.past.length := by
  obtain ⟨stores, p | r⟩ := r
  swap
  · cases hc'
  cases hc'
  constructor
  · rintro x rfl
    refine ⟨?_, rfl⟩
    rw [(hr.finish x rfl).1]
    rfl
  · rintro result rfl
    rfl

theorem cache_settle (r : Stores × Outcome) : (s.settle c r).1.stores.cache = r.1.cache := by
  obtain ⟨stores, p | r⟩ := r <;> rfl

/-- What a section puts into the hash is outdated for no step before the listing. -/
theorem Sound.avoids_cache (hc : s.Sound v c) {r : Stores × Outcome}
    (hr : Advanced d s.stores c.next r) (hcache : s.Avoids v n s.stores.cache)
    (hfill : ∀ result, c.next = .fill result → n < c.stamp) : s.Avoids v n r.1.cache := by
  intro k t ht
  rcases hr.lookup_cache ht with hold | ⟨result, hp, -, hnew⟩
  · exact hcache k t hold
  · exact (hc.fill result hp).1 n (hfill result hp) k t hnew

/-- A section keeps the hash free of replaced values. -/
theorem Inv.settle (h : s.Inv v) (hc : s.Sound v c) {r : Stores × Outcome}
    (hr : Advanced d s.stores c.next r) : (s.settle c r).1.Inv v := by
  have hcache : ∀ n ∈ (s.settle c r).1.returned,
      n < s.past.length ∧ s.Avoids v n (s.settle c r).1.stores.cache := by
    intro n hn
    rw [cache_settle]
    rcases returned_settle hn with hold | ⟨rfl, x, hx⟩
    · exact ⟨h.drawn n hold, hc.avoids_cache hr (h.cache n hold)
        (fun result hp => (hc.fill result hp).2 n hold)⟩
    · exact ⟨hc.stamp, hc.avoids_cache hr (hc.finish x hx)
        (fun result hp => by rw [hx] at hp; cases hp)⟩
  refine h.tick (past_settle r) (returned_subset_settle r) hcache ?_
  obtain ⟨stores, p | r⟩ := r
  · exact fun a ha => .inl ha
  intro a ha
  cases r with
  | values m =>
    rcases mem_cons.mp ha with rfl | hmem
    · refine .inr (fun n hn => ⟨hc.since hn, ?_⟩)
      rcases hr.values m rfl with rfl | rfl | hp
      · exact h.cache n (hc.since hn)
      · exact avoids_of_holds (fun k t ht => holds_of_lookup_collect ht)
      · exact hc.expire m hp n hn
    · exact .inl hmem
  | done x => exact .inl ha
  | error err => exact .inl ha

/-- The place that a section leads to, where a `Del` works. -/
theorem Sound.settle (h : s.Inv v) (hc : s.Sound v c) {r : Stores × Outcome}
    (hr : Advanced d s.stores c.next r) (hdel : c.next.deletes = true → d.fault = none) {c' : Call}
    (hc' : (s.settle c r).2 = some c') : (s.settle c r).1.Sound v c' := by
  obtain ⟨stores, p | r⟩ := r
  swap
  · cases hc'
  cases hc'
  refine ⟨hc.since, ?_, ?_, ?_, ?_⟩
  · rw [past_settle, length_append, length_singleton]
    dsimp only
    split
    · exact Nat.lt_succ_self _
    · exact Nat.lt_succ_self _
    · exact Nat.lt_succ_of_lt hc.stamp
  · rintro result rfl
    -- the table has not changed since it was listed
    have hrows : stores.rows = s.stores.rows := by
      rcases hr.rows with hsame | ⟨-, -, x, hx⟩
      · exact hsame
      · cases hx
    refine ⟨fun n _ => avoids_of_holds (fun k t ht => ?_), h.drawn⟩
    rw [hr.fill result rfl] at ht
    exact hrows ▸ holds_of_lookup_collect ht
  · rintro result rfl n hn
    obtain ⟨havoids, hbefore⟩ := hc.fill result (hr.expire result rfl)
    exact (havoids n (hbefore n (hc.since hn))).tick rfl (h.drawn n (hc.since hn))
  · rintro x rfl k t ht
    obtain ⟨hp, hempty⟩ := hr.finish x rfl
    have hnone : stores.cache = ∅ := hempty (hdel (by rw [hp]; rfl))
    change stores.cache.lookup k = some t at ht
    rw [hnone, AList.lookup_empty] at ht
    cases ht

end Settle

end Shared

/-! ## Whole runs -/

open Shared (Inv Sound Fresh)

/-- A write that is about to return came before the listing of every call that is about to write
into the hash. -/
def outline (v : Crypto Byte) : Outline Shared Call where
  inv := Inv v
  sound := Sound v
  apart c c' := ∀ x result, c.next = .finish x → c'.next = .fill result → c.stamp < c'.stamp

variable {s : Race Shared Call}

/-- Steps that are apart keep what each call relies on. -/
theorem outline_step (s : Race Shared Call) (e : Event v) (h : (outline v).Holds s)
    (hapart : Apart s e) : (outline v).Holds ((system v).step s e) := by
  -- a step that leaves the hash as it is, or empties it, and that no call returns by
  have hquiet : ∀ s' : Shared, s'.past = s.shared.past ++ [s.shared.stores.rows] →
      s'.returned = s.shared.returned →
      (∀ k t, s'.stores.cache.lookup k = some t → s.shared.stores.cache.lookup k = some t) →
      ∀ i c, s.calls.lookup i = some c → s'.Sound v c := by
    intro s' hpast hreturned hcache i c hc
    have hsound := h.calls i c hc
    refine hsound.tick h.shared hpast (hreturned ▸ List.Subset.refl _)
      (fun result hp => hreturned ▸ (hsound.fill result hp).2)
      (fun x hp k t ht => hsound.finish x hp k t (hcache k t ht))
  cases e with
  | begin i r =>
    refine h.begin ⟨h.shared.tick_quiet rfl rfl rfl h.shared.cache, ?_, ?_, ?_⟩
    · intro c hc
      cases hc
      refine ⟨List.Subset.refl _, ?_, ?_, ?_, ?_⟩
      · change s.shared.past.length < (s.shared.past ++ [s.shared.stores.rows]).length
        rw [length_append]
        exact Nat.lt_succ_self _
      all_goals intro x hx; cases r <;> cases hx
    · intro j c _
      exact hquiet s.shared.tick rfl rfl (fun _ _ ht => ht) j c
    · rintro c j c' hc - -
      cases hc
      constructor <;> intro x result hfinish hfill <;> cases r <;>
        first | cases hfinish | cases hfill
  | next i d =>
    refine h.next (fun c hc => ?_)
    have hr := advanced d s.shared.stores c.next
    have hsound := h.calls i c hc
    refine ⟨h.shared.settle hsound hr, ?_, ?_, ?_⟩
    · intro c' hc'
      exact hsound.settle h.shared hr (fun hdeletes => (hapart c hc hdeletes).1) hc'
    · intro j c' hj hc'
      have hother := h.calls j c' hc'
      refine hother.tick h.shared (Shared.past_settle _) (Shared.returned_subset_settle _) ?_ ?_
      · intro result hp n hn
        rcases Shared.returned_settle hn with hold | ⟨rfl, x, hx⟩
        · exact (hother.fill result hp).2 n hold
        · exact h.pairs i j c c' (Ne.symm hj) hc hc' x result hx hp
      · intro x hp
        have havoids := hsound.avoids_cache hr (hother.finish x hp)
          (fun result hfill => h.pairs j i c' c hj hc' hc x result hp hfill)
        rwa [← Shared.cache_settle] at havoids
    · intro p j c' hp hj hc'
      obtain ⟨hfinish, hfill⟩ := Shared.stamp_settle hr hp
      constructor
      · intro x result hx hresult
        obtain ⟨hdeletes, hstamp⟩ := hfinish x hx
        rw [hstamp]
        exact (hapart c hc hdeletes).2 ⟨j, c'⟩ (AList.mem_lookup_iff.mp hc') (by rw [hresult]; rfl)
      · intro x result _ hresult
        rw [hfill result hresult]
        exact (h.calls j c' hc').stamp
  | outside o =>
    rw [System.step, system]
    dsimp only
    split_ifs
    · refine ⟨h.shared.tick_quiet rfl rfl rfl (fun n _ k t ht => ?_), ?_, h.pairs⟩
      · cases ht
      · exact hquiet _ rfl rfl (fun _ _ ht => by cases ht)
    · refine ⟨h.shared.tick_quiet rfl rfl rfl h.shared.cache, ?_, h.pairs⟩
      exact hquiet _ rfl rfl (fun _ _ ht => ht)

theorem inv_start (stores : Stores) : Inv v { stores } where
  answers := fun _ ha => nomatch ha
  cache := fun _ hn => nomatch hn
  drawn := fun _ hn => nomatch hn

/-- **When no old value is returned.** In every interleaving of calls, with any of the commands
failing but `Del`, from every table and hash: if no `Del` comes while a call is about to write into
the hash what it listed before the change, no call of `GetAllForExecution` returns a value that a
write has replaced which returned before the call began. -/
theorem fresh_of_apart (v : Crypto Byte) (stores : Stores) (es : List (Event v))
    (h : Runs.Along (system v).step Apart { shared := { stores } } es) :
    Runs.Always (system v).step (fun s => s.shared.Fresh v) { shared := { stores } } es := by
  intro pre hpre
  exact (h.always outline_step (Outline.Holds.start (inv_start stores)) pre hpre).shared.fresh

def region : Variable where
  id := "v1"
  key := "region"
  value := "eu"
  type := "string"
  createdAt := 0
  updatedAt := 0

def regionStores : Stores := { rows := GoMap.ofPairs [("v1", region)] }

def quietDraws : Draws Credentials.letterVault where
  now _ := 1
  uuid := "v2"
  nonce := Credentials.letterDraws.nonce 0
  rank _ := 0

/-- The next `k` sections of a call, without errors. -/
def sections (i k : ℕ) : List (Event Credentials.letterVault) :=
  List.replicate k (.next i quietDraws)

/-- A reader, a change from `eu` to `us`, and another reader, one after the other. -/
def oneAfterAnother : List (Event Credentials.letterVault) :=
  List.flatten
    [[.begin 0 .getAllForExecution], sections 0 4,
      [.begin 1 (.update "v1" { value := "us" })], sections 1 4,
      [.begin 2 .getAllForExecution], sections 2 4]

theorem fresh_oneAfterAnother : Runs.Always (system Credentials.letterVault).step
    (fun s => s.shared.Fresh Credentials.letterVault) { shared := { stores := regionStores } }
    oneAfterAnother :=
  fresh_of_apart _ _ _ (by decide +kernel)

/-- The variable is changed from `eu` to `us` while a reader is between its listing and its
`HSet`; then another reader begins. -/
def overtakenReader : List (Event Credentials.letterVault) :=
  List.flatten
    [[.begin 0 .getAllForExecution], sections 0 2,
      [.begin 1 (.update "v1" { value := "us" })], sections 1 4, sections 0 2,
      [.begin 2 .getAllForExecution], sections 2 1]

/-- The second reader gets `eu`. -/
theorem old_value_returned : ¬ Runs.Always (system Credentials.letterVault).step
        (fun s => s.shared.Fresh Credentials.letterVault)
        { shared := { stores := regionStores } } overtakenReader := by
  intro h
  let final :=
    (overtakenReader.foldl (system Credentials.letterVault).step
      { shared := { stores := regionStores } }).shared
  have hanswer : ∃ a ∈ final.answers, 5 ∈ a.1 ∧ a.2.lookup "region" = some "eu" := by
    decide +kernel
  have hold : final.Outdated Credentials.letterVault 5 ("region", "eu") := by decide +kernel
  obtain ⟨a, ha, hsince, hlookup⟩ := hanswer
  exact h.last.answers a ha 5 hsince "region" "eu" hlookup hold

end LinkFlow.Variables
