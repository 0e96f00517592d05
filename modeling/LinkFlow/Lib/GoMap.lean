/-
Go maps, as a program can observe them.

A Go `map[K]V` is a finite association with no key twice, and `range` visits
its entries in an order the language leaves open. The first half is Mathlib's
`AList`, whose `NodupKeys` field is the map's invariant; the second half is
`RangeOrder`, one permutation for every `range` statement of a run. A theorem
that quantifies over a `RangeOrder` holds whatever the runtime does.

Reading an absent key gives the zero value, so `m[k]` is `GoMap.get` with the
zero value as an argument, and `m[k] = f(m[k])` is `GoMap.upd`. The three loops
that Go code writes over and over with it are named here: counting keys
(`bump`), collecting values under a key (`group`) and indexing records by a key
(`index`, where a later record replaces an earlier one).
-/
import Mathlib

set_option autoImplicit false

/-- `fmt`'s `%v` of a slice of strings or errors. -/
def GoFmt.formatList (l : List String) : String := "[" ++ String.intercalate " " l ++ "]"

/-- A Go map from `K` to `V`. -/
abbrev GoMap (K V : Type) := AList (fun _ : K => V)

/-- The order in which each `range` over a map visits the entries. A statement is named by its
source line: two statements may see one map in different orders. -/
structure RangeOrder where
  run : ℕ → {α : Type} → List α → List α
  perm : ∀ (line : ℕ) {α : Type} (l : List α), (run line l).Perm l

namespace RangeOrder

/-- Every `range` visits the entries as the map stores them. -/
def stored : RangeOrder where
  run _ _ l := l
  perm _ _ l := List.Perm.refl l

@[simp] theorem mem_run (ρ : RangeOrder) (line : ℕ) {α : Type} (l : List α) (a : α) :
    a ∈ ρ.run line l ↔ a ∈ l :=
  (ρ.perm line l).mem_iff

end RangeOrder

namespace GoMap

variable {K V : Type} [DecidableEq K]

/-- `m[k]`, where `zero` is the zero value of `V`. -/
def get (zero : V) (m : GoMap K V) (k : K) : V := (m.lookup k).getD zero

/-- `m[k] = f(m[k])`. -/
def upd (zero : V) (m : GoMap K V) (k : K) (f : V → V) : GoMap K V := m.insert k (f (m.get zero k))

variable {P : K → V → Prop} {v : V} {e : (_ : K) × V} (ρ : RangeOrder) (es : List (K × V))
  (zero : V) (line : ℕ)

@[simp] theorem get_empty (k : K) : (∅ : GoMap K V).get zero k = zero := by
  simp [get]

theorem get_insert (m : GoMap K V) (k k' : K) (v : V) :
    GoMap.get zero (m.insert k v) k' = if k' = k then v else m.get zero k' := by
  unfold get
  by_cases h : k' = k
  · subst h
    simp
  · rw [AList.lookup_insert_ne h, if_neg h]

theorem get_upd (m : GoMap K V) (k k' : K) (f : V → V) :
    (m.upd zero k f).get zero k' = if k' = k then f (m.get zero k) else m.get zero k' :=
  get_insert zero m k k' _

@[simp] theorem mem_upd (m : GoMap K V) (k k' : K) (f : V → V) :
    k' ∈ m.upd zero k f ↔ k' = k ∨ k' ∈ m := by
  simp [upd]

theorem lookup_insert (m : GoMap K V) (k k' : K) (v : V) :
    (m.insert k v).lookup k' = if k' = k then some v else m.lookup k' := by
  by_cases h : k' = k
  · rw [if_pos h, h, AList.lookup_insert]
  · rw [if_neg h, AList.lookup_insert_ne h]

theorem lookup_erase (m : GoMap K V) (k k' : K) :
    (m.erase k).lookup k' = if k' = k then none else m.lookup k' := by
  by_cases h : k' = k
  · rw [if_pos h, h, AList.lookup_erase]
  · rw [if_neg h, AList.lookup_erase_ne h]

variable {m : GoMap K V} {k : K}

theorem forall_insert (h : ∀ k v, m.lookup k = some v → P k v) (hnew : P k v) :
    ∀ k' v', AList.lookup k' (m.insert k v) = some v' → P k' v' := by
  intro k' v' hlookup
  rw [lookup_insert] at hlookup
  split_ifs at hlookup with hk
  · rw [hk, ← Option.some.inj hlookup]
    exact hnew
  · exact h k' v' hlookup

theorem forall_erase (h : ∀ k v, m.lookup k = some v → P k v) (k : K) :
    ∀ k' v', AList.lookup k' (m.erase k) = some v' → P k' v' := by
  intro k' v' hlookup
  rw [lookup_erase] at hlookup
  split_ifs at hlookup
  exact h k' v' hlookup

omit [DecidableEq K] in
theorem mem_iff_entry (m : GoMap K V) (k : K) : k ∈ m ↔ ∃ v, (⟨k, v⟩ : Sigma _) ∈ m.entries := by
  rw [AList.mem_keys]
  exact List.mem_keys

theorem lookup_of_entry (h : e ∈ m.entries) : m.lookup e.1 = some e.2 :=
  AList.mem_lookup_iff.mpr h

theorem get_of_entry (h : e ∈ m.entries) : m.get zero e.1 = e.2 := by
  rw [get, lookup_of_entry h, Option.getD_some]

/-- `len(m)` -/
def len (m : GoMap K V) : ℕ := m.entries.length

omit [DecidableEq K] in
theorem len_eq_length_keys (m : GoMap K V) : m.len = m.keys.length := by
  rw [len, AList.keys, List.keys, List.length_map]

omit [DecidableEq K] in
theorem eq_empty_of_len (h : m.len = 0) : m = ∅ :=
  AList.ext (List.length_eq_zero_iff.mp h)

/-! ## The visited keys of a `range` -/

/-- The keys of `m` in the order the `range` at `line` visits them. -/
def rangeKeys (ρ : RangeOrder) (line : ℕ) (m : GoMap K V) : List K :=
  (ρ.run line m.entries).map Sigma.fst

omit [DecidableEq K] in
theorem rangeKeys_perm (m : GoMap K V) : (rangeKeys ρ line m).Perm m.keys :=
  (ρ.perm line m.entries).map Sigma.fst

omit [DecidableEq K] in
@[simp] theorem mem_rangeKeys (m : GoMap K V) (k : K) : k ∈ rangeKeys ρ line m ↔ k ∈ m :=
  (rangeKeys_perm ρ line m).mem_iff.trans AList.mem_keys.symm

omit [DecidableEq K] in
theorem rangeKeys_nodup (m : GoMap K V) : (rangeKeys ρ line m).Nodup :=
  (rangeKeys_perm ρ line m).nodup_iff.mpr m.keys_nodup

/-! ## Sums over the entries -/

/-- The sum of `f` over the entries. -/
def total (f : K → V → ℤ) (m : GoMap K V) : ℤ := (m.entries.map (fun e => f e.1 e.2)).sum

theorem total_erase (f : K → V → ℤ) (m : GoMap K V) (k : K) :
    GoMap.total f (m.erase k) + (m.lookup k).elim 0 (f k) = m.total f := by
  have hentries : (m.erase k).entries = List.kerase k m.entries := rfl
  rw [total, total, hentries]
  by_cases hk : k ∈ m
  · obtain ⟨v, l₁, l₂, -, hl, hrest⟩ := List.exists_of_kerase (AList.mem_keys.mp hk)
    have hlookup : m.lookup k = some v := lookup_of_entry (e := ⟨k, v⟩) (by rw [hl]; simp)
    rw [hlookup, hrest, hl]
    simp only [List.map_append, List.map_cons, List.sum_append, List.sum_cons, Option.elim_some]
    ring
  · rw [AList.lookup_eq_none.mpr hk,
      List.kerase_of_notMem_keys (fun h => hk (AList.mem_keys.mpr h))]
    simp

theorem total_insert (f : K → V → ℤ) (m : GoMap K V) (k : K) (v : V) :
    GoMap.total f (m.insert k v) + (m.lookup k).elim 0 (f k) = m.total f + f k v := by
  have hinsert : GoMap.total f (m.insert k v) = f k v + GoMap.total f (m.erase k) := rfl
  rw [hinsert, ← total_erase f m k]
  ring

/-! ## Counting keys: `m[k]++` for every `k` of a list -/

theorem lookup_foldl_insert (x : V) (m : GoMap K V) (ks : List K) (k : K) :
    (ks.foldl (fun m k => m.insert k x) m).lookup k = if k ∈ ks then some x else m.lookup k := by
  induction ks generalizing m with
  | nil => simp
  | cons a ks ih =>
    rw [List.foldl_cons, ih, lookup_insert]
    by_cases hks : k ∈ ks
    · simp [hks]
    · by_cases ha : k = a <;> simp [hks, ha]

/-- `for _, k := range ks { m[k] = 0 }` -/
def zeros (ks : List K) : GoMap K ℤ := ks.foldl (fun m k => m.insert k 0) ∅

theorem get_zeros (ks : List K) (k : K) : (zeros ks).get 0 k = 0 := by
  rw [get, zeros, lookup_foldl_insert]
  split_ifs <;> rfl

theorem mem_zeros (ks : List K) (k : K) : k ∈ zeros ks ↔ k ∈ ks := by
  rw [← AList.lookup_isSome, zeros, lookup_foldl_insert]
  by_cases h : k ∈ ks <;> simp [h]

/-- `for _, k := range ks { m[k]++ }` -/
def bump (m : GoMap K ℤ) (ks : List K) : GoMap K ℤ := ks.foldl (fun m k => m.upd 0 k (· + 1)) m

theorem get_bump (m : GoMap K ℤ) (ks : List K) (k : K) :
    (m.bump ks).get 0 k = m.get 0 k + (ks.count k : ℤ) := by
  induction ks generalizing m with
  | nil => simp [bump]
  | cons a ks ih =>
    have hstep : m.bump (a :: ks) = (m.upd 0 a (· + 1)).bump ks := rfl
    rw [hstep, ih, get_upd, List.count_cons]
    by_cases h : k = a
    · subst h
      simp
      ring
    · have h' : ¬ a = k := fun e => h e.symm
      simp [h, h']

theorem mem_bump (m : GoMap K ℤ) (ks : List K) (k : K) : k ∈ m.bump ks ↔ k ∈ ks ∨ k ∈ m := by
  induction ks generalizing m with
  | nil => simp [bump]
  | cons a ks ih =>
    have hstep : m.bump (a :: ks) = (m.upd 0 a (· + 1)).bump ks := rfl
    rw [hstep, ih, mem_upd, List.mem_cons]
    tauto

/-! ## Collecting values under a key: `m[k] = append(m[k], v)` -/

/-- `for _, e := range es { m[e.1] = append(m[e.1], e.2) }` -/
def group (m : GoMap K (List V)) (es : List (K × V)) : GoMap K (List V) :=
  es.foldl (fun m e => m.upd [] e.1 (· ++ [e.2])) m

theorem get_group (m : GoMap K (List V)) (es : List (K × V)) (k : K) : (m.group es).get [] k
      = m.get [] k ++ (es.filter (fun e => e.1 = k)).map Prod.snd := by
  induction es generalizing m with
  | nil => simp [group]
  | cons e es ih =>
    have hstep : m.group (e :: es) = (m.upd [] e.1 (· ++ [e.2])).group es := rfl
    rw [hstep, ih, get_upd]
    by_cases h : k = e.1
    · subst h
      simp
    · have h' : ¬ e.1 = k := fun q => h q.symm
      simp [h, h']

theorem mem_group (m : GoMap K (List V)) (es : List (K × V)) (k : K) :
    k ∈ m.group es ↔ (∃ e ∈ es, e.1 = k) ∨ k ∈ m := by
  induction es generalizing m with
  | nil => simp [group]
  | cons e es ih =>
    have hstep : m.group (e :: es) = (m.upd [] e.1 (· ++ [e.2])).group es := rfl
    rw [hstep, ih, mem_upd]
    simp only [List.mem_cons, exists_eq_or_imp]
    rw [or_left_comm, or_assoc, @eq_comm _ k]

theorem values_upd_append (m : GoMap K (List V)) (k : K) (v : V) :
    ((m.upd [] k (· ++ [v])).entries.flatMap Sigma.snd).Perm
      (m.entries.flatMap Sigma.snd ++ [v]) := by
  -- `AList.insert` puts the entry in front and erases the old one
  have hentries : (m.upd [] k (· ++ [v])).entries
      = ⟨k, m.get [] k ++ [v]⟩ :: List.kerase k m.entries := rfl
  -- the erased entry is the one whose list was extended, when there is one
  have hold : (m.get [] k ++ (List.kerase k m.entries).flatMap Sigma.snd).Perm
      (m.entries.flatMap Sigma.snd) := by
    by_cases hk : k ∈ m
    · obtain ⟨b, l₁, l₂, -, hl, hrest⟩ := List.exists_of_kerase (AList.mem_keys.mp hk)
      have hget : m.get [] k = b := get_of_entry (e := ⟨k, b⟩) [] (by rw [hl]; simp)
      rw [hget, hrest, hl]
      simp only [List.flatMap_append, List.flatMap_cons]
      exact List.perm_append_comm_assoc b _ _
    · have hget : m.get [] k = [] := by
        rw [get, AList.lookup_eq_none.mpr hk, Option.getD_none]
      rw [hget, List.nil_append, List.kerase_of_notMem_keys (fun h => hk (AList.mem_keys.mpr h))]
  rw [hentries, List.flatMap_cons, List.append_assoc]
  refine (List.Perm.append_left (m.get [] k) List.perm_append_comm).trans ?_
  rw [← List.append_assoc]
  exact hold.append_right [v]

theorem values_group : ((group ∅ es).entries.flatMap Sigma.snd).Perm (es.map Prod.snd) := by
  have hgen : ∀ m : GoMap K (List V), ((m.group es).entries.flatMap Sigma.snd).Perm
        (m.entries.flatMap Sigma.snd ++ es.map Prod.snd) := by
    induction es with
    | nil => intro m; simp [group]
    | cons e es ih =>
      intro m
      refine (ih (m.upd [] e.1 (· ++ [e.2]))).trans ?_
      refine ((values_upd_append m e.1 e.2).append_right (es.map Prod.snd)).trans ?_
      simp
  simpa using hgen ∅

theorem len_group_le : (group ∅ es).len ≤ es.length := by
  have hupd : ∀ (m : GoMap K (List V)) (e : K × V),
      (m.upd [] e.1 (· ++ [e.2])).len ≤ m.len + 1 := by
    intro m e
    have hentries : (m.upd [] e.1 (· ++ [e.2])).entries
        = ⟨e.1, m.get [] e.1 ++ [e.2]⟩ :: List.kerase e.1 m.entries := rfl
    rw [len, hentries, List.length_cons, len]
    exact Nat.succ_le_succ (List.kerase_sublist e.1 m.entries).length_le
  have hgen : ∀ m : GoMap K (List V), (m.group es).len ≤ m.len + es.length := by
    induction es with
    | nil => intro m; exact le_rfl
    | cons e es ih =>
      intro m
      have hstep : m.group (e :: es) = (m.upd [] e.1 (· ++ [e.2])).group es := rfl
      have hrest := ih (m.upd [] e.1 (· ++ [e.2]))
      have hone := hupd m e
      rw [hstep, List.length_cons]
      omega
  have hempty := hgen ∅
  rwa [show (∅ : GoMap K (List V)).len = 0 from rfl, Nat.zero_add] at hempty

/-! ## Sets under a key: `m[k][v] = true` -/

section Sets

variable [DecidableEq V]

/-- `v` is in the set under `k`. -/
def MemAt (m : GoMap K (GoMap V Bool)) (k : K) (v : V) : Prop := v ∈ m.get ∅ k

instance (m : GoMap K (GoMap V Bool)) (k : K) (v : V) : Decidable (m.MemAt k v) :=
  inferInstanceAs (Decidable (v ∈ m.get ∅ k))

/-- `if m[k] == nil { m[k] = make(map[V]bool) }; m[k][v] = true` -/
def addAt (m : GoMap K (GoMap V Bool)) (k : K) (v : V) : GoMap K (GoMap V Bool) :=
  m.upd ∅ k (fun s => s.insert v true)

/-- `if s, ok := m[k]; ok { delete(s, v); if len(s) == 0 { delete(m, k) } }` -/
def removeAt (m : GoMap K (GoMap V Bool)) (k : K) (v : V) : GoMap K (GoMap V Bool) :=
  match m.lookup k with
  | none => m
  | some s => if GoMap.len (s.erase v) = 0 then m.erase k else m.insert k (s.erase v)

theorem memAt_addAt (m : GoMap K (GoMap V Bool)) (k k' : K) (v v' : V) :
    (m.addAt k v).MemAt k' v' ↔ (k' = k ∧ v' = v) ∨ m.MemAt k' v' := by
  rw [MemAt, addAt, get_upd, MemAt]
  by_cases hk : k' = k
  · simp [hk]
  · simp [hk]

theorem memAt_removeAt (m : GoMap K (GoMap V Bool)) (k k' : K) (v v' : V) :
    (m.removeAt k v).MemAt k' v' ↔ m.MemAt k' v' ∧ ¬ (k' = k ∧ v' = v) := by
  unfold MemAt removeAt get
  cases hlookup : m.lookup k with
  | none =>
    refine (and_iff_left_of_imp (fun hmem hkv => ?_)).symm
    rw [hkv.1, hlookup] at hmem
    exact AList.notMem_empty _ hmem
  | some s =>
    by_cases hk : k' = k
    · subst hk
      have herase : v' ∈ s.erase v ↔ v' ∈ s ∧ ¬ (k' = k' ∧ v' = v) := by
        rw [AList.mem_erase]
        tauto
      rw [hlookup, Option.getD_some, ← herase]
      simp only
      split_ifs with hlen
      · have hnone : v' ∉ s.erase v := by
          rw [mem_iff_entry, List.length_eq_zero_iff.mp hlen]
          simp
        rw [AList.lookup_erase, Option.getD_none]
        exact iff_of_false (AList.notMem_empty _) hnone
      · rw [AList.lookup_insert, Option.getD_some]
    · have hsame : ∀ m' : GoMap K (GoMap V Bool), m'.lookup k' = m.lookup k' →
          (v' ∈ (m'.lookup k').getD ∅ ↔ v' ∈ (m.lookup k').getD ∅ ∧ ¬ (k' = k ∧ v' = v)) := by
        intro m' heq
        rw [heq]
        exact (and_iff_left (fun hkv => hk hkv.1)).symm
      simp only
      split_ifs
      · exact hsame _ (AList.lookup_erase_ne hk)
      · exact hsame _ (AList.lookup_insert_ne hk)

end Sets

/-! ## Writing pairs: `m[k] = v` -/

/-- `for _, e := range es { m[e.1] = e.2 }` on an empty map -/
def ofPairs (es : List (K × V)) : GoMap K V := es.foldl (fun m e => m.insert e.1 e.2) ∅

theorem mem_of_lookup_ofPairs {es : List (K × V)} (h : (ofPairs es).lookup k = some v) :
    (k, v) ∈ es := by
  induction es using List.reverseRecOn with
  | nil => simp [ofPairs] at h
  | append_singleton es e ih =>
    rw [ofPairs, List.foldl_append, List.foldl_cons, List.foldl_nil, ← ofPairs, lookup_insert] at h
    rw [List.mem_append, List.mem_singleton]
    by_cases hk : k = e.1
    · rw [if_pos hk] at h
      exact .inr (Prod.ext hk (Option.some.inj h).symm)
    · rw [if_neg hk] at h
      exact .inl (ih h)

theorem mem_ofPairs (k : K) : k ∈ ofPairs es ↔ ∃ e ∈ es, e.1 = k := by
  induction es using List.reverseRecOn with
  | nil => simp [ofPairs]
  | append_singleton es e ih =>
    have hstep : ofPairs (es ++ [e]) = (ofPairs es).insert e.1 e.2 := List.foldl_concat ..
    rw [hstep, AList.mem_insert, ih]
    simp only [List.mem_append, List.mem_singleton]
    constructor
    · rintro (rfl | ⟨e', he', hk⟩)
      · exact ⟨e, .inr rfl, rfl⟩
      · exact ⟨e', .inl he', hk⟩
    · rintro ⟨e', he' | rfl, hk⟩
      · exact .inr ⟨e', he', hk⟩
      · exact .inl hk.symm

/-- Where equal keys have equal values, the map has the pairs of the list. -/
theorem lookup_ofPairs {es : List (K × V)} (hfun : ∀ e ∈ es, ∀ e' ∈ es, e.1 = e'.1 → e.2 = e'.2)
    (k : K) (v : V) : (ofPairs es).lookup k = some v ↔ (k, v) ∈ es := by
  induction es using List.reverseRecOn with
  | nil => simp [ofPairs]
  | append_singleton es e ih =>
    have hprev := ih (fun a ha b hb => hfun a (List.mem_append_left _ ha) b
      (List.mem_append_left _ hb))
    rw [ofPairs, List.foldl_append, List.foldl_cons, List.foldl_nil, ← ofPairs, lookup_insert,
      List.mem_append, List.mem_singleton]
    by_cases hk : k = e.1
    · rw [if_pos hk]
      constructor
      · intro hv
        exact .inr (Prod.ext hk (Option.some.inj hv).symm)
      rintro (hmem | heq)
      · have hv : v = e.2 := hfun (k, v) (List.mem_append_left _ hmem) e (by simp) hk
        rw [hv]
      · rw [← heq]
    · rw [if_neg hk, hprev]
      refine (or_iff_left ?_).symm
      rintro rfl
      exact hk rfl

/-! ## Indexing records by a key: `m[key(r)] = r` -/

/-- `for _, r := range rs { m[key(r)] = r }` -/
def index (key : V → K) (m : GoMap K V) (rs : List V) : GoMap K V :=
  rs.foldl (fun m r => m.insert (key r) r) m

theorem mem_of_lookup_index {key : V → K} {rs : List V} {r : V}
    (h : (index key m rs).lookup k = some r) : r ∈ rs ∧ key r = k ∨ m.lookup k = some r := by
  induction rs generalizing m with
  | nil => exact .inr h
  | cons a rs ih =>
    have hstep : index key m (a :: rs) = index key (m.insert (key a) a) rs := rfl
    rw [hstep] at h
    rcases ih h with ⟨hmem, hkey⟩ | hold
    · exact .inl ⟨List.mem_cons_of_mem a hmem, hkey⟩
    rw [lookup_insert] at hold
    split_ifs at hold with hk
    · obtain rfl := Option.some.inj hold
      exact .inl ⟨List.mem_cons_self, hk.symm⟩
    · exact .inr hold

theorem mem_index (key : V → K) (m : GoMap K V) (rs : List V) (k : K) :
    k ∈ index key m rs ↔ (∃ r ∈ rs, key r = k) ∨ k ∈ m := by
  induction rs generalizing m with
  | nil => simp [index]
  | cons r rs ih =>
    have hstep : index key m (r :: rs) = index key (m.insert (key r) r) rs := rfl
    rw [hstep, ih, AList.mem_insert]
    simp only [List.mem_cons, exists_eq_or_imp]
    rw [or_left_comm, or_assoc, @eq_comm _ k]

/-! ## Changing every value -/

/-- The map with every value changed by `f`. -/
def mapValues (f : V → V) (m : GoMap K V) : GoMap K V where
  entries := m.entries.map (fun e => ⟨e.1, f e.2⟩)
  nodupKeys := by
    have h := m.nodupKeys
    rw [List.NodupKeys, List.keys] at h ⊢
    rwa [List.map_map]

theorem map_eq_self_iff {α : Type} (f : α → α) (l : List α) : l.map f = l ↔ ∀ a ∈ l, f a = a := by
  conv_lhs => rhs; rw [← List.map_id l]
  exact List.map_inj_left

omit [DecidableEq K] in
theorem mapValues_eq_self_iff (f : V → V) (m : GoMap K V) :
    m.mapValues f = m ↔ ∀ e ∈ m.entries, f e.2 = e.2 := by
  have hentries : m.mapValues f = m ↔ (m.mapValues f).entries = m.entries :=
    ⟨congrArg AList.entries, fun h => AList.ext h⟩
  rw [hentries]
  change m.entries.map (fun e => (⟨e.1, f e.2⟩ : (_ : K) × V)) = m.entries ↔ _
  rw [map_eq_self_iff]
  refine forall₂_congr (fun e _ => ?_)
  rcases e with ⟨k, v⟩
  simp

/-! ## Deleting while ranging -/

/-- `for k, v := range m { if p(v) { delete(m, k) } }` -/
def deleteWhere (p : V → Bool) (m : GoMap K V) : GoMap K V :=
  m.entries.foldl (fun m e => if p e.2 then m.erase e.1 else m) m

theorem lookup_deleteWhere (p : V → Bool) (m : GoMap K V) (k : K) :
    (m.deleteWhere p).lookup k = (m.lookup k).filter (fun v => !p v) := by
  -- after some of the entries: a key is gone if one of them has it and is to go
  have key : ∀ (es : List ((_ : K) × V)) (m' : GoMap K V),
      (es.foldl (fun m e => if p e.2 then m.erase e.1 else m) m').lookup k =
        if es.any (fun e => e.1 = k && p e.2) then none else m'.lookup k := by
    intro es
    induction es with
    | nil => simp
    | cons e es ih =>
      intro m'
      rw [List.foldl_cons, ih, List.any_cons]
      by_cases hp : p e.2 = true
      · rw [if_pos hp, lookup_erase]
        by_cases hk : e.1 = k
        · rw [if_pos hk.symm, ite_self, hp, decide_eq_true hk, Bool.and_self, Bool.true_or,
            if_pos rfl]
        · rw [if_neg (Ne.symm hk), decide_eq_false hk, Bool.false_and, Bool.false_or]
      · rw [if_neg hp, Bool.eq_false_iff.mpr hp, Bool.and_false, Bool.false_or]
  rw [deleteWhere, key]
  cases hm : m.lookup k with
  | none => rw [ite_self, Option.filter_none]
  | some v =>
    have hentry : (⟨k, v⟩ : (_ : K) × V) ∈ m.entries := AList.mem_lookup_iff.mp hm
    rw [Option.filter_some]
    by_cases hp : p v = true
    · rw [if_pos (List.any_eq_true.mpr ⟨_, hentry, by simp [hp]⟩), if_neg (by simp [hp])]
    rw [if_neg, if_pos (by simpa using hp)]
    simp only [List.any_eq_true, Bool.and_eq_true, decide_eq_true_eq, not_exists]
    rintro e ⟨he, rfl, hpe⟩
    have hsame : e.2 = v := Option.some.inj ((lookup_of_entry he).symm.trans hm)
    exact hp (hsame ▸ hpe)

/-! ## Copying -/

/-- `for k, v := range src { dst[k] = v }` -/
def copyInto (ρ : RangeOrder) (line : ℕ) (src dst : GoMap K V) : GoMap K V :=
  (ρ.run line src.entries).foldl (fun m e => m.insert e.1 e.2) dst

@[simp] theorem lookup_copyInto (src dst : GoMap K V) (k : K) :
    (copyInto ρ line src dst).lookup k = (src.lookup k).or (dst.lookup k) := by
  have hloop : ∀ (es : List ((_ : K) × V)) (m : GoMap K V), (∀ e ∈ es, src.lookup e.1 = some e.2) →
        (es.foldl (fun m e => m.insert e.1 e.2) m).lookup k =
          if ∃ e ∈ es, e.1 = k then src.lookup k else m.lookup k := by
    intro es
    induction es with
    | nil => intro m _; simp
    | cons e es ih =>
      intro m hes
      rw [List.foldl_cons, ih _ (fun e' he' => hes e' (.tail e he'))]
      by_cases hrest : ∃ e' ∈ es, e'.1 = k
      · obtain ⟨e', he', hk⟩ := hrest
        rw [if_pos ⟨e', he', hk⟩, if_pos ⟨e', .tail e he', hk⟩]
      rw [if_neg hrest, lookup_insert]
      by_cases hk : k = e.1
      · rw [if_pos hk, if_pos ⟨e, List.mem_cons_self, hk.symm⟩, hk, hes e List.mem_cons_self]
      rw [if_neg hk, if_neg]
      rintro ⟨e', he', hk'⟩
      rcases List.mem_cons.mp he' with rfl | he'
      · exact hk hk'.symm
      · exact hrest ⟨e', he', hk'⟩
  rw [copyInto, hloop _ _ (fun e he => lookup_of_entry ((ρ.mem_run line _ _).mp he))]
  cases hsrc : src.lookup k with
  | some v =>
    rw [if_pos ⟨⟨k, v⟩, (ρ.mem_run line _ _).mpr (AList.mem_lookup_iff.mp hsrc), rfl⟩,
      Option.some_or]
  | none =>
    rw [if_neg, Option.none_or]
    rintro ⟨e, he, rfl⟩
    rw [lookup_of_entry ((ρ.mem_run line _ _).mp he)] at hsrc
    contradiction

end GoMap
