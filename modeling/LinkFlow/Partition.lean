/-
Consistent hashing (`internal/executor/app/distributed/partition.go`): `Partition` of
`ConsistentHashStrategy`, with `buildRing`, `getWorkerForItem` and `hash`.

`getWorkerForItem` looks for the first key at or after the item's hash with a linear search, in
which the value 0 of `selected` stands for "none found". Both a key 0 and a key that lies
2³² - 1 ahead are taken for "none found", and in both cases the wrap-around that follows gives
the same key: the search always finds the next point on the circle (`select_isNext`).
-/
import LinkFlow.Lib.GoMap
import LinkFlow.Lib.Clockwise

set_option autoImplicit false

namespace LinkFlow.Distributed

open Clockwise List Option GoMap

/-! ## The ring -/

/-- 32-bit FNV-1a of the string's bytes. -/
def hash (s : String) : ℕ :=
  (s.toList.flatMap String.utf8EncodeChar).foldl
    (fun h b => (h ^^^ b.toNat) * 16777619 % 2 ^ 32) 2166136261

/-- `fmt.Sprintf("%s:%d", worker.ID, i)` -/
def label (workerID : String) (i : ℕ) : String := workerID ++ ":" ++ toString i

/-- The writes of `buildRing` to the ring, in their order. -/
def ringEntries (replicas : ℕ) (workers : List String) : List (ℕ × String) :=
  workers.flatMap (fun id => (List.range replicas).map (fun i => (hash (label id i), id)))

/-- A worker is given by its ID. -/
def buildRing (replicas : ℕ) (workers : List String) : GoMap ℕ String :=
  GoMap.ofPairs (ringEntries replicas workers)

/-- The first loop of `getWorkerForItem`: `selected` and `minDiff`. -/
def searchFrom (hash : ℕ) (keys : List ℕ) : ℕ × ℕ :=
  keys.foldl (fun (s : ℕ × ℕ) key =>
    if key ≥ hash then if key - hash < s.2 then (key, key - hash) else s else s) (0, 2 ^ 32 - 1)

def smallest (first : ℕ) (keys : List ℕ) : ℕ :=
  keys.foldl (fun selected key => if key < selected then key else selected) first

/-- The key `getWorkerForItem` selects. -/
def select (hash : ℕ) (keys : List ℕ) : ℕ :=
  let selected := (searchFrom hash keys).1
  if selected = 0 ∧ keys.length > 0 then smallest (keys.headD 0) keys else selected

/-- The loop over the ring is the `range` of line 231. -/
def getWorkerForItem (ρ : RangeOrder) (ring : GoMap ℕ String) (item : String) : String :=
  if ring.len = 0 then ""
  else ring.get "" (select (hash item) (GoMap.rangeKeys ρ 231 ring))

def partition (ρ : RangeOrder) (replicas : ℕ) (workItems : List String)
    (workers : List String) : GoMap String (List String) :=
  let ring := buildRing replicas workers
  GoMap.group ∅ ((workItems.map (fun item => (getWorkerForItem ρ ring item, item))).filter
    (fun e => e.1 ≠ ""))

/-! ## The search -/

/-- A hash has 32 bits, as its type `uint32` says. -/
theorem hash_lt (s : String) : hash s < 2 ^ 32 := by
  rw [hash]
  refine foldlRecOn (motive := fun h => h < 2 ^ 32) _ _ (by decide) ?_
  exact fun h _ b _ => Nat.mod_lt _ (by decide)

/-- The wrap-around finds a least key. -/
theorem smallest_spec (first : ℕ) (keys : List ℕ) :
    (smallest first keys = first ∨ smallest first keys ∈ keys) ∧
      smallest first keys ≤ first ∧ ∀ k ∈ keys, smallest first keys ≤ k := by
  induction keys generalizing first with
  | nil => exact ⟨.inl rfl, le_rfl, by simp⟩
  | cons key keys ih =>
    rw [smallest, foldl_cons, ← smallest]
    obtain ⟨hmem, hle, hleast⟩ := ih (if key < first then key else first)
    split_ifs at hmem hle hleast ⊢ with hlt
    · refine ⟨.inr ?_, by omega, forall_mem_cons.mpr ⟨hle, hleast⟩⟩
      exact mem_cons.mpr hmem
    · refine ⟨hmem.imp_right (mem_cons_of_mem key), hle, forall_mem_cons.mpr ⟨by omega, hleast⟩⟩

/-- What the first loop leaves: nothing found that is less than 2³² - 1 ahead, or the least key
that is not before the hash. -/
theorem searchFrom_spec (hash : ℕ) (keys : List ℕ) :
    (searchFrom hash keys = (0, 2 ^ 32 - 1) ∧ ∀ k ∈ keys, hash ≤ k → 2 ^ 32 - 1 ≤ k - hash) ∨
      ∃ k ∈ keys, searchFrom hash keys = (k, k - hash) ∧ hash ≤ k ∧
        ∀ k' ∈ keys, hash ≤ k' → k ≤ k' := by
  induction keys using reverseRecOn with
  | nil => exact .inl ⟨rfl, by simp⟩
  | append_singleton keys key ih =>
    rw [searchFrom, foldl_append, ← searchFrom, foldl_cons, foldl_nil]
    simp only [mem_append, mem_singleton]
    rcases ih with ⟨hnone, hfar⟩ | ⟨k, hk, hfound, hle, hleast⟩
    · rw [hnone]
      split_ifs with hge hlt
      · refine .inr ⟨key, .inr rfl, rfl, hge, ?_⟩
        rintro k' (hk' | rfl) hle'
        · have := hfar k' hk' hle'
          omega
        · exact le_rfl
      · refine .inl ⟨rfl, ?_⟩
        rintro k' (hk' | rfl) hle'
        · exact hfar k' hk' hle'
        · exact Nat.not_lt.mp hlt
      · refine .inl ⟨rfl, ?_⟩
        rintro k' (hk' | rfl) hle'
        · exact hfar k' hk' hle'
        · exact absurd hle' hge
    · rw [hfound]
      split_ifs with hge hlt
      · refine .inr ⟨key, .inr rfl, rfl, hge, ?_⟩
        rintro k' (hk' | rfl) hle'
        · have := hleast k' hk' hle'
          dsimp only at hlt
          omega
        · exact le_rfl
      · refine .inr ⟨k, .inl hk, rfl, hle, ?_⟩
        rintro k' (hk' | rfl) hle'
        · exact hleast k' hk' hle'
        · dsimp only at hlt
          omega
      · refine .inr ⟨k, .inl hk, rfl, hle, ?_⟩
        rintro k' (hk' | rfl) hle'
        · exact hleast k' hk' hle'
        · exact absurd hle' hge

/-- **The search.** Among keys of 32 bits, the selected one comes next from the hash. -/
theorem select_isNext {hash : ℕ} {keys : List ℕ} (hh : hash < 2 ^ 32) (hne : keys ≠ [])
    (hkeys : ∀ k ∈ keys, k < 2 ^ 32) : IsNext (2 ^ 32) {k | k ∈ keys} hash (select hash keys) := by
  obtain ⟨first, rest, hcons⟩ := exists_cons_of_ne_nil hne
  have hfirst : first ∈ keys := by rw [hcons]; exact mem_cons_self
  obtain ⟨hmin, -, hleast⟩ := smallest_spec first keys
  have hmem : smallest first keys ∈ keys := by
    rcases hmin with heq | hmem
    · rw [heq]
      exact hfirst
    · exact hmem
  by_cases hzero : (searchFrom hash keys).1 = 0
  · have hselect : select hash keys = smallest first keys := by
      have hpos : keys.length > 0 := length_pos_of_mem hfirst
      have hhead : keys.headD 0 = first := by rw [hcons]; rfl
      rw [select, if_pos ⟨hzero, hpos⟩, hhead]
    rw [hselect]
    -- the smallest key comes next if the hash is 0, or if every key lies before it
    rcases searchFrom_spec hash keys with ⟨-, hfar⟩ | ⟨k, -, hfound, hle, -⟩
    · by_cases hbefore : ∀ k ∈ keys, k < hash
      · exact isNext_of_lt hmem hbefore hleast
      · push Not at hbefore
        obtain ⟨k, hk, hle⟩ := hbefore
        have hdiff := hfar k hk hle
        have hlt := hkeys k hk
        obtain rfl : hash = 0 := by omega
        exact isNext_of_le hkeys hmem (Nat.zero_le _) (fun k' hk' _ => hleast k' hk')
    · rw [hfound] at hzero
      obtain rfl : hash = 0 := by
        dsimp only at hzero
        omega
      exact isNext_of_le hkeys hmem (Nat.zero_le _) (fun k' hk' _ => hleast k' hk')
  · have hselect : select hash keys = (searchFrom hash keys).1 := by
      rw [select, if_neg (fun h => hzero h.1)]
    rw [hselect]
    rcases searchFrom_spec hash keys with ⟨hnone, -⟩ | ⟨k, hk, hfound, hle, hleast'⟩
    · rw [hnone] at hzero
      exact absurd rfl hzero
    · rw [hfound]
      exact isNext_of_le hkeys hk hle hleast'

/-- The same for the keys of a ring, in the order of the loop over it. -/
theorem select_ring (ρ : RangeOrder) {ring : GoMap ℕ String} (hne : ring.len ≠ 0)
    (hkeys : ∀ k ∈ ring, k < 2 ^ 32) (item : String) : IsNext (2 ^ 32) {k | k ∈ ring} (hash item)
      (select (hash item) (GoMap.rangeKeys ρ 231 ring)) := by
  have hset : {k | k ∈ rangeKeys ρ 231 ring} = {k | k ∈ ring} :=
    Set.ext (fun k => mem_rangeKeys ρ 231 ring k)
  rw [← hset]
  refine select_isNext (hash_lt item) (fun hnil => hne ?_)
    (fun k hk => hkeys k ((mem_rangeKeys ρ 231 ring k).mp hk))
  rw [len_eq_length_keys, ← (rangeKeys_perm ρ 231 ring).length_eq, hnil, length_nil]

/-- The selected key is in the ring, so the answer is the worker stored under it. -/
theorem lookup_select (ρ : RangeOrder) (ring : GoMap ℕ String) (hne : ring.len ≠ 0)
    (hkeys : ∀ k ∈ ring, k < 2 ^ 32) (item : String) :
    ring.lookup (select (hash item) (GoMap.rangeKeys ρ 231 ring)) =
      some (getWorkerForItem ρ ring item) := by
  obtain ⟨id, hid⟩ :=
    Option.isSome_iff_exists.mp (AList.lookup_isSome.mpr (select_ring ρ hne hkeys item).1)
  rw [getWorkerForItem, if_neg hne, GoMap.get, hid, Option.getD_some]

/-- **The owner of an item** is the owner of the first point at or after its hash, going around the
circle, in whatever order the keys are visited. -/
theorem getWorkerForItem_isNext (ρ : RangeOrder) {ring : GoMap ℕ String} (hne : ring.len ≠ 0)
    (hkeys : ∀ k ∈ ring, k < 2 ^ 32) (item : String) :
    ∃ k, IsNext (2 ^ 32) {k | k ∈ ring} (hash item) k ∧
      ring.lookup k = some (getWorkerForItem ρ ring item) :=
  ⟨_, select_ring ρ hne hkeys item, lookup_select ρ ring hne hkeys item⟩

/-- The two ends of the circle. -/
theorem getWorkerForItem_ends :
    ∃ k, IsNext (2 ^ 32) {k | k ∈ GoMap.ofPairs [(0, "a"), (2 ^ 32 - 1, "b")]} (hash "x") k ∧
      (GoMap.ofPairs [(0, "a"), (2 ^ 32 - 1, "b")]).lookup k =
        some (getWorkerForItem .stored (GoMap.ofPairs [(0, "a"), (2 ^ 32 - 1, "b")]) "x") :=
  getWorkerForItem_isNext .stored (by decide)
    (fun k hk => by
      obtain ⟨e, he, rfl⟩ := (mem_ofPairs _ k).mp hk
      revert e
      decide) "x"

/-! ## The ring's keys -/

/-- No two labels of different workers have the same hash. -/
def CollisionFree (replicas : ℕ) (workers : List String) : Prop :=
  ∀ id ∈ workers, ∀ i < replicas, ∀ id' ∈ workers, ∀ j < replicas,
    hash (label id i) = hash (label id' j) → id = id'

instance (replicas : ℕ) (workers : List String) : Decidable (CollisionFree replicas workers) := by
  unfold CollisionFree
  infer_instance

def places (replicas : ℕ) (workers : List String) : Set ℕ :=
  {h | ∃ id ∈ workers, ∃ i < replicas, hash (label id i) = h}

/-- The ring has the hashes of the labels of its workers, each with its worker. -/
theorem mem_ringEntries {replicas : ℕ} {workers : List String} {e : ℕ × String} :
    e ∈ ringEntries replicas workers ↔
      e.2 ∈ workers ∧ ∃ i < replicas, hash (label e.2 i) = e.1 := by
  simp only [ringEntries, List.mem_flatMap, List.mem_map, List.mem_range]
  constructor
  · rintro ⟨id, hid, i, hi, rfl⟩
    exact ⟨hid, i, hi, rfl⟩
  · rintro ⟨hid, i, hi, heq⟩
    exact ⟨e.2, hid, i, hi, by rw [heq]⟩

variable {replicas : ℕ} {workers : List String}

/-- Without collisions no write to the ring is overwritten by another worker. -/
theorem lookup_buildRing (h : CollisionFree replicas workers) (k : ℕ) (id : String) :
    (buildRing replicas workers).lookup k = some id ↔
      id ∈ workers ∧ ∃ i < replicas, hash (label id i) = k := by
  rw [buildRing, lookup_ofPairs, mem_ringEntries]
  intro e he e' he' heq
  obtain ⟨hid, i, hi, hhash⟩ := mem_ringEntries.mp he
  obtain ⟨hid', j, hj, hhash'⟩ := mem_ringEntries.mp he'
  exact h e.2 hid i hi e'.2 hid' j hj (by rw [hhash, hhash', heq])

theorem mem_buildRing (h : CollisionFree replicas workers) (k : ℕ) :
    k ∈ buildRing replicas workers ↔ k ∈ places replicas workers := by
  rw [← AList.lookup_isSome, isSome_iff_exists]
  simp only [lookup_buildRing h]
  exact Iff.rfl

theorem places_lt {k : ℕ} (hk : k ∈ places replicas workers) : k < 2 ^ 32 := by
  obtain ⟨id, -, i, -, rfl⟩ := hk
  exact hash_lt _

theorem len_buildRing_eq_zero_iff (h : CollisionFree replicas workers) :
    (buildRing replicas workers).len = 0 ↔ ¬ (places replicas workers).Nonempty := by
  rw [len_eq_length_keys, length_eq_zero_iff, eq_nil_iff_forall_not_mem,
    Set.not_nonempty_iff_eq_empty, Set.eq_empty_iff_forall_notMem]
  simp only [← AList.mem_keys, mem_buildRing h]

/-- The search finds the next of the places that the labels are hashed to. -/
theorem select_places (h : CollisionFree replicas workers) (ρ : RangeOrder) (item : String)
    (hne : (places replicas workers).Nonempty) :
    IsNext (2 ^ 32) (places replicas workers) (hash item)
      (select (hash item) (GoMap.rangeKeys ρ 231 (buildRing replicas workers))) := by
  have hset : {k | k ∈ buildRing replicas workers} = places replicas workers :=
    Set.ext (mem_buildRing h)
  rw [← hset]
  exact select_ring ρ (fun hzero => (len_buildRing_eq_zero_iff h).mp hzero hne)
    (fun k hk => places_lt ((mem_buildRing h k).mp hk)) item

/-- An item belongs to the worker whose label comes next from its hash. -/
theorem getWorkerForItem_eq (h : CollisionFree replicas workers) (ρ : RangeOrder)
    (item : String) {id : String} (hid : id ∈ workers) {i : ℕ} (hi : i < replicas)
    (hnext : IsNext (2 ^ 32) (places replicas workers) (hash item) (hash (label id i))) :
    getWorkerForItem ρ (buildRing replicas workers) item = id := by
  have hne : (places replicas workers).Nonempty := ⟨_, hnext.1⟩
  have hlen : (buildRing replicas workers).len ≠ 0 :=
    fun hzero => (len_buildRing_eq_zero_iff h).mp hzero hne
  have hselect := select_places h ρ item hne
  rw [getWorkerForItem, if_neg hlen, hselect.unique (fun k => places_lt) (hash_lt item) hnext,
    GoMap.get, (lookup_buildRing h _ id).mpr ⟨hid, i, hi, rfl⟩, Option.getD_some]

/-- If there is a label at all, some label comes next from every hash. -/
theorem exists_isNext (h : CollisionFree replicas workers) (item : String)
    (hne : (places replicas workers).Nonempty) : ∃ id ∈ workers, ∃ i < replicas,
      IsNext (2 ^ 32) (places replicas workers) (hash item) (hash (label id i)) := by
  have hselect := select_places h .stored item hne
  obtain ⟨id, hid, i, hi, heq⟩ := hselect.1
  exact ⟨id, hid, i, hi, heq ▸ hselect⟩

theorem getWorkerForItem_of_empty (h : CollisionFree replicas workers) (ρ : RangeOrder)
    (item : String) (hempty : ¬ (places replicas workers).Nonempty) :
    getWorkerForItem ρ (buildRing replicas workers) item = "" := by
  rw [getWorkerForItem, if_pos ((len_buildRing_eq_zero_iff h).mpr hempty)]

theorem CollisionFree.of_subset {l : List String} (h : CollisionFree replicas workers)
    (hl : l ⊆ workers) : CollisionFree replicas l :=
  fun id hid i hi id' hid' j hj => h id (hl hid) i hi id' (hl hid') j hj

/-- **Adding a worker.** An item goes to the added worker, or stays where it was. -/
theorem getWorkerForItem_add {added : String} {l : List String}
    (h : CollisionFree replicas workers) (hadd : workers.Perm (added :: l)) (ρ ρ' : RangeOrder)
    (item : String) : getWorkerForItem ρ' (buildRing replicas workers) item = added ∨
      getWorkerForItem ρ' (buildRing replicas workers) item =
        getWorkerForItem ρ (buildRing replicas l) item := by
  have hsub : l ⊆ workers := fun id hid => hadd.mem_iff.mpr (mem_cons_of_mem added hid)
  have hplaces : places replicas l ⊆ places replicas workers := by
    rintro k ⟨id, hid, i, hi, rfl⟩
    exact ⟨id, hsub hid, i, hi, rfl⟩
  by_cases hne : (places replicas workers).Nonempty
  · obtain ⟨id, hid, i, hi, hnext⟩ := exists_isNext h item hne
    rw [getWorkerForItem_eq h ρ' item hid hi hnext]
    rcases mem_cons.mp (hadd.mem_iff.mp hid) with heq | hold
    · exact .inl heq
    · -- the label that comes next belongs to a worker that was there
      refine .inr (getWorkerForItem_eq (h.of_subset hsub) ρ item hold hi ?_).symm
      exact hnext.of_subset hplaces ⟨id, hold, i, hi, rfl⟩
  · refine .inr ?_
    have hold : ¬ (places replicas l).Nonempty := fun hold => hne (hold.mono hplaces)
    rw [getWorkerForItem_of_empty h ρ' item hne,
      getWorkerForItem_of_empty (h.of_subset hsub) ρ item hold]

/-! ## The assignments -/

/-- An item is listed under the worker that `getWorkerForItem` finds for it, if any. -/
theorem mem_partition {ρ : RangeOrder} {items : List String} {item id : String} :
    item ∈ (partition ρ replicas items workers).get [] id ↔
      item ∈ items ∧ id ≠ "" ∧ getWorkerForItem ρ (buildRing replicas workers) item = id := by
  rw [partition, GoMap.get_group, GoMap.get_empty, List.nil_append]
  simp only [List.mem_map, List.mem_filter, decide_eq_true_eq, ne_eq]
  constructor
  · rintro ⟨e, ⟨⟨⟨found, hfound, rfl⟩, hne⟩, rfl⟩, rfl⟩
    exact ⟨hfound, hne, rfl⟩
  · rintro ⟨hitem, hne, rfl⟩
    exact ⟨(_, item), ⟨⟨⟨item, hitem, rfl⟩, hne⟩, rfl⟩, rfl⟩

/-- With a replica and IDs that are not empty, every item is assigned to exactly one worker. -/
theorem partition_assigns (h : CollisionFree replicas workers) (hreplicas : 0 < replicas)
    (hworkers : workers ≠ []) (hids : ∀ id ∈ workers, id ≠ "") (ρ : RangeOrder)
    {items : List String} {item : String} (hitem : item ∈ items) : ∃ id ∈ workers,
      ∀ id', item ∈ (partition ρ replicas items workers).get [] id' ↔ id' = id := by
  obtain ⟨first, hfirst⟩ := exists_mem_of_ne_nil workers hworkers
  have hne : (places replicas workers).Nonempty := ⟨_, first, hfirst, 0, hreplicas, rfl⟩
  obtain ⟨id, hid, i, hi, hnext⟩ := exists_isNext h item hne
  refine ⟨id, hid, fun id' => ?_⟩
  rw [mem_partition, getWorkerForItem_eq h ρ item hid hi hnext]
  constructor
  · exact fun hmem => hmem.2.2.symm
  · rintro rfl
    exact ⟨hitem, hids id' hid, rfl⟩

/-- **Consistent hashing.** For workers that differ by one added worker, with a replica, IDs that
are not empty and labels without collisions, every item is assigned to exactly one worker: to the
added one, or to the same one in both; and what the added worker does not have is assigned as
without it. -/
theorem partition_moves_only_to_added {added : String} {l : List String}
    (h : CollisionFree replicas workers) (hreplicas : 0 < replicas)
    (hadd : workers.Perm (added :: l)) (hids : ∀ id ∈ workers, id ≠ "")
    (ρ ρ' : RangeOrder) (items : List String) : ∀ item ∈ items,
      (∃ id ∈ workers,
        ∀ id', item ∈ (partition ρ' replicas items workers).get [] id' ↔ id' = id) ∧
      ((∀ id, item ∈ (partition ρ' replicas items workers).get [] id ↔ id = added) ∨
        ∀ id, item ∈ (partition ρ' replicas items workers).get [] id ↔
          item ∈ (partition ρ replicas items l).get [] id) ∧
      (item ∉ (partition ρ' replicas items workers).get [] added →
        ∀ id, item ∈ (partition ρ replicas items l).get [] id ↔
          item ∈ (partition ρ' replicas items workers).get [] id) := by
  intro item hitem
  have hadded : added ∈ workers := hadd.mem_iff.mpr mem_cons_self
  have hmoves : (∀ id, item ∈ (partition ρ' replicas items workers).get [] id ↔ id = added) ∨
      ∀ id, item ∈ (partition ρ' replicas items workers).get [] id ↔
        item ∈ (partition ρ replicas items l).get [] id := by
    rcases getWorkerForItem_add h hadd ρ ρ' item with heq | heq
    · left
      intro id
      rw [mem_partition, heq]
      constructor
      · exact fun hmem => hmem.2.2.symm
      · rintro rfl
        exact ⟨hitem, hids id hadded, rfl⟩
    · right
      intro id
      rw [mem_partition, mem_partition, heq]
  refine ⟨partition_assigns h hreplicas (ne_nil_of_mem hadded) hids ρ' hitem, hmoves,
    fun hnot id => ?_⟩
  rcases hmoves with hmoved | hsame
  · exact absurd ((hmoved added).mpr rfl) hnot
  · exact (hsame id).symm

/-- Three workers with two replicas each, without and with the one in the middle. -/
theorem partition_moves_only_to_b : CollisionFree 2 ["a", "b", "c"] ∧
      ∀ item ∈ ["x", "y", "z"],
        (∃ id ∈ ["a", "b", "c"],
          ∀ id', item ∈ (partition .stored 2 ["x", "y", "z"] ["a", "b", "c"]).get [] id' ↔
            id' = id) ∧
        ((∀ id, item ∈ (partition .stored 2 ["x", "y", "z"] ["a", "b", "c"]).get [] id ↔
            id = "b") ∨
          ∀ id, item ∈ (partition .stored 2 ["x", "y", "z"] ["a", "b", "c"]).get [] id ↔
            item ∈ (partition .stored 2 ["x", "y", "z"] ["a", "c"]).get [] id) ∧
        (item ∉ (partition .stored 2 ["x", "y", "z"] ["a", "b", "c"]).get [] "b" →
          ∀ id, item ∈ (partition .stored 2 ["x", "y", "z"] ["a", "c"]).get [] id ↔
            item ∈ (partition .stored 2 ["x", "y", "z"] ["a", "b", "c"]).get [] id) := by
  have h : CollisionFree 2 ["a", "b", "c"] := by decide +kernel
  exact ⟨h, partition_moves_only_to_added h (by decide) (by decide) (by decide) .stored .stored _⟩

end LinkFlow.Distributed
