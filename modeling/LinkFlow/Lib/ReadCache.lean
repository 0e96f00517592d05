/-
A cache in front of a source.

A program asks the cache first and the source on a miss, so that its readers see the source
exactly if the cache is coherent: whatever it holds is what the source answers. A call of the
program changes the source and writes to the cache. `Coherent.write_iff` says when the cache is
coherent afterwards: what was set is what the source answers now, and what was cached and left
alone has kept its answer.
-/
import LinkFlow.Lib.GoMap

set_option autoImplicit false

namespace ReadCache

open List

variable {K V : Type}

/-- A command to the cache. -/
inductive Write (K V : Type)
  | set (key : K) (value : V)
  | delete (key : K)

def Write.key : Write K V → K
  | set key _ => key
  | delete key => key

def Write.value : Write K V → Option V
  | set _ value => some value
  | delete _ => none

variable [DecidableEq K]

def Write.run (cache : GoMap K V) : Write K V → GoMap K V
  | set key value => cache.insert key value
  | delete key => cache.erase key

def write (cache : GoMap K V) (writes : List (Write K V)) : GoMap K V :=
  writes.foldl Write.run cache

theorem write_append (cache : GoMap K V) (ws ws' : List (Write K V)) :
    write cache (ws ++ ws') = write (write cache ws) ws' :=
  foldl_append

/-! ## What is found after a list of writes -/

theorem Write.lookup_run (cache : GoMap K V) (w : Write K V) (key : K) :
    (w.run cache).lookup key = if key = w.key then w.value else cache.lookup key := by
  cases w with
  | set k v => exact GoMap.lookup_insert cache k key v
  | delete k =>
    rw [Write.run, Write.key, Write.value]
    by_cases hk : key = k
    · rw [if_pos hk, hk, AList.lookup_erase]
    · rw [if_neg hk, AList.lookup_erase_ne hk]

theorem lookup_write_of_ne {cache : GoMap K V} {writes : List (Write K V)} {key : K}
    (h : ∀ w ∈ writes, w.key ≠ key) : (write cache writes).lookup key = cache.lookup key := by
  induction writes generalizing cache with
  | nil => rfl
  | cons w writes ih =>
    obtain ⟨hw, hrest⟩ := forall_mem_cons.mp h
    have hstep : write cache (w :: writes) = write (w.run cache) writes := rfl
    rw [hstep, ih hrest, Write.lookup_run, if_neg (Ne.symm hw)]

def Agree (writes : List (Write K V)) : Prop :=
  ∀ w ∈ writes, ∀ w' ∈ writes, w.key = w'.key → w.value = w'.value

theorem lookup_write_of_mem {cache : GoMap K V} {writes : List (Write K V)} (hagree : Agree writes)
    {w : Write K V} (hw : w ∈ writes) : (write cache writes).lookup w.key = w.value := by
  induction writes using reverseRecOn with
  | nil => exact absurd hw not_mem_nil
  | append_singleton ws last ih =>
    rw [write_append]
    have hlast : write (write cache ws) [last] = last.run (write cache ws) := rfl
    rw [hlast, Write.lookup_run]
    by_cases hk : w.key = last.key
    · rw [if_pos hk]
      exact (hagree w hw last (by simp) hk).symm
    rw [if_neg hk]
    have hmem : w ∈ ws := by
      rcases mem_append.mp hw with h | h
      · exact h
      · exact absurd (congrArg Write.key (mem_singleton.mp h)) hk
    refine ih (fun a ha b hb => ?_) hmem
    exact hagree a (mem_append_left _ ha) b (mem_append_left _ hb)

/-! ## Coherence -/

def Coherent (source : K → Option V) (cache : GoMap K V) : Prop :=
  ∀ key value, cache.lookup key = some value → source key = some value

variable {source source' : K → Option V} {cache : GoMap K V} {writes : List (Write K V)}

theorem Coherent.empty (source : K → Option V) : Coherent source (∅ : GoMap K V) := by
  intro key value h
  rw [AList.lookup_empty] at h
  cases h

theorem Coherent.exists_of_mem (h : Coherent source cache) {key : K} (hkey : key ∈ cache) :
    ∃ value, cache.lookup key = some value ∧ source key = some value := by
  obtain ⟨value, hvalue⟩ := Option.isSome_iff_exists.mp (AList.lookup_isSome.mpr hkey)
  exact ⟨value, hvalue, h key value hvalue⟩

/-- **Coherence after a call.** The source has changed to `source'`. -/
theorem Coherent.write_iff (h : Coherent source cache) (hagree : Agree writes) :
    Coherent source' (write cache writes) ↔
      (∀ key value, Write.set key value ∈ writes → source' key = some value) ∧
      ∀ key ∈ cache, (∀ w ∈ writes, w.key ≠ key) → source' key = source key := by
  constructor
  · intro hafter
    refine ⟨fun key value hset => ?_, fun key hkey hleft => ?_⟩
    · exact hafter key value (lookup_write_of_mem hagree hset)
    · obtain ⟨value, hvalue, hsource⟩ := h.exists_of_mem hkey
      rw [hsource]
      exact hafter key value ((lookup_write_of_ne hleft).trans hvalue)
  · rintro ⟨hset, hkept⟩ key value hvalue
    by_cases hleft : ∀ w ∈ writes, w.key ≠ key
    · rw [lookup_write_of_ne hleft] at hvalue
      have hkey : key ∈ cache := AList.lookup_isSome.mp (Option.isSome_of_eq_some hvalue)
      rw [hkept key hkey hleft]
      exact h key value hvalue
    · push Not at hleft
      obtain ⟨w, hw, rfl⟩ := hleft
      rw [lookup_write_of_mem hagree hw] at hvalue
      cases w with
      | set k v => exact hset k value (by rw [← Option.some.inj hvalue]; exact hw)
      | delete k => cases hvalue

/-- Where the source stays, only what is set has to be right. -/
theorem Coherent.write_same_iff (h : Coherent source cache) (hagree : Agree writes) :
    Coherent source (write cache writes) ↔
      ∀ key value, Write.set key value ∈ writes → source key = some value := by
  rw [h.write_iff hagree]
  exact and_iff_left (fun _ _ _ => rfl)

omit [DecidableEq K] in
theorem agree_of_forall_value {value : Option V} (h : ∀ w ∈ writes, w.value = value) :
    Agree writes :=
  fun w hw w' hw' _ => (h w hw).trans (h w' hw').symm

omit [DecidableEq K] in
theorem forall_key_ne_iff {keys : List K} {w : K → Write K V} (hw : ∀ k, (w k).key = k) (key : K) :
    (∀ v ∈ keys.map w, v.key ≠ key) ↔ key ∉ keys := by
  rw [forall_mem_map]
  constructor
  · intro h hmem
    exact h key hmem (hw key)
  · intro h k hk heq
    exact h (heq ▸ (hw k).symm ▸ hk)

/-- Deletions: what stays cached must have kept its answer. -/
theorem Coherent.delete_iff (h : Coherent source cache) (keys : List K) :
    Coherent source' (write cache (keys.map .delete)) ↔
      ∀ key ∈ cache, key ∉ keys → source' key = source key := by
  have hvalue : ∀ w ∈ keys.map (Write.delete (V := V)), w.value = none := by
    intro w hw
    obtain ⟨key, -, rfl⟩ := mem_map.mp hw
    exact rfl
  rw [h.write_iff (agree_of_forall_value hvalue)]
  constructor
  · rintro ⟨-, hkept⟩ key hkey hnot
    exact hkept key hkey ((forall_key_ne_iff (fun _ => rfl) key).mpr hnot)
  intro hkept
  refine ⟨fun key value hset => ?_, fun key hkey hleft => ?_⟩
  · cases hvalue _ hset
  · exact hkept key hkey ((forall_key_ne_iff (fun _ => rfl) key).mp hleft)

/-- One value under several keys: it must be what the source answers now. -/
theorem Coherent.set_iff (h : Coherent source cache) (keys : List K) (value : V) :
    Coherent source' (write cache (keys.map (.set · value))) ↔
      (∀ key ∈ keys, source' key = some value) ∧
      ∀ key ∈ cache, key ∉ keys → source' key = source key := by
  have hvalue : ∀ w ∈ keys.map (Write.set · value), w.value = some value := by
    intro w hw
    obtain ⟨key, -, rfl⟩ := mem_map.mp hw
    exact rfl
  rw [h.write_iff (agree_of_forall_value hvalue)]
  refine and_congr ?_ (forall₂_congr (fun key _ => ?_))
  · constructor
    · intro hset key hkey
      exact hset key value (mem_map.mpr ⟨key, hkey, rfl⟩)
    · intro hset key v hmem
      obtain ⟨k, hk, heq⟩ := mem_map.mp hmem
      obtain ⟨rfl, rfl⟩ := Write.set.inj heq
      exact hset k hk
  · rw [forall_key_ne_iff (fun _ => rfl) key]

end ReadCache
