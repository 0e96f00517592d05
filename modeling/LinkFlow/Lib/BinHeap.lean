/-
Go's `container/heap`: a binary heap kept in a slice, smallest key first.

The package works through an interface: it compares and swaps slots by position
and leaves storage to its client. `Items` is what it needs to know of a client,
the key its `Less` compares and what its `Swap` does to an item it stores (a
client may write the slot's position into the item). `up`, `down`, `fix` and
`remove` follow the package's loops; `down` and `up` take fuel, and the number of
slots is always enough.

All of the reasoning is about keys by position, `f : ℕ → β`. Sifting starts from
`Hole f n i`: every parent and child are in order except the pairs that slot `i`
is part of, and the children of `i` are not below its parent. `down` ends with an
ordered slice if it moved the item; if not, it leaves what `up` starts from.
-/
import Mathlib

set_option autoImplicit false

namespace BinHeap

open List

/-- A client of the heap: the key an item is compared by, and what storing an item
in a slot does to it, which does not touch the key. -/
structure Items (α β : Type) where
  key : α → β
  place : ℕ → α → α
  key_place : ∀ i x, key (place i x) = key x

/-! ## The operations -/

section Operations

variable {α β γ : Type} [LinearOrder β] [Inhabited β] (I : Items α β)

/-- The key in slot `i`. -/
def keyAt (l : List α) (i : ℕ) : β :=
  match l[i]? with
  | some x => I.key x
  | none => default

/-- `h.Less(i, j)` -/
def less (l : List α) (i j : ℕ) : Bool := decide (keyAt I l i < keyAt I l j)

/-- `h.Swap(i, j)` -/
def swap (l : List α) (i j : ℕ) : List α :=
  match l[i]?, l[j]? with
  | some x, some y => (l.set i (I.place i y)).set j (I.place j x)
  | _, _ => l

/-- `up(h, j)` -/
def up : ℕ → List α → ℕ → List α
  | 0, l, _ => l
  | fuel + 1, l, j =>
    let i := (j - 1) / 2
    if i = j ∨ less I l j i = false then l
    else up fuel (swap I l i j) i

/-- `down(h, i, n)`; the answer is the slice and the slot the item ended in. -/
def down : ℕ → List α → ℕ → ℕ → List α × ℕ
  | 0, l, i, _ => (l, i)
  | fuel + 1, l, i, n =>
    let j₁ := 2 * i + 1
    if n ≤ j₁ then (l, i)
    else
      let j₂ := j₁ + 1
      let j := if j₂ < n ∧ less I l j₂ j₁ = true then j₂ else j₁
      if less I l j i = false then (l, i)
      else down fuel (swap I l i j) j n

/-- `if !down(h, i, n) { up(h, i) }` -/
def sift (l : List α) (i n : ℕ) : List α :=
  let r := down I l.length l i n
  if i < r.2 then r.1 else up I l.length r.1 i

def init (l : List α) : List α :=
  (List.range (l.length / 2)).reverse.foldl (fun l i => (down I l.length l i l.length).1) l

def fix (l : List α) (i : ℕ) : List α := sift I l i l.length

/-- `heap.Remove` up to its call of `Pop`: the item of slot `i` in the last slot. -/
def extract (l : List α) (i : ℕ) : List α :=
  let n := l.length - 1
  if n ≠ i then sift I (swap I l i n) i n else l

/-- `heap.Remove`, with the client's `Pop`. -/
def remove (pop : List α → γ) (l : List α) (i : ℕ) : γ := pop (extract I l i)

end Operations

/-! ## Keys by position -/

section Keys

variable {β : Type} [LinearOrder β] {f : ℕ → β} {n i j : ℕ}

/-- Every slot below `n` is at least its parent. -/
def Ordered (f : ℕ → β) (n : ℕ) : Prop := ∀ c, 0 < c → c < n → f ((c - 1) / 2) ≤ f c

theorem Ordered.root_le (h : Ordered f n) : ∀ c, c < n → f 0 ≤ f c := by
  intro c
  induction c using Nat.strongRecOn with
  | ind c ih =>
    intro hc
    by_cases h0 : c = 0
    · rw [h0]
    · exact (ih ((c - 1) / 2) (by omega) (by omega)).trans (h c (by omega) hc)

theorem Ordered.mono {m : ℕ} (h : Ordered f n) (hm : m ≤ n) : Ordered f m :=
  fun c h0 hc => h c h0 (by omega)

theorem Ordered.congr {g : ℕ → β} (h : Ordered f n) (hfg : ∀ c, c < n → g c = f c) :
    Ordered g n := by
  intro c h0 hc
  rw [hfg c hc, hfg _ (by omega)]
  exact h c h0 hc

/-- Ordered but for the pairs slot `i` is part of. -/
structure Hole (f : ℕ → β) (n i : ℕ) : Prop where
  off : ∀ c, 0 < c → c < n → c ≠ i → (c - 1) / 2 ≠ i → f ((c - 1) / 2) ≤ f c
  grand : 0 < i → ∀ c, 0 < c → c < n → (c - 1) / 2 = i → f ((i - 1) / 2) ≤ f c

/-- Ordered but for slot `i` and its parent. -/
structure Rising (f : ℕ → β) (n i : ℕ) : Prop where
  off : ∀ c, 0 < c → c < n → c ≠ i → f ((c - 1) / 2) ≤ f c
  grand : 0 < i → ∀ c, 0 < c → c < n → (c - 1) / 2 = i → f ((i - 1) / 2) ≤ f c

theorem Hole.rising (h : Hole f n i)
    (hbelow : ∀ c, 0 < c → c < n → (c - 1) / 2 = i → f i ≤ f c) : Rising f n i := by
  refine ⟨fun c h0 hc hci => ?_, h.grand⟩
  by_cases hp : (c - 1) / 2 = i
  · rw [hp]
    exact hbelow c h0 hc hp
  · exact h.off c h0 hc hci hp

theorem Rising.ordered (h : Rising f n i) (habove : 0 < i → f ((i - 1) / 2) ≤ f i) :
    Ordered f n := by
  intro c h0 hc
  by_cases hci : c = i
  · rw [hci]
    exact habove (by omega)
  · exact h.off c h0 hc hci

theorem Rising.ordered_or_rising (h : Rising f n i) :
    ((0 < i → f ((i - 1) / 2) ≤ f i) ∨ i < i → Ordered f n) ∧ (i = i → Rising f n i) := by
  refine ⟨fun habove => ?_, fun _ => h⟩
  rcases habove with habove | hlt
  · exact h.ordered habove
  · exact absurd hlt (lt_irrefl i)

/-- One exchange moves the only pair out of order up. -/
theorem Rising.step (h : Rising f n i) (hi : 0 < i) (hin : i < n) (hlt : f i < f ((i - 1) / 2)) :
    Rising (fun k => f (Equiv.swap ((i - 1) / 2) i k)) n ((i - 1) / 2) := by
  generalize hp : (i - 1) / 2 = p at *
  have hpi : p < i := by omega
  refine ⟨fun c h0 hc hcp => ?_, fun hp0 c h0 hc hcp => ?_⟩
  · by_cases hci : c = i
    · subst hci
      rw [hp, Equiv.swap_apply_left, Equiv.swap_apply_right]
      exact hlt.le
    · rw [Equiv.swap_apply_of_ne_of_ne hcp hci]
      -- the parent of `c` may be either of the two slots
      by_cases hpc : (c - 1) / 2 = p
      · have hoff := h.off c h0 hc hci
        rw [hpc] at hoff ⊢
        rw [Equiv.swap_apply_left]
        exact hlt.le.trans hoff
      · by_cases hic : (c - 1) / 2 = i
        · rw [hic, Equiv.swap_apply_right, ← hp]
          exact h.grand hi c h0 hc hic
        · rw [Equiv.swap_apply_of_ne_of_ne hpc hic]
          exact h.off c h0 hc hci
  · have hup : f ((p - 1) / 2) ≤ f p := h.off p hp0 (by omega) (by omega)
    rw [Equiv.swap_apply_of_ne_of_ne (by omega : (p - 1) / 2 ≠ p) (by omega)]
    by_cases hci : c = i
    · rw [hci, Equiv.swap_apply_right]
      exact hup
    rw [Equiv.swap_apply_of_ne_of_ne (by omega) hci]
    have hoff := h.off c h0 hc hci
    rw [hcp] at hoff
    exact hup.trans hoff

/-- Swapping a slot with its smallest child, when that is smaller, moves the gap
down and settles the pair above it. -/
theorem Hole.step (h : Hole f n i) (hj0 : 0 < j) (hjn : j < n) (hji : (j - 1) / 2 = i)
    (hmin : ∀ c, 0 < c → c < n → (c - 1) / 2 = i → f j ≤ f c) (hlt : f j < f i) :
    Hole (fun k => f (Equiv.swap i j k)) n j ∧
      f (Equiv.swap i j ((j - 1) / 2)) ≤ f (Equiv.swap i j j) := by
  have hij : i < j := by omega
  refine ⟨⟨fun c h0 hc hcj hpj => ?_, fun _ c h0 hc hcj => ?_⟩, ?_⟩
  · by_cases hci : c = i
    · subst hci
      rw [Equiv.swap_apply_left, Equiv.swap_apply_of_ne_of_ne (by omega) hpj]
      exact h.grand h0 j hj0 hjn hji
    · rw [Equiv.swap_apply_of_ne_of_ne hci hcj]
      by_cases hpc : (c - 1) / 2 = i
      · rw [hpc, Equiv.swap_apply_left]
        exact hmin c h0 hc hpc
      · rw [Equiv.swap_apply_of_ne_of_ne hpc hpj]
        exact h.off c h0 hc hci hpc
  · rw [hji, Equiv.swap_apply_left, Equiv.swap_apply_of_ne_of_ne (by omega) (by omega)]
    have hoff := h.off c h0 hc (by omega) (by omega)
    rwa [hcj] at hoff
  · rw [hji, Equiv.swap_apply_left, Equiv.swap_apply_right]
    exact hlt.le

end Keys

/-! ## What the operations do to the keys -/

section Specs

variable {α β : Type} [LinearOrder β] [Inhabited β] (I : Items α β)

omit [LinearOrder β] in
theorem keyAt_of_getElem? {l : List α} {i : ℕ} {x : α} (h : l[i]? = some x) :
    keyAt I l i = I.key x := by
  rw [keyAt, h]

omit [LinearOrder β] [Inhabited β] in
@[simp] theorem length_swap (l : List α) (i j : ℕ) : (swap I l i j).length = l.length := by
  unfold swap
  split
  · rw [length_set, length_set]
  · rfl

omit [LinearOrder β] in
theorem keyAt_swap {l : List α} {i j : ℕ} (hi : i < l.length) (hj : j < l.length) (k : ℕ) :
    keyAt I (swap I l i j) k = keyAt I l (Equiv.swap i j k) := by
  have hx : l[i]? = some l[i] := getElem?_eq_getElem hi
  have hy : l[j]? = some l[j] := getElem?_eq_getElem hj
  unfold swap
  rw [hx, hy]
  dsimp only
  by_cases hkj : k = j
  · subst hkj
    rw [Equiv.swap_apply_right, keyAt_of_getElem? I hx, keyAt, getElem?_set_self (by simpa)]
    exact I.key_place k l[i]
  · by_cases hki : k = i
    · subst hki
      rw [Equiv.swap_apply_left, keyAt_of_getElem? I hy, keyAt, getElem?_set_ne (Ne.symm hkj),
        getElem?_set_self hi]
      exact I.key_place k l[j]
    · rw [Equiv.swap_apply_of_ne_of_ne hki hkj, keyAt, keyAt, getElem?_set_ne (Ne.symm hkj),
        getElem?_set_ne (Ne.symm hki)]

theorem less_eq_false_iff (l : List α) (i j : ℕ) :
    less I l i j = false ↔ keyAt I l j ≤ keyAt I l i := by
  rw [less, decide_eq_false_iff_not, not_lt]

theorem less_eq_true_iff (l : List α) (i j : ℕ) :
    less I l i j = true ↔ keyAt I l i < keyAt I l j := by
  rw [less, decide_eq_true_iff]

/-! ### What swaps keep -/

section Closed

variable {P : List α → Prop} {N : ℕ}
  (hP : ∀ l i j, i ≤ j → j < N → P l → P (swap I l i j))
include hP

theorem up_closed (fuel : ℕ) {l : List α} {j : ℕ} (hj : j < N) (h : P l) : P (up I fuel l j) := by
  induction fuel generalizing l j with
  | zero => exact h
  | succ fuel ih =>
    rw [up]
    split_ifs
    · exact h
    · exact ih (by omega) (hP l _ j (by omega) hj h)

theorem down_closed (fuel : ℕ) {l : List α} {i n : ℕ} (hn : n ≤ N) (h : P l) :
    P (down I fuel l i n).1 := by
  induction fuel generalizing l i with
  | zero => exact h
  | succ fuel ih =>
    rw [down]
    dsimp only
    split_ifs
    all_goals first | exact h | exact ih (hP l i _ (by omega) (by omega) h)

theorem sift_closed {l : List α} {i n : ℕ} (hi : i < N) (hn : n ≤ N) (h : P l) :
    P (sift I l i n) := by
  unfold sift
  dsimp only
  split_ifs
  · exact down_closed I hP _ hn h
  · exact up_closed I hP _ hi (down_closed I hP _ hn h)

theorem extract_closed {l : List α} {i : ℕ} (hi : i < l.length) (hN : l.length ≤ N) (h : P l) :
    P (extract I l i) := by
  unfold extract
  dsimp only
  split_ifs
  · exact sift_closed I hP (by omega) (by omega) (hP l i _ (by omega) (by omega) h)
  · exact h

end Closed

theorem length_down (fuel : ℕ) (l : List α) (i n : ℕ) : (down I fuel l i n).1.length = l.length :=
  down_closed I (P := fun l' => l'.length = l.length)
    (fun _ _ _ _ _ h => (length_swap I _ _ _).trans h) fuel le_rfl rfl

@[simp] theorem length_sift (l : List α) (i n : ℕ) : (sift I l i n).length = l.length :=
  sift_closed I (P := fun l' => l'.length = l.length) (N := n + i + 1)
    (fun _ _ _ _ _ h => (length_swap I _ _ _).trans h) (by omega) (by omega) rfl

@[simp] theorem length_extract (l : List α) (i : ℕ) : (extract I l i).length = l.length := by
  unfold extract
  dsimp only
  split_ifs
  · rw [length_sift, length_swap]
  · rfl

theorem sift_getElem? (l : List α) {i n : ℕ} (hi : i < n) : (sift I l i n)[n]? = l[n]? := by
  refine sift_closed I (P := fun l' => l'[n]? = l[n]?) (fun l' a b hab hb h => ?_) hi le_rfl rfl
  unfold swap
  split
  · rw [getElem?_set_ne (by omega), getElem?_set_ne (by omega), h]
  · exact h

theorem extract_getLast? {γ : Type} {g : α → γ} (hg : ∀ i x, g (I.place i x) = g x) {l : List α}
    {i : ℕ} (hi : i < l.length) : (extract I l i).getLast?.map g = l[i]?.map g := by
  rw [getLast?_eq_getElem?, length_extract]
  unfold extract
  dsimp only
  split_ifs with hlast
  · have hx : l[i]? = some l[i] := getElem?_eq_getElem hi
    have hy : l[l.length - 1]? = some l[l.length - 1] := getElem?_eq_getElem (by omega)
    rw [sift_getElem? I _ (by omega), swap, hx, hy]
    dsimp only
    rw [getElem?_set_self (by rw [length_set]; omega), Option.map_some, Option.map_some, hg]
  · rw [not_not.mp hlast]

/-- Every item is stored where it was placed. -/
def Placed (l : List α) : Prop := ∀ k x, l[k]? = some x → ∃ y, x = I.place k y

omit [LinearOrder β] [Inhabited β] in
theorem Placed.swap {l : List α} (h : Placed I l) (i j : ℕ) : Placed I (BinHeap.swap I l i j) := by
  unfold BinHeap.swap
  split
  · intro k x hx
    rw [getElem?_set, getElem?_set] at hx
    split_ifs at hx with hj _ hi
    · subst hj
      exact ⟨_, (Option.some.inj hx).symm⟩
    · subst hi
      exact ⟨_, (Option.some.inj hx).symm⟩
    · exact h k x hx
  · exact h

/-! ### Contents

What the operations move they keep: a reading `g` of the items that does not see the slot
they are in gives the same readings afterwards, in another order. -/

section Contents

variable {γ : Type} {g : α → γ} (hg : ∀ i x, g (I.place i x) = g x)
include hg

omit [LinearOrder β] [Inhabited β] in
theorem map_swap_perm (l : List α) (i j : ℕ) : ((swap I l i j).map g).Perm (l.map g) := by
  unfold swap
  split
  · rename_i x y hx hy
    obtain ⟨hi, rfl⟩ := List.getElem?_eq_some_iff.mp hx
    obtain ⟨hj, rfl⟩ := List.getElem?_eq_some_iff.mp hy
    rw [map_set, map_set, hg, hg]
    have hperm := @List.set_set_perm γ (l.map g) i j (by simpa using hi) (by simpa using hj)
    rwa [getElem_map, getElem_map] at hperm
  · exact List.Perm.refl _

theorem map_fix_perm (l : List α) (i : ℕ) : ((fix I l i).map g).Perm (l.map g) :=
  sift_closed I (P := fun l' => (l'.map g).Perm (l.map g)) (N := l.length + i + 1)
    (fun l' i j _ _ h => (map_swap_perm I hg l' i j).trans h) (by omega) (by omega) (.refl _)

theorem map_extract_perm {l : List α} {i : ℕ} (hi : i < l.length) :
    ((extract I l i).map g).Perm (l.map g) :=
  extract_closed I (P := fun l' => (l'.map g).Perm (l.map g))
    (fun l' i j _ _ h => (map_swap_perm I hg l' i j).trans h) hi le_rfl (.refl _)

end Contents

/-- Moving up ends in a heap. -/
theorem up_ordered (fuel : ℕ) (l : List α) (n j : ℕ) (hn : n ≤ l.length) (hj : j < n)
    (hfuel : j ≤ fuel) (h : Rising (keyAt I l) n j) : Ordered (keyAt I (up I fuel l j)) n := by
  induction fuel generalizing l j with
  | zero =>
    have h0 : ¬ 0 < j := by omega
    exact h.ordered (fun hpos => absurd hpos h0)
  | succ fuel ih =>
    rw [up]
    split_ifs with hstop
    · refine h.ordered (fun hpos => ?_)
      rcases hstop with heq | hless
      · omega
      · exact (less_eq_false_iff I l j _).mp hless
    · rw [not_or, Bool.not_eq_false] at hstop
      have hpos : 0 < j := by omega
      refine ih (swap I l ((j - 1) / 2) j) ((j - 1) / 2) (by simpa) (by omega) (by omega) ?_
      have hkeys : keyAt I (swap I l ((j - 1) / 2) j)
          = fun k => keyAt I l (Equiv.swap ((j - 1) / 2) j k) :=
        funext (keyAt_swap I (by omega) (by omega))
      rw [hkeys]
      exact h.step hpos hj ((less_eq_true_iff I l j _).mp hstop.2)

theorem child_min (l : List α) (i n : ℕ) : ∀ c, 0 < c → c < n → (c - 1) / 2 = i →
      keyAt I l (if 2 * i + 1 + 1 < n ∧ less I l (2 * i + 1 + 1) (2 * i + 1) = true
        then 2 * i + 1 + 1 else 2 * i + 1) ≤ keyAt I l c := by
  intro c h0 hc hci
  have hcase : c = 2 * i + 1 ∨ c = 2 * i + 1 + 1 := by omega
  split_ifs with hj
  · have hlt := (less_eq_true_iff I l _ _).mp hj.2
    rcases hcase with rfl | rfl
    · exact hlt.le
    · exact le_rfl
  · rcases hcase with rfl | rfl
    · exact le_rfl
    · have hless : less I l (2 * i + 1 + 1) (2 * i + 1) = false := by
        rw [← Bool.not_eq_true]
        exact fun ht => hj ⟨hc, ht⟩
      exact (less_eq_false_iff I l _ _).mp hless

/-- What `down` leaves, from slot `i` with a gap there: an ordered slice if the item
was in order with its parent or has moved, and otherwise a gap above `i` only, with
nothing changed. -/
theorem down_spec (fuel : ℕ) (l : List α) (i n : ℕ) (hn : n ≤ l.length)
    (hfuel : n ≤ fuel + i) (h : Hole (keyAt I l) n i) : i ≤ (down I fuel l i n).2 ∧
    ((0 < i → keyAt I l ((i - 1) / 2) ≤ keyAt I l i) ∨ i < (down I fuel l i n).2 →
      Ordered (keyAt I (down I fuel l i n).1) n) ∧
    ((down I fuel l i n).2 = i → Rising (keyAt I (down I fuel l i n).1) n i) := by
  induction fuel generalizing l i with
  | zero =>
    -- no fuel means that `i` has no children below `n`
    have hbelow : Rising (keyAt I l) n i := h.rising (fun c h0 hc hci => by omega)
    exact ⟨le_rfl, hbelow.ordered_or_rising⟩
  | succ fuel ih =>
    rw [down]
    dsimp only
    by_cases hleaf : n ≤ 2 * i + 1
    · rw [if_pos hleaf]
      exact ⟨le_rfl, (h.rising (fun c h0 hc hci => by omega)).ordered_or_rising⟩
    rw [if_neg hleaf]
    have hmin := child_min I l i n
    generalize hj : (if 2 * i + 1 + 1 < n ∧ less I l (2 * i + 1 + 1) (2 * i + 1) = true
      then 2 * i + 1 + 1 else 2 * i + 1) = j at hmin ⊢
    have hjn : j < n ∧ 0 < j ∧ (j - 1) / 2 = i := by
      split_ifs at hj with hc <;> omega
    cases hless : less I l j i with
    | false =>
      -- the smallest child is not smaller, so no child is
      rw [if_pos rfl]
      have hle := (less_eq_false_iff I l j i).mp hless
      have hbelow : Rising (keyAt I l) n i :=
        h.rising (fun c h0 hc hci => hle.trans (hmin c h0 hc hci))
      exact ⟨le_rfl, hbelow.ordered_or_rising⟩
    | true =>
      -- the item moves to slot `j`, in order with what is now above it
      rw [if_neg (by simp)]
      have hkeys : keyAt I (swap I l i j) = fun k => keyAt I l (Equiv.swap i j k) :=
        funext (keyAt_swap I (by omega) (by omega))
      obtain ⟨hhole, habove⟩ := h.step hjn.2.1 hjn.1 hjn.2.2 hmin
        ((less_eq_true_iff I l j i).mp hless)
      have hgap : Hole (keyAt I (swap I l i j)) n j := by rw [hkeys]; exact hhole
      obtain ⟨hge, hord, -⟩ := ih (swap I l i j) j (by simpa) (by omega) hgap
      refine ⟨by omega, fun _ => ?_, fun heq => by omega⟩
      refine hord (.inl (fun _ => ?_))
      rw [hkeys]
      exact habove

/-- **Sifting closes any gap.** -/
theorem sift_ordered (l : List α) (i n : ℕ) (hn : n ≤ l.length) (hi : i < n)
    (h : Hole (keyAt I l) n i) : Ordered (keyAt I (sift I l i n)) n := by
  obtain ⟨hge, hord, hrise⟩ := down_spec I l.length l i n hn (by omega) h
  unfold sift
  dsimp only
  split_ifs with hmoved
  · exact hord (.inr hmoved)
  · have heq : (down I l.length l i n).2 = i := by omega
    exact up_ordered I l.length _ n i (by rw [length_down]; exact hn) hi (by omega) (hrise heq)

/-! ## A heap stays a heap -/

omit [LinearOrder β] in
theorem keyAt_append_left {l : List α} (x : α) {c : ℕ} (hc : c < l.length) :
    keyAt I (l ++ [x]) c = keyAt I l c := by
  rw [keyAt, keyAt, getElem?_append_left hc]

omit [LinearOrder β] in
theorem keyAt_dropLast {l : List α} {c : ℕ} (hc : c < l.length - 1) :
    keyAt I l.dropLast c = keyAt I l c := by
  rw [keyAt, keyAt, getElem?_dropLast, if_pos hc]

@[simp] theorem length_fix (l : List α) (i : ℕ) : (fix I l i).length = l.length :=
  length_sift I l i l.length

theorem fix_snoc_ordered {l : List α} (x : α) (h : Ordered (keyAt I l) l.length) :
    Ordered (keyAt I (fix I (l ++ [x]) l.length)) (l.length + 1) := by
  have hlen : (l ++ [x]).length = l.length + 1 := by simp
  unfold fix
  rw [hlen]
  apply sift_ordered I (l ++ [x]) l.length (l.length + 1) (by omega) (by omega)
  -- the new slot has no children, and the others are as they were
  refine ⟨fun c h0 hc hcl _ => ?_, fun _ c _ hc hcl => by omega⟩
  rw [keyAt_append_left I x (by omega), keyAt_append_left I x (by omega)]
  exact h c h0 (by omega)

theorem extract_ordered {l : List α} {i : ℕ} (hi : i < l.length)
    (h : Ordered (keyAt I l) l.length) :
    Ordered (keyAt I (extract I l i).dropLast) (l.length - 1) := by
  have hbody : Ordered (keyAt I (extract I l i)) (l.length - 1) := by
    unfold extract
    dsimp only
    split_ifs with hlast
    · apply sift_ordered I _ i (l.length - 1) (by rw [length_swap]; omega) (by omega)
      -- only slot `i` below the last one has a new key
      have hkey : ∀ c, c < l.length - 1 → c ≠ i →
          keyAt I (swap I l i (l.length - 1)) c = keyAt I l c := by
        intro c hc hci
        rw [keyAt_swap I hi (by omega), Equiv.swap_apply_of_ne_of_ne hci (by omega)]
      refine ⟨fun c h0 hc hci hpi => ?_, fun hi0 c h0 hc hci => ?_⟩
      · rw [hkey c hc hci, hkey _ (by omega) hpi]
        exact h c h0 (by omega)
      rw [hkey c hc (by omega), hkey _ (by omega) (by omega)]
      have hparent := h c h0 (by omega)
      rw [hci] at hparent
      exact (h i hi0 hi).trans hparent
    · exact h.mono (by omega)
  exact hbody.congr (fun c hc => keyAt_dropLast I (by rw [length_extract]; exact hc))

end Specs

end BinHeap
