/-
What a SQL query may answer, as far as a program can tell.

`ORDER BY` leaves open how rows with equal keys follow each other, so `orderBy` takes a rank of
the rows that decides between them: a statement about every rank is one about every answer.
`LIMIT` and `OFFSET` cut a page out of the ordered rows, where a negative limit stands for none.
`LIKE` compares a text with a pattern.
-/
import Mathlib

set_option autoImplicit false

namespace Sql

open List

/-! ## `ORDER BY` -/

section OrderBy

variable {α K : Type} [LinearOrder K]

/-- Rows in the order of a key; `rank` decides between rows with equal keys. -/
def orderBy (key : α → K) (rank : α → ℕ) (l : List α) : List α :=
  l.insertionSort (fun a b => key a < key b ∨ key a = key b ∧ rank a ≤ rank b)

variable (key : α → K) (rank : α → ℕ) (l : List α)

theorem orderBy_perm : (orderBy key rank l).Perm l := perm_insertionSort _ l

@[simp] theorem mem_orderBy {a : α} : a ∈ orderBy key rank l ↔ a ∈ l :=
  (orderBy_perm key rank l).mem_iff

theorem orderBy_pairwise : (orderBy key rank l).Pairwise (fun a b => key a ≤ key b) := by
  let r : α → α → Prop := fun a b => key a < key b ∨ key a = key b ∧ rank a ≤ rank b
  have htotal : Std.Total r := by
    constructor
    intro a b
    rcases lt_trichotomy (key a) (key b) with h | h | h
    · exact .inl (.inl h)
    · rcases le_total (rank a) (rank b) with hr | hr
      · exact .inl (.inr ⟨h, hr⟩)
      · exact .inr (.inr ⟨h.symm, hr⟩)
    · exact .inr (.inl h)
  have htrans : IsTrans α r := by
    constructor
    rintro a b c (hab | ⟨hab, hr⟩) (hbc | ⟨hbc, hr'⟩)
    · exact .inl (hab.trans hbc)
    · exact .inl (hbc ▸ hab)
    · exact .inl (hab ▸ hbc)
    · exact .inr ⟨hab.trans hbc, hr.trans hr'⟩
  refine (pairwise_insertionSort r l).imp ?_
  rintro a b (h | ⟨h, -⟩)
  · exact h.le
  · exact h.le

end OrderBy

/-! ## `LIMIT` and `OFFSET` -/

section Page

variable {α : Type}

/-- The rows from `offset` on, at most `limit` of them unless the limit is negative. -/
def page (limit : ℤ) (offset : ℕ) (l : List α) : List α :=
  if limit < 0 then l.drop offset else (l.drop offset).take limit.toNat

/-- A page can take `n` rows. -/
def Fits (limit : ℤ) (n : ℕ) : Prop := limit < 0 ∨ (n : ℤ) ≤ limit

instance (limit : ℤ) (n : ℕ) : Decidable (Fits limit n) :=
  inferInstanceAs (Decidable (limit < 0 ∨ (n : ℤ) ≤ limit))

variable (limit : ℤ) (offset : ℕ) (l : List α)

theorem page_sublist : (page limit offset l).Sublist l := by
  unfold page
  split_ifs
  · exact drop_sublist offset l
  · exact (take_sublist _ _).trans (drop_sublist offset l)

theorem length_page_zero_eq_iff : (page limit 0 l).length = l.length ↔ Fits limit l.length := by
  unfold page Fits
  split_ifs with h
  · simp [h]
  · rw [drop_zero, length_take]
    omega

theorem length_page_lt (h : 0 < offset) (hl : l ≠ []) :
    (page limit offset l).length < l.length := by
  have hpos : 0 < l.length := length_pos_of_ne_nil hl
  have hdrop : (l.drop offset).length < l.length := by
    rw [length_drop]
    omega
  unfold page
  split_ifs
  · exact hdrop
  · exact lt_of_le_of_lt (length_take_le' _ _) hdrop

end Page

/-! ## `LIKE` -/

/-- `LIKE`: a percent sign stands for any text, an underscore for any character, and a backslash
takes the next character as it is; `escaped` is whether one came before. -/
def likeFrom : Bool → List Char → List Char → Bool
  | _, [], t => t.isEmpty
  | escaped, c :: p, t =>
    if escaped = false ∧ c = '\\' then likeFrom true p t
    else if escaped = false ∧ c = '%' then t.tails.any (likeFrom false p)
    else match t with
      | [] => false
      | d :: t => ((escaped = false ∧ c = '_') ∨ c = d) && likeFrom false p t

def like (p t : List Char) : Bool := likeFrom false p t

/-- A pattern without special characters. -/
def Plain (p : List Char) : Prop := ∀ c ∈ p, c ≠ '%' ∧ c ≠ '_' ∧ c ≠ '\\'

theorem like_cons_of_plain {c : Char} {p t : List Char} (h : c ≠ '%' ∧ c ≠ '_' ∧ c ≠ '\\') :
    like (c :: p) t = true ↔ ∃ s, t = c :: s ∧ like p s = true := by
  obtain ⟨hpercent, hunder, hback⟩ := h
  cases t with
  | nil => simp [like, likeFrom, hpercent, hback]
  | cons d t =>
    have hstep : like (c :: p) (d :: t) = (decide (c = d) && like p t) := by
      simp [like, likeFrom, hpercent, hunder, hback]
    rw [hstep, Bool.and_eq_true, decide_eq_true_iff]
    constructor
    · rintro ⟨rfl, h⟩
      exact ⟨t, rfl, h⟩
    · rintro ⟨s, heq, h⟩
      cases heq
      exact ⟨rfl, h⟩

theorem like_iff_of_plain {p : List Char} (h : Plain p) (t : List Char) :
    like p t = true ↔ t = p := by
  induction p generalizing t with
  | nil => rw [like, likeFrom, List.isEmpty_iff]
  | cons c p ih =>
    rw [like_cons_of_plain (h c mem_cons_self)]
    constructor
    · rintro ⟨s, rfl, hs⟩
      rw [(ih (fun d hd => h d (mem_cons_of_mem c hd)) s).mp hs]
    · rintro rfl
      exact ⟨p, rfl, (ih (fun d hd => h d (mem_cons_of_mem c hd)) p).mpr rfl⟩

theorem like_percent_iff {p : List Char} (h : Plain p) (t : List Char) :
    like ('%' :: p) t = true ↔ p <:+ t := by
  have hpercent : like ('%' :: p) t = t.tails.any (like p) := rfl
  rw [hpercent, any_eq_true]
  constructor
  · rintro ⟨s, hs, hlike⟩
    rw [← (like_iff_of_plain h s).mp hlike]
    exact (mem_tails s t).mp hs
  · intro hp
    exact ⟨p, (mem_tails p t).mpr hp, (like_iff_of_plain h p).mpr rfl⟩

example : like "%/b_.gz".toList "a/bc.gz".toList = true := by decide

end Sql
