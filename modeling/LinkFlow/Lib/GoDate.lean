/-
Calendar dates as text, as `Format("2006-01-02")` writes them.

A day is a number of days since 1 January 1970. `civil` computes the date of a day in the
Gregorian calendar by way of 400-year eras that begin in March, so that the leap day is the last
day of a year; `format` writes the date with four, two and two digits. For the years 0 to 9999
this is what Go writes.
-/
import Mathlib

set_option autoImplicit false

namespace GoDate

def civil (day : ℤ) : ℤ × ℤ × ℤ :=
  let z := day + 719468
  let era := z / 146097
  let doe := z - era * 146097
  let yoe := (doe - doe / 1460 + doe / 36524 - doe / 146096) / 365
  let doy := doe - (365 * yoe + yoe / 4 - yoe / 100)
  let mp := (5 * doy + 2) / 153
  let month := if mp < 10 then mp + 3 else mp - 9
  (yoe + era * 400 + if month ≤ 2 then 1 else 0, month, doy - (153 * mp + 2) / 5 + 1)

def digit (n : ℤ) : Char := Char.ofNat (48 + (n % 10).toNat)

def formatChars (day : ℤ) : List Char :=
  let (y, m, d) := civil day
  [digit (y / 1000), digit (y / 100), digit (y / 10), digit y, '-', digit (m / 10), digit m, '-',
    digit (d / 10), digit d]

/-- `Format("2006-01-02")` -/
def format (day : ℤ) : String := String.ofList (formatChars day)

theorem toList_format (day : ℤ) : (format day).toList = formatChars day := String.toList_ofList

theorem length_formatChars (day : ℤ) : (formatChars day).length = 10 := rfl

theorem digit_mem (n : ℤ) : digit n ∈ "0123456789".toList := by
  have hall : ∀ k < 10, Char.ofNat (48 + k) ∈ "0123456789".toList := by decide
  refine hall (n % 10).toNat ?_
  omega

theorem mem_formatChars {day : ℤ} {c : Char} (h : c ∈ formatChars day) :
    c ∈ "0123456789-".toList := by
  have hdigit : ∀ n, digit n ∈ "0123456789-".toList := by
    intro n
    have hsub : "0123456789".toList ⊆ "0123456789-".toList := by decide
    exact hsub (digit_mem n)
  simp only [formatChars, List.mem_cons, List.not_mem_nil, or_false] at h
  rcases h with rfl | rfl | rfl | rfl | rfl | rfl | rfl | rfl | rfl | rfl
  all_goals first | exact hdigit _ | decide

example : format 0 = "1970-01-01" ∧ format 19782 = "2024-02-29" ∧ format (-719162) = "0001-01-01" :=
  by decide +kernel

end GoDate
