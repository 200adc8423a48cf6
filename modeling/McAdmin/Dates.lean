import Mathlib.Tactic.IntervalCases
import McAdmin.Calendar

/-!
# Days

A day by its number in the calendar, which ends with the year 9999.
-/

namespace Calendar

/-- `date.toordinal` -/
def dayNumber (year month day : ℕ) : ℕ :=
  (year - 1) * 365 + (year - 1) / 4 - (year - 1) / 100 + (year - 1) / 400 +
    ((List.range (month - 1)).map fun m => daysIn year (m + 1)).sum + day

/-- `date.max.toordinal()` -/
def maxOrdinal : ℕ := 3652059

def IsDate (year month day : ℕ) : Prop :=
  (1 ≤ year ∧ year < 10 ^ 4) ∧ (1 ≤ month ∧ month ≤ 12) ∧ (1 ≤ day ∧ day ≤ daysIn year month)

instance (year month day : ℕ) : Decidable (IsDate year month day) :=
  inferInstanceAs (Decidable (_ ∧ _ ∧ _))

section

variable {year month day : ℕ}

theorem dayOfYear_le (hmonth : 1 ≤ month ∧ month ≤ 12) (hday : day ≤ daysIn year month) :
    ((List.range (month - 1)).map fun m => daysIn year (m + 1)).sum + day ≤
      337 + daysIn year 2 := by
  obtain ⟨hlow, hhigh⟩ := hmonth
  interval_cases month <;> simp [List.range_succ, daysIn] at hday ⊢ <;> split_ifs at hday ⊢ <;>
    omega

theorem dayNumber_range (h : IsDate year month day) :
    1 ≤ dayNumber year month day ∧ dayNumber year month day ≤ maxOrdinal := by
  obtain ⟨hyear, hmonth, hday⟩ := h
  have hlast := dayOfYear_le hmonth hday.2
  have hfebruary : daysIn year 2 = if year % 4 = 0 ∧ (year % 100 ≠ 0 ∨ year % 400 = 0) then 29
      else 28 := if_pos rfl
  rw [dayNumber, maxOrdinal]
  generalize ((List.range (month - 1)).map fun m => daysIn year (m + 1)).sum = before at hlast ⊢
  split_ifs at hfebruary <;> omega

end

structure Date where
  ordinal : ℕ
  valid : 1 ≤ ordinal ∧ ordinal ≤ maxOrdinal
deriving DecidableEq

/-- `date.fromisoformat(text)`, of a year, a month and a day -/
def Date.fromisoformat (text : Text) : Option Date := do
  let (year, text) ← field 4 text
  let text ← expect '-' text
  let (month, text) ← field 2 text
  let text ← expect '-' text
  let (day, text) ← field 2 text
  if h : IsDate year month day ∧ text = [] then
    some ⟨dayNumber year month day, dayNumber_range h.1⟩
  else none

example : (Date.fromisoformat "9999-12-31".toList).map Date.ordinal = some maxOrdinal := by
  decide +kernel

end Calendar
