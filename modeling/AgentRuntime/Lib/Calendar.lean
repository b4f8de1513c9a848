import Mathlib.Data.Int.Notation
import Mathlib.Tactic.Linarith
import Mathlib.Tactic.IntervalCases

/-!
# `Lib.Calendar` — the proleptic Gregorian calendar

Years are taken to start in March, so that the leap day is the last of its year. Days are counted from the start of
the year 0. Every day has exactly one date (`Date.unique`, `exists_date`).
-/

namespace Calendar

/-- The day a year starts on. -/
def yearStart (y : ℤ) : ℤ := 365 * y + y / 4 - y / 100 + y / 400

def yearLength (y : ℤ) : ℤ := yearStart (y + 1) - yearStart y

/-- The day of the year a month starts on; March is month 0. -/
def monthStart (mp : ℤ) : ℤ := (153 * mp + 2) / 5

/-- A date: the year, the month and the day of the month, counted from 1. -/
structure Date (y mp d : ℤ) : Prop where
  month : 0 ≤ mp ∧ mp ≤ 11
  day : 1 ≤ d
  inMonth : monthStart mp + d ≤ monthStart (mp + 1)
  inYear : monthStart mp + d ≤ yearLength y

/-- The day of a date. -/
def dayOf (y mp d : ℤ) : ℤ := yearStart y + monthStart mp + (d - 1)

theorem yearLength_bounds (y : ℤ) : 365 ≤ yearLength y ∧ yearLength y ≤ 366 := by
  unfold yearLength yearStart
  omega

theorem yearLength_eq (y : ℤ) :
    yearLength y = if ((y + 1) % 4 = 0 ∧ (y + 1) % 100 ≠ 0) ∨ (y + 1) % 400 = 0 then 366 else 365 := by
  unfold yearLength yearStart
  split
  · omega
  · omega

theorem yearStart_succ (y : ℤ) : yearStart (y + 1) = yearStart y + yearLength y := by
  unfold yearLength
  omega

theorem yearStart_mono {y z : ℤ} (h : y ≤ z) : yearStart y ≤ yearStart z := by
  unfold yearStart
  omega

/-- The calendar repeats after 400 years. -/
theorem yearStart_add_era (y era : ℤ) : yearStart (y + era * 400) = yearStart y + era * 146097 := by
  have hfour : (y + era * 400) / 4 = y / 4 + era * 100 := by omega
  have hhundred : (y + era * 400) / 100 = y / 100 + era * 4 := by omega
  have hera : (y + era * 400) / 400 = y / 400 + era := by omega
  unfold yearStart
  omega

theorem Date.bounds {y mp d : ℤ} (h : Date y mp d) : yearStart y ≤ dayOf y mp d ∧ dayOf y mp d < yearStart (y + 1) := by
  have hmonth : 0 ≤ monthStart mp := by
    have hmp := h.month.1
    unfold monthStart
    omega
  have hday := h.day
  have hyear := h.inYear
  rw [yearStart_succ]
  unfold dayOf
  omega

/-- A day has one date. -/
theorem Date.unique {y mp d y' mp' d' : ℤ} (h : Date y mp d) (h' : Date y' mp' d') (heq : dayOf y mp d = dayOf y' mp' d') :
    y = y' ∧ mp = mp' ∧ d = d' := by
  have hb := h.bounds
  have hb' := h'.bounds
  -- the years: a year ends before a later one starts
  have hyear : y = y' := by
    rcases lt_trichotomy y y' with hlt | heq | hgt
    · have hmono : yearStart (y + 1) ≤ yearStart y' := yearStart_mono hlt
      omega
    · exact heq
    · have hmono : yearStart (y' + 1) ≤ yearStart y := yearStart_mono hgt
      omega
  subst hyear
  have hin := h.inMonth
  have hin' := h'.inMonth
  have hd := h.day
  have hd' := h'.day
  unfold dayOf monthStart at heq
  unfold monthStart at hin hin'
  have hmonth : mp = mp' := by omega
  subst hmonth
  exact ⟨rfl, rfl, by omega⟩

theorem exists_year (n : ℕ) : ∃ y : ℤ, 0 ≤ y ∧ yearStart y ≤ n ∧ n < yearStart (y + 1) := by
  induction n with
  | zero => exact ⟨0, le_rfl, by decide, by decide⟩
  | succ n ih =>
      obtain ⟨y, hy, hle, hlt⟩ := ih
      rcases lt_or_ge ((n : ℤ) + 1) (yearStart (y + 1)) with hin | hout
      · exact ⟨y, hy, by push_cast; omega, by push_cast; omega⟩
      · have hnext := yearStart_succ (y + 1)
        have hlen := yearLength_bounds (y + 1)
        exact ⟨y + 1, by omega, by push_cast; omega, by push_cast; omega⟩

/-- Every day from the start of the year 0 has a date. -/
theorem exists_date (n : ℕ) : ∃ y mp d : ℤ, 0 ≤ y ∧ Date y mp d ∧ dayOf y mp d = n := by
  obtain ⟨y, hy, hle, hlt⟩ := exists_year n
  have hlen := yearLength_bounds y
  rw [yearStart_succ] at hlt
  -- the day of the year, its month and its day
  obtain ⟨doy, hdoy⟩ : ∃ doy : ℤ, doy = n - yearStart y := ⟨_, rfl⟩
  refine ⟨y, (5 * doy + 2) / 153, doy - monthStart ((5 * doy + 2) / 153) + 1, hy, ⟨?_, ?_, ?_, ?_⟩, ?_⟩
  · omega
  · unfold monthStart
    omega
  · unfold monthStart
    omega
  · omega
  · unfold dayOf
    omega

end Calendar
