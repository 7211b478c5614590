import Mathlib
import MailRules.Calendar.Instant
import MailRules.Proofs.Calendar.Date

/-!
# Every day number is that of a day

Going back from a number to its day finds the year first and then the month. The year is guessed
from the mean length of a year, and the guess is off by at most one, which is what the two
comparisons after it correct. The months are passed one by one, and what is left of the day of the
year is the day of the month. So the day that is found exists and has the number it was found from
(`Date.exists_ofDayNumber`), and the days of the instants of the calendar are those of its years.
-/

namespace MailRules.Calendar

/-! ## The year of a day -/

/-- The guess is the year, the one before it or the one after it. -/
theorem yearOfDay_bounds (n : ℤ) :
    daysBeforeYear (yearOfDay n) ≤ n ∧ n < daysBeforeYear (yearOfDay n + 1) := by
  have hlow : daysBeforeYear (400 * n / 146097 + 1 - 1) ≤ n := by
    rw [daysBeforeYear]
    omega
  have hhigh : n < daysBeforeYear (400 * n / 146097 + 1 + 1 + 1) := by
    rw [daysBeforeYear]
    omega
  rw [yearOfDay]
  split
  · -- the guess was late
    rename_i hlt
    exact ⟨hlow, by rwa [sub_add_cancel]⟩
  · rename_i hle
    split
    · -- the guess was early
      rename_i hnext
      exact ⟨hnext, hhigh⟩
    · rename_i hnext
      exact ⟨not_lt.mp hle, not_le.mp hnext⟩

/-! ## The month of a day -/

/-- With `left` months not passed yet, a day of the year after the passed ones is found in one of
those that are left. -/
theorem monthOfDay_spec (year : ℤ) (left dayOfYear : ℕ) (hleft : left ≤ 12)
    (h : daysBeforeMonth year (12 - left) + dayOfYear < daysBeforeMonth year 12) :
    Date.Exists ⟨year, (monthOfDay year dayOfYear left).1, (monthOfDay year dayOfYear left).2⟩ ∧
      daysBeforeMonth year ((monthOfDay year dayOfYear left).1 - 1) +
          (monthOfDay year dayOfYear left).2 =
        daysBeforeMonth year (12 - left) + dayOfYear + 1 := by
  induction left generalizing dayOfYear with
  | zero => simp at h
  | succ left ih =>
    have hmonth : 12 - (left + 1) + 1 = 12 - left := by omega
    have hstep : daysBeforeMonth year (12 - left) =
        daysBeforeMonth year (12 - (left + 1)) + daysInMonth year (12 - left) := by
      rw [← hmonth, daysBeforeMonth, hmonth]
    rw [monthOfDay]
    split
    · -- the day is in the first month that is left
      rename_i hlt
      refine ⟨⟨by dsimp only; omega, by dsimp only; omega, by dsimp only; omega, hlt⟩, ?_⟩
      dsimp only
      rw [show 12 - left - 1 = 12 - (left + 1) by omega]
      omega
    · -- that month is passed as well
      rename_i hlt
      have hrest := ih (dayOfYear - daysInMonth year (12 - left)) (by omega) (by omega)
      refine ⟨hrest.1, hrest.2.trans ?_⟩
      omega

/-! ## The day of a number -/

namespace Date

/-- **The day of a number exists and has that number.** -/
theorem exists_ofDayNumber (n : ℤ) :
    (ofDayNumber n).Exists ∧ (ofDayNumber n).dayNumber = n := by
  obtain ⟨hlow, hhigh⟩ := yearOfDay_bounds (n + epochDay)
  rw [daysBeforeYear_succ] at hhigh
  have hmonth := monthOfDay_spec (yearOfDay (n + epochDay)) 12
    (n + epochDay - daysBeforeYear (yearOfDay (n + epochDay))).toNat le_rfl
    (by rw [Nat.sub_self, daysBeforeMonth]; omega)
  refine ⟨hmonth.1, ?_⟩
  have hday := hmonth.2
  rw [Nat.sub_self, daysBeforeMonth] at hday
  rw [ofDayNumber, dayNumber]
  dsimp only
  omega

/-- The days of the instants of the calendar are those of its years. -/
theorem year_ofDayNumber_of_inRange {secs : ℤ} (h : Instant.InRange secs) :
    firstYear ≤ (ofDayNumber (secs / secondsPerDay)).year ∧
      (ofDayNumber (secs / secondsPerDay)).year ≤ lastYear := by
  obtain ⟨hexists, hnumber⟩ := exists_ofDayNumber (secs / secondsPerDay)
  have hfirst : (Date.mk firstYear 1 1).Exists := by decide
  have hlast : (Date.mk (lastYear + 1) 1 1).dayNumber =
      daysBeforeYear (lastYear + 1) - epochDay := by
    decide
  obtain ⟨hlow, hhigh⟩ := h
  have hfirstSecond := firstSecond_eq
  have hlastSecond := lastSecond_eq
  rw [secondsPerDay] at *
  constructor
  · by_contra hyear
    have hlt := hexists.lt_of_year_lt hfirst (not_le.mp hyear)
    omega
  · by_contra hyear
    have hle := daysBeforeYear_mono (Int.add_one_le_of_lt (not_le.mp hyear))
    have hday := hexists.daysBeforeYear_le
    omega

end Date

end MailRules.Calendar
