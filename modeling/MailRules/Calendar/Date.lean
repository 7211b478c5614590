/-!
# The proleptic Gregorian calendar

Dates run over all integer years, with a year 0. A date is a plain triple; whether the day exists
is the predicate `Date.Exists`, so that readers of dates can build a triple from text first and
ask afterwards, and so that the arithmetic below is total.

Day numbers count from 1970-01-01. They are computed from the number of days before the year,
which is exact integer arithmetic with floor division, and from the lengths of the months.
-/

namespace MailRules.Calendar

structure Date where
  year : Int
  month : Nat
  day : Nat
  deriving DecidableEq, Repr

def isLeap (year : Int) : Bool :=
  year % 4 == 0 && (year % 100 != 0 || year % 400 == 0)

def daysInMonth (year : Int) (month : Nat) : Nat :=
  match month with
  | 1 | 3 | 5 | 7 | 8 | 10 | 12 => 31
  | 4 | 6 | 9 | 11 => 30
  | 2 => if isLeap year then 29 else 28
  | _ => 0

/-- Days from the start of the year 1 to the start of `year`. -/
def daysBeforeYear (year : Int) : Int :=
  let y := year - 1
  365 * y + y / 4 - y / 100 + y / 400

/-- Days from the start of the year to the start of the month with `month` months before it. -/
def daysBeforeMonth (year : Int) : Nat → Nat
  | 0 => 0
  | m + 1 => daysBeforeMonth year m + daysInMonth year (m + 1)

/-- The day number of 1970-01-01 when 0001-01-01 is day 0. -/
def epochDay : Int := 719162

namespace Date

/-- The day is one the calendar has. -/
def Exists (d : Date) : Prop :=
  1 ≤ d.month ∧ d.month ≤ 12 ∧ 1 ≤ d.day ∧ d.day ≤ daysInMonth d.year d.month

instance (d : Date) : Decidable d.Exists := by unfold Exists; infer_instance

/-- Days since 1970-01-01. -/
def dayNumber (d : Date) : Int :=
  daysBeforeYear d.year + daysBeforeMonth d.year (d.month - 1) + d.day - 1 - epochDay

/-- Days since the last Monday: 1970-01-01 was a Thursday. -/
def weekday (d : Date) : Nat := ((d.dayNumber + 3) % 7).toNat

end Date

/-! ## From day numbers back to dates -/

/-- The year that holds the day `n` days after the start of the year 1. A cycle of 400 years has
146097 days, so the quotient is off by at most one. -/
def yearOfDay (n : Int) : Int :=
  let y := 400 * n / 146097 + 1
  if n < daysBeforeYear y then y - 1
  else if daysBeforeYear (y + 1) ≤ n then y + 1
  else y

/-- Splits a day of the year, counted from 0, into a month and a day; `left` months are not
passed yet. -/
def monthOfDay (year : Int) (dayOfYear : Nat) : Nat → Nat × Nat
  | 0 => (12, dayOfYear + 1)
  | left + 1 =>
    let month := 12 - left
    let length := daysInMonth year month
    if dayOfYear < length then (month, dayOfYear + 1)
    else monthOfDay year (dayOfYear - length) left

def Date.ofDayNumber (days : Int) : Date :=
  let n := days + epochDay
  let year := yearOfDay n
  let (month, day) := monthOfDay year (n - daysBeforeYear year).toNat 12
  ⟨year, month, day⟩

end MailRules.Calendar
