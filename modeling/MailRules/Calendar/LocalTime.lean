import MailRules.Calendar.Instant

/-!
# Clock readings

What a date text gives is a reading of a clock somewhere: a day, a time of day, perhaps the offset
of that clock from UTC, perhaps the day of the week. `Reading` holds the numbers as they were
written, `LocalTime` a reading that a clock can show. The sixtieth second is shown as the
fifty-ninth with a billion nanoseconds more, at any minute.
-/

namespace MailRules.Calendar

/-- The fields of a written date. A field that is not written is zero, or absent. -/
structure Reading where
  year : Int := 0
  month : Nat := 0
  day : Nat := 0
  hour : Nat := 0
  minute : Nat := 0
  second : Nat := 0
  nanos : Nat := 0
  weekday : Option Nat := none
  /-- Seconds east of UTC. -/
  offset : Option Int := none
  deriving DecidableEq, Repr

/-- A day within the calendar and a time on it. -/
structure LocalTime where
  date : Date
  secondOfDay : Nat
  nanos : Nat
  deriving DecidableEq, Repr

namespace Reading

/-- Some clock shows these numbers, and the day of the week is right if it is given. -/
def Shown (r : Reading) : Prop :=
  let date : Date := ⟨r.year, r.month, r.day⟩
  firstYear ≤ r.year ∧ r.year ≤ lastYear ∧ date.Exists ∧
    r.hour < 24 ∧ r.minute < 60 ∧ r.second ≤ 60 ∧
    ∀ w ∈ r.weekday, w = date.weekday

instance (r : Reading) : Decidable r.Shown := by unfold Shown; infer_instance

def localTime? (r : Reading) : Option LocalTime :=
  if r.Shown then
    let second := min r.second 59
    let leap := if r.second = 60 then nanosPerSecond else 0
    some ⟨⟨r.year, r.month, r.day⟩, 3600 * r.hour + 60 * r.minute + second, r.nanos + leap⟩
  else none

end Reading

namespace LocalTime

/-- Seconds since 1970-01-01T00:00:00 on the same clock. -/
def clockSeconds (t : LocalTime) : Int := secondsPerDay * t.date.dayNumber + t.secondOfDay

/-- The instant at which a clock `offset` seconds east of UTC shows this time. -/
def instant? (t : LocalTime) (offset : Int) : Option Instant :=
  Instant.of? (t.clockSeconds - offset) t.nanos

end LocalTime

/-- A reading with an offset names an instant. An offset of a day or more is no offset. -/
def Reading.instant? (r : Reading) : Option Instant := do
  let offset ← r.offset
  let t ← r.localTime?
  if offset.natAbs < 86400 then t.instant? offset else none

end MailRules.Calendar
