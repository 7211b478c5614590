import MailRules.Calendar.LocalTime

/-!
# Local zones

A date without a zone is read on the clock of the local zone. A zone either has one offset all
year, or moves its clock by an hour on two Sundays, the same rule in every year.

The two hemispheres differ in more than the order of the two Sundays: the clock readings at the
very seams are settled differently, and each shape is stated as it is. In the northern shape the
reading at which the clock is put forward is still standard time; in the southern one it is
already skipped. A reading that the clock shows twice is taken as standard time in both.
-/

namespace MailRules.Calendar

/-- The `nth` Sunday of a month. -/
structure SundayRule where
  month : Nat
  nth : Nat
  deriving DecidableEq, Repr

def SundayRule.date (rule : SundayRule) (year : Int) : Date :=
  let first := (6 - (Date.mk year rule.month 1).weekday) + 1
  ⟨year, rule.month, first + 7 * (rule.nth - 1)⟩

/-- A zone whose clock is put forward by an hour at 02:00 on the Sunday `forward` and back by an
hour when it shows `backHour` on the Sunday `back`. -/
structure Season where
  standard : Int
  forward : SundayRule
  back : SundayRule
  backHour : Nat
  deriving DecidableEq, Repr

inductive Zone
  | fixed (offset : Int)
  | northern (season : Season)
  | southern (season : Season)
  deriving DecidableEq, Repr

namespace Zone

def utc : Zone := .fixed 0

/-- UTC+05:30 all year. -/
def india : Zone := .fixed 19800

/-- UTC-05:00, put forward on the second Sunday of March and back on the first of November. -/
def usEastern : Zone := .northern ⟨-18000, ⟨3, 2⟩, ⟨11, 1⟩, 2⟩

/-- UTC+10:00, put forward on the first Sunday of October and back on the first of April. -/
def australiaEastern : Zone := .southern ⟨36000, ⟨10, 1⟩, ⟨4, 1⟩, 3⟩

/-- The zone that a rule describes, written as it is in the variable `TZ`: offsets there are west of
UTC, and the Sundays are given by month and number. -/
def ofRule? : String → Option Zone
  | "UTC0" => some utc
  | "IST-5:30" => some india
  | "EST5EDT,M3.2.0,M11.1.0" => some usEastern
  | "AEST-10AEDT,M10.1.0,M4.1.0/3" => some australiaEastern
  | _ => none

end Zone

namespace Season

/-- The clock reading at which the clock is put forward. -/
def forwardAt (s : Season) (year : Int) : Int :=
  secondsPerDay * (s.forward.date year).dayNumber + 7200

/-- The clock reading at which the clock is put back. -/
def backAt (s : Season) (year : Int) : Int :=
  secondsPerDay * (s.back.date year).dayNumber + 3600 * s.backHour

def daylight (s : Season) : Int := s.standard + 3600

end Season

namespace Zone

/-- The offset in force when the local clock shows this time; none if the clock skips it. -/
def offsetAt? (zone : Zone) (t : LocalTime) : Option Int :=
  let shown := t.clockSeconds
  match zone with
  | .fixed offset => some offset
  | .northern s =>
    let start := s.forwardAt t.date.year
    let finish := s.backAt t.date.year
    if shown ≤ start then some s.standard
    else if shown < start + 3600 then none
    else if shown < finish - 3600 then some s.daylight
    else some s.standard
  | .southern s =>
    let start := s.forwardAt t.date.year
    let finish := s.backAt t.date.year
    if shown < finish - 3600 then some s.daylight
    else if shown < start then some s.standard
    else if shown < start + 3600 then none
    else some s.daylight

/-- The instant at which the local clock shows this time. -/
def instant? (zone : Zone) (t : LocalTime) : Option Instant := do
  let offset ← zone.offsetAt? t
  t.instant? offset

end Zone

end MailRules.Calendar
