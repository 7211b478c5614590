import MailRules.Calendar.Scan
import MailRules.Calendar.Pattern

/-!
# Timestamps

The form of RFC 3339, read in two ways. The strict reader takes exactly its grammar, with four
digits of year. The relaxed reader is for the stored expiry of a token: numbers may have one digit,
the year may have a sign and any size, white space may stand before numbers and punctuation.

The written form is always UTC, with the fewest groups of three fraction digits that are exact and
a sign on the year where four digits do not hold it. It is made so that the relaxed reader takes it
back.
-/

namespace MailRules.Calendar.Timestamp

open MailRules.Text

/-- The letter, or the blank, between a date and a time. -/
def separator? : List Char → Option (List Char)
  | 'T' :: rest | 't' :: rest | ' ' :: rest => some rest
  | _ => none

/-! ## Strict -/

def offsetForm : OffsetForm := ⟨.colon, true, true⟩

def read? (s : List Char) : Option Reading := do
  let (year, s) ← digits? 4 4 s
  let s ← literal? '-' s
  let (month, s) ← digits? 2 2 s
  let s ← literal? '-' s
  let (day, s) ← digits? 2 2 s
  let s ← separator? s
  let (hour, s) ← digits? 2 2 s
  let s ← literal? ':' s
  let (minute, s) ← digits? 2 2 s
  let s ← literal? ':' s
  let (second, s) ← digits? 2 2 s
  let (nanos, s) ← fraction? s
  let (offset, s) ← offsetForm.read? s
  if s.isEmpty then
    some { year, month, day, hour, minute, second, nanos, offset := some offset }
  else none

/-! ## Relaxed -/

/-- The offset of a relaxed timestamp; `UTC` in any case stands for itself. -/
def relaxedOffset? (s : List Char) : Option (Int × List Char) :=
  if (s.take 3).map Char.toLower = ['u', 't', 'c'] then some (0, s.drop 3)
  else OffsetForm.read? ⟨.colonsOrWhite, true, true⟩ s

def relaxed? (s : List Char) : Option Reading := do
  let date : Pattern := [.year, .blank, .literal '-', .month, .blank, .literal '-', .day]
  let time : Pattern := [.hour, .blank, .literal ':', .minute, .blank, .literal ':', .second]
  let (r, s) ← date.fill? {} s
  let s ← separator? s
  let (r, s) ← time.fill? r s
  let (nanos, s) ← fraction? s
  let (offset, s) ← relaxedOffset? (trimStart s)
  if (trimStart s).isEmpty then some { r with nanos, offset := some offset } else none

/-! ## Written -/

/-- A year of four digits, with a sign if it is outside 0 to 9999. -/
def writtenYear (year : Int) : List Char :=
  if year < 0 then '-' :: padded 4 year.natAbs
  else if 9999 < year then '+' :: padded 4 year.natAbs
  else padded 4 year.natAbs

/-- Zero, three, six or nine digits, the fewest that are exact. -/
def writtenFraction (nanos : Nat) : List Char :=
  if nanos = 0 then []
  else if nanos % 1000000 = 0 then '.' :: padded 3 (nanos / 1000000)
  else if nanos % 1000 = 0 then '.' :: padded 6 (nanos / 1000)
  else '.' :: padded 9 nanos

def write (t : Instant) : List Char :=
  let date := Date.ofDayNumber (t.secs / secondsPerDay)
  let secondOfDay := (t.secs % secondsPerDay).toNat
  let second := secondOfDay % 60 + (if t.isLeapSecond then 1 else 0)
  writtenYear date.year ++ '-' :: padded 2 date.month ++ '-' :: padded 2 date.day ++
    'T' :: padded 2 (secondOfDay / 3600) ++ ':' :: padded 2 (secondOfDay / 60 % 60) ++
    ':' :: padded 2 second ++ writtenFraction (t.nanos % nanosPerSecond) ++ ['Z']

/-- The instant of a relaxed timestamp. -/
def instant? (s : List Char) : Option Instant := (relaxed? s).bind Reading.instant?

end MailRules.Calendar.Timestamp
