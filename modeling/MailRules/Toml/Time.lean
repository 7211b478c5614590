import MailRules.Calendar.Date
import MailRules.Calendar.Scan

/-!
# Dates and times

A date, a time of day, or both with an offset or without. They are settings like any other and are
wanted as text, so reading one gives its text in one spelling: a `T` before the time, no zeros at
the end of a fraction of nine digits, `Z` or hours and minutes for the offset.
-/

namespace MailRules.Toml

open MailRules.Text
open MailRules.Calendar (Date literal? nanosOfDigits)

/-- Two digits between bounds. -/
def two? (lo hi : Nat) (s : List Char) : Option (Nat × List Char) := do
  let (n, s) ← digits? 2 2 s
  if lo ≤ n ∧ n ≤ hi then some (n, s) else none

def date? (s : List Char) : Option (List Char × List Char) := do
  let (year, s) ← digits? 4 4 s
  let s ← literal? '-' s
  let (month, s) ← digits? 2 2 s
  let s ← literal? '-' s
  let (day, s) ← digits? 2 2 s
  if (Date.mk year month day).Exists then
    some (padded 4 year ++ '-' :: padded 2 month ++ '-' :: padded 2 day, s)
  else none

/-- A fraction of a second. A point without a digit after it is none. -/
def secondFraction (s : List Char) : List Char × List Char :=
  match s with
  | '.' :: rest =>
    let ds := rest.takeWhile isDigit
    if ds.isEmpty then ([], s)
    else
      let nanos := nanosOfDigits ds
      let written := ((padded 9 nanos).reverse.dropWhile (· == '0')).reverse
      (if nanos = 0 then [] else '.' :: written, rest.drop ds.length)
  | s => ([], s)

/-- A time of day. The last minute of a day may have a sixtieth second, and so may any other. -/
def timeOfDay? (s : List Char) : Option (List Char × List Char) := do
  let (hour, s) ← two? 0 23 s
  let s ← literal? ':' s
  let (minute, s) ← two? 0 59 s
  let s ← literal? ':' s
  let (second, s) ← two? 0 60 s
  let (fraction, s) := secondFraction s
  some (padded 2 hour ++ ':' :: padded 2 minute ++ ':' :: padded 2 second ++ fraction, s)

/-- The offset of a date and time, if there is one. Its sign is that of the minutes it stands for,
so there is no negative zero. -/
def offset? (s : List Char) : Option (List Char × List Char) :=
  let signed (sign : Char) (s : List Char) : Option (List Char × List Char) := do
    let (hour, s) ← two? 0 23 s
    let s ← literal? ':' s
    let (minute, s) ← two? 0 59 s
    let sign := if hour = 0 ∧ minute = 0 then '+' else sign
    some (sign :: padded 2 hour ++ ':' :: padded 2 minute, s)
  match s with
  | 'Z' :: s | 'z' :: s => some (['Z'], s)
  | '+' :: s => signed '+' s
  | '-' :: s => signed '-' s
  | s => some ([], s)

/-- What follows a date: a separator and a time, or nothing that belongs to it. -/
def timeAfterDate? (s : List Char) : Option (List Char × List Char) :=
  match s with
  | 'T' :: rest | 't' :: rest | ' ' :: rest =>
    match timeOfDay? rest with
    | none => some ([], s)
    | some (time, rest) => (offset? rest).map fun (offset, rest) ↦ ('T' :: time ++ offset, rest)
  | s => some ([], s)

/-- A date, a time, or both. -/
def dateOrTime? (s : List Char) : Option (List Char × List Char) :=
  match date? s with
  | some (date, s) => (timeAfterDate? s).map fun (time, s) ↦ (date ++ time, s)
  | none => timeOfDay? s

end MailRules.Toml
