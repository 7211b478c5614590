import MailRules.Text.Basic
import MailRules.Text.Numeral
import MailRules.Calendar.LocalTime

/-!
# Pieces of a written date

The forms of dates are built from a few pieces: a literal, white space, a number of a given width,
a three-letter name, an offset. Each piece reads a front of the text and hands back the rest, so a
form is their composition in `Option`.

Offsets come in several spellings that differ only in what may stand between the hours and the
minutes and in which minus signs count; the record `OffsetForm` names these choices.
-/

namespace MailRules.Calendar

open MailRules.Text

/-! ## Literals and white space -/

def literal? (c : Char) : List Char → Option (List Char)
  | [] => none
  | d :: rest => if d = c then some rest else none

/-- White space that has to be there. -/
def gap? : List Char → Option (List Char)
  | [] => none
  | c :: rest => if isWhite c then some (trimStart rest) else none

/-! ## Names -/

def monthNames : List String :=
  ["jan", "feb", "mar", "apr", "may", "jun", "jul", "aug", "sep", "oct", "nov", "dec"]

def weekdayNames : List String := ["mon", "tue", "wed", "thu", "fri", "sat", "sun"]

/-- Reads one of the three-letter names in any case; gives its place in the list. -/
def name? (names : List String) : List Char → Option (Nat × List Char)
  | a :: b :: c :: rest => do
    let place ← names.findIdx? fun name ↦ name.toList == [a.toLower, b.toLower, c.toLower]
    some (place, rest)
  | _ => none

def monthName? (s : List Char) : Option (Nat × List Char) :=
  (name? monthNames s).map fun (place, rest) ↦ (place + 1, rest)

def weekdayName? (s : List Char) : Option (Nat × List Char) := name? weekdayNames s

/-! ## Fractions of a second -/

/-- Nanoseconds of the digits after a decimal point; those after the ninth are dropped. -/
def nanosOfDigits (ds : List Char) : Nat :=
  decimal (ds.take 9) * Nat.pow 10 (9 - (ds.take 9).length)

/-- A decimal point and at least one digit. Without a point the fraction is zero. -/
def fraction? : List Char → Option (Nat × List Char)
  | '.' :: rest =>
    let ds := rest.takeWhile isDigit
    if ds.isEmpty then none else some (nanosOfDigits ds, rest.drop ds.length)
  | s => some (0, s)

/-! ## Offsets -/

/-- What stands between the hours and the minutes of an offset. -/
inductive OffsetGap
  | nothing
  | colon
  /-- Any run of colons and white space, also none. -/
  | colonsOrWhite
  deriving DecidableEq, Repr

structure OffsetForm where
  between : OffsetGap
  /-- `Z` or `z` stands for UTC. -/
  zulu : Bool
  /-- U+2212 is a minus sign. -/
  minusSign : Bool
  deriving DecidableEq, Repr

def OffsetGap.skip? : OffsetGap → List Char → Option (List Char)
  | .nothing, s => some s
  | .colon, s => literal? ':' s
  | .colonsOrWhite, s => some (s.dropWhile fun c ↦ c == ':' || isWhite c)

def OffsetForm.sign? (form : OffsetForm) : List Char → Option (Int × List Char)
  | '+' :: rest => some (1, rest)
  | '-' :: rest => some (-1, rest)
  | '\u2212' :: rest => if form.minusSign then some (-1, rest) else none
  | _ => none

/-- An offset in seconds east of UTC: a sign, two digits of hours, two digits of minutes below
sixty. -/
def OffsetForm.read? (form : OffsetForm) (s : List Char) : Option (Int × List Char) :=
  match form.zulu, s with
  | true, 'Z' :: rest | true, 'z' :: rest => some (0, rest)
  | _, _ => do
    let (sign, s) ← form.sign? s
    let (hours, s) ← digits? 2 2 s
    let s ← form.between.skip? s
    let (minutes, s) ← digits? 2 2 s
    if minutes < 60 then some (sign * (3600 * hours + 60 * minutes : Nat), s) else none

end MailRules.Calendar
