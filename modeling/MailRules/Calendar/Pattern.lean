import MailRules.Calendar.Scan

/-!
# Dates by pattern

A pattern is a list of pieces, read in order; the text has to end with the last one. Numbers skip
the white space before them and take as many digits as their width allows, names and literals skip
nothing, and a blank in a pattern stands for any white space, also none. So a pattern accepts more
than what it looks like: `10Jun2024` has no blank where the pattern has two.

The year takes up to four digits, or any number of them after an explicit sign.
-/

namespace MailRules.Calendar

open MailRules.Text

inductive Piece
  | year | month | day | hour | minute | second
  | monthName | weekdayName
  | offset
  | blank
  | literal (c : Char)
  deriving DecidableEq, Repr

namespace Piece

def offsetForm : OffsetForm := ⟨.colonsOrWhite, false, true⟩

/-- A year with its sign, or of at most four digits. -/
def signedYear? : List Char → Option (Int × List Char)
  | '-' :: rest => (numeral? rest).map fun (n, rest) ↦ (-(n : Int), rest)
  | '+' :: rest => (numeral? rest).map fun (n, rest) ↦ ((n : Int), rest)
  | s => (digits? 1 4 s).map fun (n, rest) ↦ ((n : Int), rest)

def twoDigits? (s : List Char) : Option (Nat × List Char) := digits? 1 2 (trimStart s)

def read? (piece : Piece) (r : Reading) (s : List Char) : Option (Reading × List Char) :=
  match piece with
  | .year => (signedYear? (trimStart s)).map fun (n, s) ↦ ({ r with year := n }, s)
  | .month => (twoDigits? s).map fun (n, s) ↦ ({ r with month := n }, s)
  | .day => (twoDigits? s).map fun (n, s) ↦ ({ r with day := n }, s)
  | .hour => (twoDigits? s).map fun (n, s) ↦ ({ r with hour := n }, s)
  | .minute => (twoDigits? s).map fun (n, s) ↦ ({ r with minute := n }, s)
  | .second => (twoDigits? s).map fun (n, s) ↦ ({ r with second := n }, s)
  | .monthName => (monthName? s).map fun (n, s) ↦ ({ r with month := n }, s)
  | .weekdayName => (weekdayName? s).map fun (n, s) ↦ ({ r with weekday := some n }, s)
  | .offset =>
    (offsetForm.read? (trimStart s)).map fun (n, s) ↦ ({ r with offset := some n }, s)
  | .blank => some (r, trimStart s)
  | .literal c => (literal? c s).map fun s ↦ (r, s)

end Piece

abbrev Pattern := List Piece

namespace Pattern

/-- Reads the pieces in turn, filling in the reading. -/
def fill? : Pattern → Reading → List Char → Option (Reading × List Char)
  | [], r, s => some (r, s)
  | piece :: pieces, r, s => do
    let (r, s) ← piece.read? r s
    fill? pieces r s

/-- The reading of a text that the pattern covers to its end. -/
def read? (pattern : Pattern) (s : List Char) : Option Reading :=
  match pattern.fill? {} s with
  | some (r, []) => some r
  | _ => none

/-! ## The patterns in use -/

/-- 2024-06-10 -/
def isoDate : Pattern := [.year, .literal '-', .month, .literal '-', .day]

/-- 10 Jun 2024 -/
def mailDate : Pattern := [.day, .blank, .monthName, .blank, .year]

/-- 09:30 -/
def shortTime : Pattern := [.hour, .literal ':', .minute]

/-- 09:30:00 -/
def fullTime : Pattern := shortTime ++ [.literal ':', .second]

/-- Dates with an offset, in the order in which they are tried. -/
def zoned : List Pattern :=
  [ isoDate ++ [.blank] ++ fullTime ++ [.blank, .offset],
    [.weekdayName, .literal ',', .blank] ++ mailDate ++ [.blank] ++ shortTime ++ [.blank, .offset],
    mailDate ++ [.blank] ++ shortTime ++ [.blank, .offset] ]

/-- Dates on the local clock, in the order in which they are tried; a date alone is midnight. -/
def zoneless : List Pattern :=
  [ isoDate ++ [.blank] ++ fullTime,
    isoDate ++ [.literal 'T'] ++ fullTime,
    isoDate ++ [.blank] ++ shortTime,
    mailDate ++ [.blank] ++ fullTime,
    isoDate ]

end Pattern

end MailRules.Calendar
