/-!
# Numerals in ASCII digits

Every number the rules, the dates and the settings hold is written in ASCII digits; other decimal
digits of Unicode are no numerals here. Values are unbounded: the limit of a field (64 bits, four
digits, two digits) is part of the field and is checked where the field is read.
-/

namespace MailRules.Text

def isDigit (c : Char) : Bool := '0' ≤ c && c ≤ '9'

def digitValue (c : Char) : Nat := c.toNat - '0'.toNat

/-- The value of a row of digits, most significant first. -/
def decimal (ds : List Char) : Nat := ds.foldl (fun n c ↦ 10 * n + digitValue c) 0

/-- Reads at least `lo` and at most `hi` leading digits, as many as there are. -/
def digits? (lo hi : Nat) (s : List Char) : Option (Nat × List Char) :=
  let ds := (s.take hi).takeWhile isDigit
  if ds.length < lo then none else some (decimal ds, s.drop ds.length)

/-- Reads at least one leading digit and all that follow it. -/
def numeral? (s : List Char) : Option (Nat × List Char) :=
  let ds := s.takeWhile isDigit
  if ds.isEmpty then none else some (decimal ds, s.drop ds.length)

/-- The value in decimal, with leading zeros up to a width. -/
def padded (width n : Nat) : List Char :=
  let ds := Nat.toDigits 10 n
  List.replicate (width - ds.length) '0' ++ ds

/-- The value of a hexadecimal digit, in either case. -/
def hexDigit? (c : Char) : Option Nat :=
  if '0' ≤ c && c ≤ '9' then some (c.toNat - '0'.toNat)
  else if 'a' ≤ c && c ≤ 'f' then some (c.toNat - 'a'.toNat + 10)
  else if 'A' ≤ c && c ≤ 'F' then some (c.toNat - 'A'.toNat + 10)
  else none

/-! ## Whole texts -/

inductive IntegerFault
  | empty
  | notADigit
  | tooLarge
  deriving DecidableEq, Repr

def IntegerFault.message : IntegerFault → String
  | .empty => "cannot parse integer from empty string"
  | .notADigit => "invalid digit found in string"
  | .tooLarge => "number too large to fit in target type"

/-- An unsigned integer of 64 bits: digits, with at most one leading `+`. The digits are taken one
by one, so a value that has grown too large is reported before a later character that is no
digit. -/
def unsigned64 (s : List Char) : Except IntegerFault Nat :=
  if s.isEmpty then .error .empty
  else
    let ds := match s with
      | '+' :: ds => ds
      | ds => ds
    if Nat.pow 2 64 ≤ decimal (ds.takeWhile isDigit) then .error .tooLarge
    else if ds.isEmpty || !ds.all isDigit then .error .notADigit
    else .ok (decimal ds)

/-- A signed integer of 64 bits: digits with at most one leading sign. -/
def signed64? (s : List Char) : Option Int :=
  let (negative, ds) := match s with
    | '+' :: ds => (false, ds)
    | '-' :: ds => (true, ds)
    | ds => (false, ds)
  if ds.isEmpty || !ds.all isDigit then none
  else
    let n : Int := if negative then -(decimal ds : Int) else decimal ds
    if -Int.pow 2 63 ≤ n ∧ n < Int.pow 2 63 then some n else none

end MailRules.Text
