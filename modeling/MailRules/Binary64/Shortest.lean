import MailRules.Binary64.Basic

/-!
# The shortest decimal of a double

A double is written with the fewest digits that identify it: every real number in an interval around
the double rounds to it, and any decimal in that interval reads back as the double. The search goes
through the grids of one digit, two digits and so on. If a grid has a point in the interval at all,
one of the two grid points next to the double is in it, so two tests a grid are enough.

Decimals are always written out, without a power of ten, and a whole number without a point.
-/

namespace MailRules

namespace Magnitude

/-! ## The interval of a double -/

/-- Compares a decimal with a number of quarters of the unit in the last place of a double. -/
def compareQuarters (x : Magnitude) (digits : Nat) (power : Int) (quarters : Nat) : Ordering :=
  let e := x.exponent - 2
  compare (digits * Nat.pow 10 power.toNat * Nat.pow 2 (-e).toNat)
    (quarters * Nat.pow 2 e.toNat * Nat.pow 10 (-power).toNat)

/-- The double below is nearer than the double above. -/
def isNarrowBelow (x : Magnitude) : Bool :=
  x.significand == Nat.pow 2 52 && decide (leastExponent < x.exponent)

/-- The decimal reads back as the double: it is nearer to it than to its neighbours, or halfway and
the double is the even one. -/
def identifiedBy (x : Magnitude) (digits : Nat) (power : Int) : Bool :=
  let even := x.significand % 2 == 0
  let low := x.compareQuarters digits power (4 * x.significand - if x.isNarrowBelow then 1 else 2)
  let high := x.compareQuarters digits power (4 * x.significand + 2)
  (low == .gt || (even && low == .eq)) && (high == .lt || (even && high == .eq))

/-! ## The search -/

/-- The least power of ten above a positive double, as its exponent. -/
def decimalSize (x : Magnitude) : Int :=
  if x.den ≤ x.num then (Nat.toDigits 10 (x.num / x.den)).length
  else 1 - (Nat.toDigits 10 ((x.den - 1) / x.num)).length

/-- A decimal on the grid of a power of ten that identifies the double: the nearer one of its two
neighbours if both do, and the upper one if they are equally near. -/
def onGrid? (x : Magnitude) (power : Int) : Option (Nat × Int) :=
  let num := x.num * Nat.pow 10 (-power).toNat
  let den := x.den * Nat.pow 10 power.toNat
  let low := num / den
  match x.identifiedBy low power, x.identifiedBy (low + 1) power with
  | true, true => some (if 2 * (num % den) < den then low else low + 1, power)
  | true, false => some (low, power)
  | false, true => some (low + 1, power)
  | false, false => none

/-- All digits of a double. -/
def exactDecimal (x : Magnitude) : Nat × Int :=
  if 0 ≤ x.exponent then (x.num, 0) else (x.significand * Nat.pow 5 (-x.exponent).toNat, x.exponent)

/-- The shortest decimal that identifies a double. Seventeen digits are always enough. -/
def shortest (x : Magnitude) : Nat × Int :=
  if x.significand = 0 then (0, 0)
  else
    let size := x.decimalSize
    ((List.range 17).findSome? fun n ↦ x.onGrid? (size - (n + 1 : Nat))).getD x.exactDecimal

/-! ## Writing -/

/-- A decimal without an exponent and without zeros at the end of its fraction. -/
def positional (digits : Nat) (power : Int) : List Char :=
  let ds := Nat.toDigits 10 digits ++ List.replicate power.toNat '0'
  let places := (-power).toNat
  let ds := List.replicate (places + 1 - ds.length) '0' ++ ds
  let whole := ds.take (ds.length - places)
  let fraction := ((ds.drop (ds.length - places)).reverse.dropWhile (· == '0')).reverse
  if fraction.isEmpty then whole else whole ++ '.' :: fraction

def text (x : Magnitude) : List Char :=
  let (digits, power) := x.shortest
  positional digits power

end Magnitude

def Binary64.text : Binary64 → List Char
  | .finite negative x => if negative then '-' :: x.text else x.text
  | .infinite negative => if negative then "-inf".toList else "inf".toList
  | .nan => "NaN".toList

end MailRules
