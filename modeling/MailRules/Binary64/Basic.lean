/-!
# Doubles

A setting may be a number with a fraction, and such a number is a double: a significand of at most
53 bits times a power of two. Signs are kept apart, so that nearly everything below is about
magnitudes and natural numbers.

Every operation has an exact result, a ratio of natural numbers, and rounds it once: to the nearest
double, and of two to the one with the even significand. A ratio that is nearer to the next power of
two after the largest double than to that double has no nearest double; what stands in its place
is for the caller to say.
-/

namespace MailRules

/-- A finite double without its sign: a significand below 2 ^ 53 times a power of two. -/
structure Magnitude where
  significand : Nat
  exponent : Int
  deriving DecidableEq, Repr

inductive Binary64
  | finite (negative : Bool) (x : Magnitude)
  | infinite (negative : Bool)
  | nan
  deriving DecidableEq, Repr

namespace Magnitude

/-- No double has a smaller exponent. -/
def leastExponent : Int := -1074

/-- No double in the form used here has a larger exponent. -/
def greatestExponent : Int := 971

def zero : Magnitude := ⟨0, leastExponent⟩

/-! ## The value as a ratio -/

def num (x : Magnitude) : Nat := x.significand * Nat.pow 2 x.exponent.toNat

def den (x : Magnitude) : Nat := Nat.pow 2 (-x.exponent).toNat

/-! ## Rounding -/

/-- The natural number nearest to a ratio; of two, the even one. -/
def halfEven (num den : Nat) : Nat :=
  let low := num / den
  let rest := num % den
  if den < 2 * rest ∨ (2 * rest = den ∧ low % 2 = 1) then low + 1 else low

/-- The exponent that gives a ratio a significand of 53 bits, if doubles have that exponent. -/
def exponentOf (num den : Nat) : Int :=
  let guess : Int := num.log2 - den.log2 - 52
  let fits : Bool := Nat.pow 2 52 * den * Nat.pow 2 guess.toNat ≤ num * Nat.pow 2 (-guess).toNat
  max leastExponent (if fits then guess else guess - 1)

/-- The double nearest to a ratio. -/
def nearest? (num den : Nat) : Option Magnitude :=
  if num = 0 then some zero
  else
    let exponent := exponentOf num den
    let significand := halfEven (num * Nat.pow 2 (-exponent).toNat) (den * Nat.pow 2 exponent.toNat)
    let x : Magnitude :=
      if significand = Nat.pow 2 53 then ⟨Nat.pow 2 52, exponent + 1⟩ else ⟨significand, exponent⟩
    if x.exponent ≤ greatestExponent then some x else none

def times? (x y : Magnitude) : Option Magnitude := nearest? (x.num * y.num) (x.den * y.den)

def over? (x y : Magnitude) : Option Magnitude := nearest? (x.num * y.den) (x.den * y.num)

/-- The double nearest to a decimal. One with very many or very few places is settled by its size,
before its power of ten is computed. -/
def ofDecimal? (digits : Nat) (power : Int) : Option Magnitude :=
  let size : Int := (Nat.toDigits 10 digits).length + power
  if digits = 0 ∨ size < -330 then some zero
  else if 330 < size then none
  else nearest? (digits * Nat.pow 10 power.toNat) (Nat.pow 10 (-power).toNat)

/-- The natural number nearest to a double; of two, the larger. -/
def rounded (x : Magnitude) : Nat := (2 * x.num + x.den) / (2 * x.den)

end Magnitude

namespace Binary64

def ofMagnitude (negative : Bool) : Option Magnitude → Binary64
  | some x => .finite negative x
  | none => .infinite negative

/-- The unsigned integer of 64 bits nearest to a double. What lies below all of them is zero, what
lies above is the largest, and what is no number is zero. -/
def toUnsigned64 : Binary64 → Nat
  | .finite false x => min x.rounded (Nat.pow 2 64 - 1)
  | .infinite false => Nat.pow 2 64 - 1
  | .finite true _ | .infinite true | .nan => 0

end Binary64

end MailRules
