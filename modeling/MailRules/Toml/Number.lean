import MailRules.Toml.Layout
import MailRules.Binary64.Basic

/-!
# Numbers

Digits may be set apart by single underscores. A decimal whole part has no leading zero; a fraction,
an exponent and the digits of another base may. Integers have 64 bits and a sign. Everything else is
a double, and one that is too large is no number, unless it is negative: then it is the negative
infinity.
-/

namespace MailRules.Toml

open MailRules.Text

/-- At least one digit, and all that follow it. An underscore has to stand between two digits. -/
def digitGroups? (isDigit : Char → Bool) : List Char → Option (List Char × List Char)
  | [] => none
  | c :: s =>
    if !isDigit c then none
    else match s with
      | '_' :: s => (digitGroups? isDigit s).map fun (ds, s) ↦ (c :: ds, s)
      | d :: rest =>
        if isDigit d then (digitGroups? isDigit (d :: rest)).map fun (ds, s) ↦ (c :: ds, s)
        else some ([c], d :: rest)
      | [] => some ([c], [])

/-- A whole part. After a zero it is over. -/
def whole? : List Char → Option (List Char × List Char)
  | '0' :: s => some (['0'], s)
  | s => digitGroups? isDigit s

/-- Takes a sign off; true for minus. -/
def sign : List Char → Bool × List Char
  | '+' :: s => (false, s)
  | '-' :: s => (true, s)
  | s => (false, s)

/-! ## Integers -/

def fit64? (n : Int) : Option Int := if -Int.pow 2 63 ≤ n ∧ n < Int.pow 2 63 then some n else none

/-- Digits of a base below or equal to sixteen, from after the letter that names it. -/
def inBase? (base : Nat) (s : List Char) : Option (Int × List Char) := do
  let isDigit (c : Char) : Bool := ((hexDigit? c).map (decide <| · < base)).getD false
  let (ds, s) ← digitGroups? isDigit s
  let n : Nat := ds.foldl (fun n c ↦ base * n + (hexDigit? c).getD 0) 0
  let n ← fit64? n
  some (n, s)

def integer? : List Char → Option (Int × List Char)
  | '0' :: 'x' :: s => inBase? 16 s
  | '0' :: 'o' :: s => inBase? 8 s
  | '0' :: 'b' :: s => inBase? 2 s
  | s => do
    let (negative, s) := sign s
    let (ds, s) ← whole? s
    let n : Int := decimal ds
    let n ← fit64? (if negative then -n else n)
    some (n, s)

/-! ## Doubles -/

def exponent? : List Char → Option (Option Int × List Char)
  | 'e' :: s | 'E' :: s => do
    let (negative, s) := sign s
    let (ds, s) ← digitGroups? isDigit s
    let n : Int := decimal ds
    some (some (if negative then -n else n), s)
  | s => some (none, s)

/-- The digits of a fraction; none without a point. -/
def fraction? : List Char → Option (List Char × List Char)
  | '.' :: s => digitGroups? isDigit s
  | s => some ([], s)

/-- A number with a fraction, an exponent or both. -/
def decimalFloat? (negative : Bool) (s : List Char) : Option (Binary64 × List Char) := do
  let (whole, s) ← whole? s
  let (fraction, s) ← fraction? s
  let (exponent, s) ← exponent? s
  if fraction.isEmpty ∧ exponent.isNone then none
  else
    let power := exponent.getD 0 - (fraction.length : Int)
    match
      Binary64.ofMagnitude negative (Magnitude.ofDecimal? (decimal (whole ++ fraction)) power) with
    | .infinite false => none
    | x => some (x, s)

def float? (s : List Char) : Option (Binary64 × List Char) :=
  let (negative, s) := sign s
  match s with
  | 'i' :: 'n' :: 'f' :: s => some (.infinite negative, s)
  | 'n' :: 'a' :: 'n' :: s => some (.nan, s)
  | s => decimalFloat? negative s

end MailRules.Toml
