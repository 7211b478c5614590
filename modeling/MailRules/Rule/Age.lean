import MailRules.Text.Basic
import MailRules.Text.Numeral

/-!
# Ages

An age is written as an amount and a unit. The unit is looked at first: a target that is not two
words, the second of them a known unit, is wrong in its unit, whatever its first word is. A month
is thirty days. Amounts have the limits of 64-bit integers, and days those of the longest span of
time that the calendar arithmetic takes.
-/

namespace MailRules.Age

open MailRules.Text

inductive Fault
  | unit | amount
  deriving DecidableEq, Repr

def daysPerMonth : Int := 30

/-- The most days a span may have: as many as there are in 2^63 - 1 milliseconds. -/
def maxDays : Int := 106751991167

/-- Days in one of the unit, if there is such a unit. -/
def unit? (word : List Char) : Option Int :=
  if word = "days".toList then some 1
  else if word = "months".toList then some daysPerMonth
  else none

/-- The number of days that a target means. -/
def days (target : String) : Except Fault Int :=
  let s := trim target.toList
  let amount := s.takeWhile fun c ↦ !isWhite c
  let unit := trimStart (s.drop amount.length)
  match unit? unit with
  | none => .error .unit
  | some daysPerUnit =>
    match signed64? amount with
    | none => .error .amount
    | some n =>
      let days := n * daysPerUnit
      if -Int.pow 2 63 ≤ days ∧ days < Int.pow 2 63 ∧ -maxDays ≤ days ∧ days ≤ maxDays then .ok days
      else .error .amount

/-- The age in seconds. -/
def seconds (target : String) : Except Fault Int := (86400 * ·) <$> days target

end MailRules.Age
