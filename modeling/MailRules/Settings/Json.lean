import MailRules.Json.Document
import MailRules.Settings.Value

/-!
# Settings in JSON

A JSON document holds settings if its root is an object. Every value in it has to be sound, asked
for or not, and brackets nest only so deep. An integer with more than 63 bits is a double.

A number with a fraction or an exponent is the product, or the quotient, of its significand and a
power of ten, each of them a double; the result is rounded once more. It may differ in its last bit
from the double nearest to the number.
-/

namespace MailRules

open Json (Node Number Trouble)

/-! ## Numbers -/

namespace Magnitude

/-- The double nearest to a natural number that is not too large for one. -/
def ofNat (n : Nat) : Magnitude := (nearest? n 1).getD zero

/-- Divides by a power of ten, in steps where the power itself is no double. -/
def shrink (x : Magnitude) (places : Nat) : Magnitude :=
  if places ≤ 308 then (x.over? (ofNat (Nat.pow 10 places))).getD zero
  else if x.significand = 0 then zero
  else shrink ((x.over? (ofNat (Nat.pow 10 308))).getD zero) (places - 308)
termination_by places

/-- The significand times the power of ten. -/
def scaled? (significand : Nat) (power : Int) : Option Magnitude :=
  if power < 0 then some (shrink (ofNat significand) power.natAbs)
  else if significand = 0 then some zero
  else if 308 < power then none
  else (ofNat significand).times? (ofNat (Nat.pow 10 power.toNat))

end Magnitude

namespace Setting

def ofNumber : Number → Setting
  | .natural n =>
    if n < Nat.pow 2 63 then .integer n else .float (.finite false (Magnitude.ofNat n))
  | .negative n => .integer (-n)
  | .scaled negative significand power =>
    .float (.ofMagnitude negative (Magnitude.scaled? significand power))

/-! ## Values -/

/-- The setting in a node with at most so many brackets around anything in it. -/
def ofNode? : Nat → Node → Option Setting
  | _, .word ⟨.ok .null, _⟩ => some .null
  | _, .word ⟨.ok .yes, _⟩ => some (.bool true)
  | _, .word ⟨.ok .no, _⟩ => some (.bool false)
  | _, .number ⟨.ok n, _⟩ => some (ofNumber n)
  | _, .text ⟨.ok s, _⟩ => some (.text s)
  | depth + 1, .array nodes .closed => (nodes.mapM (ofNode? depth)).map .list
  | depth + 1, .object members .closed => do
    let es ← members.mapM fun (key, node) ↦ do
      let key ← key.kept.toOption
      let v ← ofNode? depth node
      some (key, v)
    some (.table (es.foldl (fun es (key, v) ↦ assign key v es) []))
  | _, _ => none

/-- Brackets deeper than this are not read. -/
def jsonDepth : Nat := 127

/-- The object at the root of a JSON document. -/
def ofJson? (s : List Char) : Option (List (String × Setting)) :=
  let d := Json.Document.read (Text.glyphs s)
  match d.trailing, ofNode? jsonDepth d.root with
  | false, some (.table es) => some es
  | _, _ => none

end Setting

end MailRules
