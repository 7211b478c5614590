import MailRules.Binary64.Shortest
import MailRules.Text.Numeral
import MailRules.Text.Basic

/-!
# Settings as they stand in a file

A settings file is a tree of tables with scalars at its leaves. Which scalar was written matters
little: a program that asks for a text also takes a number, a date or a truth value, and one that
asks for a number takes a text that spells it. What it never takes is nothing, a list or a table.

The names in a table differ by more than their case. Where two names are the same, tables are merged
and everything else is replaced.
-/

namespace MailRules

inductive Setting
  | null
  | bool (b : Bool)
  | integer (n : Int)
  | float (x : Binary64)
  | text (s : String)
  | list (items : List Setting)
  | table (entries : List (String × Setting))
  deriving Repr, Inhabited

namespace Setting

/-! ## Scalars -/

def integerText (n : Int) : List Char :=
  if n < 0 then '-' :: Nat.toDigits 10 n.natAbs else Nat.toDigits 10 n.natAbs

def asText? : Setting → Option String
  | .bool b => some (if b then "true" else "false")
  | .integer n => some (String.ofList (integerText n))
  | .float x => some (String.ofList x.text)
  | .text s => some s
  | .null | .list _ | .table _ => none

/-- A text that stands for an unsigned integer: a word for yes or no, or digits. -/
def unsignedOfText? (s : String) : Option Nat :=
  let word := s.map Char.toLower
  if ["true", "on", "yes"].contains word then some 1
  else if ["false", "off", "no"].contains word then some 0
  else (Text.unsigned64 s.toList).toOption

/-- An unsigned integer of 64 bits. -/
def asUnsigned? : Setting → Option Nat
  | .bool b => some (if b then 1 else 0)
  | .integer n => if 0 ≤ n ∧ n < Int.pow 2 64 then some n.toNat else none
  | .float x => some x.toUnsigned64
  | .text s => unsignedOfText? s
  | .null | .list _ | .table _ => none

/-! ## Merging -/

/-- Gives a name its value, in the place where the name stands or at the end. -/
def assign (name : String) (value : Setting) : List (String × Setting) → List (String × Setting)
  | [] => [(name, value)]
  | (n, v) :: rest => if n = name then (name, value) :: rest else (n, v) :: assign name value rest

def entries : Setting → List (String × Setting)
  | .table es => es
  | _ => []

mutual

/-- A value over the one that stands in its place. A table is merged into it, and if there is
nothing to merge the old value stays. -/
def overlay (old : Option Setting) : Setting → Setting
  | .table [] => old.getD (.table [])
  | .table (e :: es) => .table (merge ((old.map entries).getD []) (e :: es))
  | value => value

/-- Merges entries into a table, with their names in lower case. -/
def merge (into : List (String × Setting)) : List (String × Setting) → List (String × Setting)
  | [] => into
  | (name, value) :: es =>
    let name := name.map Char.toLower
    merge (assign name (overlay (List.lookup name into) value) into) es

end

/-! ## Names with points -/

def isNameChar (c : Char) : Bool := c.isAlphanum || c == '_' || c == '-' || c == ' '

/-- A value as deep in tables as the points in its name say. A name with other characters in it is
taken as it is. -/
def unfold (name : String) (value : Setting) : String × Setting :=
  let parts := Text.splitOn '.' name.toList
  if parts.all fun part ↦ !part.isEmpty && part.all isNameChar then
    match parts with
    | [] | [_] => (name, value)
    | first :: rest =>
      (String.ofList first, rest.foldr (fun part v ↦ .table [(String.ofList part, v)]) value)
  else (name, value)

/-- The settings of a file from the table at its root. -/
def ofRoot (root : List (String × Setting)) : Setting :=
  .table (merge [] (root.map fun (name, value) ↦ unfold name value))

/-! ## Sections -/

/-- The values of a section in the order of their names. A section is a table, or the list of its
values in that order. -/
def section? (names : List String) : Setting → Option (List (Option Setting))
  | .table es => some (names.map fun name ↦ List.lookup name es)
  | .list items => some ((List.range names.length).map fun i ↦ items[i]?)
  | _ => none

end Setting

end MailRules
