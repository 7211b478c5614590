import MailRules.Toml.Number
import MailRules.Toml.Table
import MailRules.Toml.Text
import MailRules.Toml.Time

/-!
# Values

A value starts with a character that says what it is, except that dates and numbers share theirs and
are told apart by what follows. Arrays may go over several lines and have a comma at the end; tables
in braces may not. Both count towards the depth to which values nest.
-/

namespace MailRules.Toml

def word? : List Char → Option (Setting × List Char)
  | 't' :: 'r' :: 'u' :: 'e' :: s => some (.bool true, s)
  | 'f' :: 'a' :: 'l' :: 's' :: 'e' :: s => some (.bool false, s)
  | _ => none

/-- A value without brackets. -/
def scalar? (s : List Char) : Option (Setting × List Char) :=
  ((text? s).map fun (t, s) ↦ (.text (String.ofList t), s)) <|>
    word? s <|>
    ((dateOrTime? s).map fun (t, s) ↦ (.text (String.ofList t), s)) <|>
    ((float? s).map fun (x, s) ↦ (.float x, s)) <|>
    (integer? s).map fun (n, s) ↦ (.integer n, s)

/-- The items of an array from after its bracket, or from after a comma, at most so many. -/
def itemsFrom (value? : List Char → Option (Setting × List Char)) :
    Nat → List Char → Option (List Setting × List Char)
  | 0, _ => none
  | n + 1, s =>
    match skipLines s with
    | ']' :: s => some ([], s)
    | s => do
      let (v, s) ← value? s
      match skipLines s with
      | ']' :: s => some ([v], s)
      | ',' :: s => do
        let (vs, s) ← itemsFrom value? n s
        some (v :: vs, s)
      | _ => none

/-- A path of keys and the value after the equals sign. -/
def pair? (value? : List Char → Option (Setting × List Char)) (s : List Char) :
    Option ((List String × Setting) × List Char) := do
  let (path, s) ← keys? s
  match s with
  | '=' :: s => do
    let (v, s) ← value? (skipBlank s)
    some ((path, v), s)
  | _ => none

/-- The pairs between braces, at most so many. -/
def pairsFrom (value? : List Char → Option (Setting × List Char)) :
    Nat → List Char → Option (List (List String × Setting) × List Char)
  | 0, _ => none
  | n + 1, s => do
    let (pair, s) ← pair? value? s
    match skipBlank s with
    | '}' :: s => some ([pair], s)
    | ',' :: s => do
      let (pairs, s) ← pairsFrom value? n s
      some (pair :: pairs, s)
    | _ => none

def pairs? (value? : List Char → Option (Setting × List Char)) (s : List Char) :
    Option (List (List String × Setting) × List Char) :=
  match skipBlank s with
  | '}' :: s => some ([], s)
  | _ => pairsFrom value? s.length s

/-- A value with at most so many brackets around anything in it. -/
def valueWithin? : Nat → List Char → Option (Setting × List Char)
  | depth + 1, '[' :: s => do
    let (items, s) ← itemsFrom (valueWithin? depth) (s.length + 1) s
    some (.list items, s)
  | depth + 1, '{' :: s => do
    let (pairs, s) ← pairs? (valueWithin? depth) s
    let table ← tableOfPairs? pairs
    some (table, s)
  | _, s => scalar? s

def value? (s : List Char) : Option (Setting × List Char) := valueWithin? nestingLimit s

end MailRules.Toml
