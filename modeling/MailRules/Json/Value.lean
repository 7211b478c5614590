/-!
# Values to be written

What the library writes is a small part of what it reads: a value has its members in the order in
which they are listed, and one spelling. There are two layouts, the compact one for requests and
the indented one for files; they differ in blanks only.
-/

namespace MailRules.Json

inductive Value
  | null
  | bool (b : Bool)
  | number (n : Int)
  | text (s : String)
  | array (items : List Value)
  | object (members : List (String × Value))
  deriving Repr, Inhabited

/-! ## Texts -/

def hexLetter (n : Nat) : Char := if n < 10 then Char.ofNat (48 + n) else Char.ofNat (87 + n)

/-- A character inside quotes. Controls have a short escape or four hexadecimal digits; everything
else but the quote and the backslash stands for itself. -/
def escape (c : Char) : List Char :=
  match c with
  | '"' => ['\\', '"']
  | '\\' => ['\\', '\\']
  | '\x08' => ['\\', 'b']
  | '\x0C' => ['\\', 'f']
  | '\n' => ['\\', 'n']
  | '\r' => ['\\', 'r']
  | '\t' => ['\\', 't']
  | c =>
    if c.toNat < 0x20 then
      ['\\', 'u', '0', '0', hexLetter (c.toNat / 16), hexLetter (c.toNat % 16)]
    else [c]

def quote (s : String) : List Char := '"' :: s.toList.flatMap escape ++ ['"']

def writtenInt (n : Int) : List Char :=
  if n < 0 then '-' :: Nat.toDigits 10 n.natAbs else Nat.toDigits 10 n.natAbs

/-! ## Layouts -/

namespace Value

mutual

def compact : Value → List Char
  | .null => "null".toList
  | .bool true => "true".toList
  | .bool false => "false".toList
  | .number n => writtenInt n
  | .text s => quote s
  | .array [] => ['[', ']']
  | .array (v :: vs) => '[' :: compact v ++ compactItems vs
  | .object [] => ['{', '}']
  | .object ((k, v) :: ms) => '{' :: quote k ++ ':' :: compact v ++ compactMembers ms

/-- The items after the first, and the closing bracket. -/
def compactItems : List Value → List Char
  | [] => [']']
  | v :: vs => ',' :: compact v ++ compactItems vs

/-- The members after the first, and the closing brace. -/
def compactMembers : List (String × Value) → List Char
  | [] => ['}']
  | (k, v) :: ms => ',' :: quote k ++ ':' :: compact v ++ compactMembers ms

end

/-- A new line, indented by two blanks a level. -/
def newLine (level : Nat) : List Char := '\n' :: List.replicate (2 * level) ' '

mutual

/-- The indented layout of a value that stands at a level. -/
def indented (level : Nat) : Value → List Char
  | .array (v :: vs) =>
    '[' :: newLine (level + 1) ++ indented (level + 1) v ++ indentedItems level vs
  | .object ((k, v) :: ms) =>
    '{' :: newLine (level + 1) ++ quote k ++ ':' :: ' ' :: indented (level + 1) v ++
      indentedMembers level ms
  | .null => "null".toList
  | .bool true => "true".toList
  | .bool false => "false".toList
  | .number n => writtenInt n
  | .text s => quote s
  | .array [] => ['[', ']']
  | .object [] => ['{', '}']

/-- The items after the first, and the closing bracket on its own line. -/
def indentedItems (level : Nat) : List Value → List Char
  | [] => newLine level ++ [']']
  | v :: vs =>
    ',' :: newLine (level + 1) ++ indented (level + 1) v ++ indentedItems level vs

/-- The members after the first, and the closing brace on its own line. -/
def indentedMembers (level : Nat) : List (String × Value) → List Char
  | [] => newLine level ++ ['}']
  | (k, v) :: ms =>
    ',' :: newLine (level + 1) ++ quote k ++ ':' :: ' ' :: indented (level + 1) v ++
      indentedMembers level ms

end

def compactText (v : Value) : String := String.ofList v.compact

def indentedText (v : Value) : String := String.ofList (v.indented 0)

end Value

end MailRules.Json
