import MailRules.Toml.Layout

/-!
# Texts

There are four kinds: with escapes or without, on one line or over several. A text is read piece by
piece, and each kind says what a piece of it is. Over several lines a line break at the very
beginning does not count, and the quotes at the end may have up to two more before them that belong
to the text.
-/

namespace MailRules.Toml

open MailRules.Text

/-- Some characters of a text, and whether the text ends with them. -/
structure Piece where
  chars : List Char
  last : Bool := false

/-- Reads pieces up to the last one, at most so many. -/
def piecesFrom (piece? : List Char → Option (Piece × List Char)) :
    Nat → List Char → Option (List Char × List Char)
  | 0, _ => none
  | n + 1, s => do
    let (piece, s) ← piece? s
    if piece.last then some (piece.chars, s)
    else
      let (more, s) ← piecesFrom piece? n s
      some (piece.chars ++ more, s)

/-- Reads a text whose pieces each have a character of their own. -/
def pieces? (piece? : List Char → Option (Piece × List Char)) (s : List Char) :
    Option (List Char × List Char) :=
  piecesFrom piece? (s.length + 1) s

/-! ## Escapes -/

/-- The character with a number of so many hexadecimal digits. -/
def charOfHex? (width : Nat) (s : List Char) : Option (Char × List Char) := do
  let ds ← (s.take width).mapM hexDigit?
  let n := ds.foldl (fun n d ↦ 16 * n + d) 0
  if ds.length = width ∧ n.isValidChar then some (Char.ofNat n, s.drop width) else none

/-- Reads what stands after a backslash. -/
def escape? : List Char → Option (Char × List Char)
  | 'b' :: s => some ('\x08', s)
  | 't' :: s => some ('\t', s)
  | 'n' :: s => some ('\n', s)
  | 'f' :: s => some ('\x0C', s)
  | 'r' :: s => some ('\r', s)
  | '"' :: s => some ('"', s)
  | '\\' :: s => some ('\\', s)
  | 'u' :: s => charOfHex? 4 s
  | 'U' :: s => charOfHex? 8 s
  | _ => none

/-! ## Pieces -/

def plain? : List Char → Option (Piece × List Char)
  | [] => none
  | c :: s => if isPlain c then some (⟨[c], false⟩, s) else none

def escaped? (s : List Char) : Option (Piece × List Char) :=
  (escape? s).map fun (c, s) ↦ (⟨[c], false⟩, s)

def lineOrPlain? (s : List Char) : Option (Piece × List Char) :=
  match newline? s with
  | some s => some (⟨['\n'], false⟩, s)
  | none => plain? s

/-- The end of a text over several lines, from after its first three quotes. -/
def closing (quote : Char) (s : List Char) : Piece × List Char :=
  let extra := (s.take 2).takeWhile (· == quote)
  (⟨extra, true⟩, s.drop extra.length)

def basicPiece? : List Char → Option (Piece × List Char)
  | '"' :: s => some (⟨[], true⟩, s)
  | '\\' :: s => escaped? s
  | s => plain? s

def literalPiece? : List Char → Option (Piece × List Char)
  | '\'' :: s => some (⟨[], true⟩, s)
  | s => plain? s

/-- A backslash at the end of a line takes the line break and all white space after it away. -/
def basicLinesPiece? : List Char → Option (Piece × List Char)
  | '"' :: '"' :: '"' :: s => some (closing '"' s)
  | '\\' :: s =>
    match newline? (skipBlank s) with
    | some s => some (⟨[], false⟩, skipWhite s)
    | none => escaped? s
  | s => lineOrPlain? s

def literalLinesPiece? : List Char → Option (Piece × List Char)
  | '\'' :: '\'' :: '\'' :: s => some (closing '\'' s)
  | s => lineOrPlain? s

/-! ## Whole texts -/

def afterNewline (s : List Char) : List Char := (newline? s).getD s

/-- A text on one line. -/
def lineText? : List Char → Option (List Char × List Char)
  | '"' :: s => pieces? basicPiece? s
  | '\'' :: s => pieces? literalPiece? s
  | _ => none

def text? : List Char → Option (List Char × List Char)
  | '"' :: '"' :: '"' :: s => pieces? basicLinesPiece? (afterNewline s)
  | '\'' :: '\'' :: '\'' :: s => pieces? literalLinesPiece? (afterNewline s)
  | s => lineText? s

/-! ## Keys -/

def isKeyChar (c : Char) : Bool := c.isAlphanum || c == '_' || c == '-'

def bareKey? (s : List Char) : Option (List Char × List Char) :=
  let key := s.takeWhile isKeyChar
  if key.isEmpty then none else some (key, s.drop key.length)

/-- Keys with points between them, at most so many. -/
def keysFrom : Nat → List Char → Option (List String × List Char)
  | 0, _ => none
  | n + 1, s => do
    let s := skipBlank s
    let (key, s) ← if s.head? = some '"' ∨ s.head? = some '\'' then lineText? s else bareKey? s
    match skipBlank s with
    | '.' :: s => do
      let (keys, s) ← keysFrom n s
      some (String.ofList key :: keys, s)
    | s => some ([String.ofList key], s)

/-- Nothing nests deeper than this: brackets in a value, or the keys of a path. -/
def nestingLimit : Nat := 79

/-- A path of keys, with the blanks around it. -/
def keys? (s : List Char) : Option (List String × List Char) := keysFrom nestingLimit s

end MailRules.Toml
