import MailRules.Text.Numeral

/-!
# Blanks, comments and lines

Between the tokens of a line stand blanks, and a comment may end it. Arrays also take line breaks
wherever blanks may stand. A line ends with a line feed, with a carriage return before it or
without; a carriage return alone ends nothing and may stand nowhere.
-/

namespace MailRules.Toml

def isBlank (c : Char) : Bool := c == ' ' || c == '\t'

/-- A character that may stand in a comment or a text: no control other than the tab. -/
def isPlain (c : Char) : Bool := c == '\t' || (0x20 ≤ c.toNat && c.toNat != 0x7F)

def skipBlank (s : List Char) : List Char := s.dropWhile isBlank

def newline? : List Char → Option (List Char)
  | '\n' :: s => some s
  | '\r' :: '\n' :: s => some s
  | _ => none

def skipComment : List Char → List Char
  | '#' :: s => s.dropWhile isPlain
  | s => s

/-- The end of a line, or of the text, after blanks and a comment. -/
def lineEnd? (s : List Char) : Option (List Char) :=
  match skipComment (skipBlank s) with
  | [] => some []
  | s => newline? s

/-- Skips lines, at most so many. -/
def skipping (line : List Char → Option (List Char)) : Nat → List Char → List Char
  | 0, s => s
  | n + 1, s =>
    match line s with
    | some rest => skipping line n rest
    | none => s

/-- Skips blanks, line breaks and the comments before them. -/
def skipLines (s : List Char) : List Char :=
  skipBlank (skipping (fun s ↦ newline? (skipComment (skipBlank s))) s.length s)

/-- Skips blanks and line breaks. -/
def skipWhite (s : List Char) : List Char :=
  skipBlank (skipping (fun s ↦ newline? (skipBlank s)) s.length s)

end MailRules.Toml
