/-!
# Escapes in addresses and forms

A character that may not stand for itself is written as the bytes of its UTF-8 form, each as a
percent sign and two hexadecimal digits. Which characters those are depends on the place: a path, a
query and a form have sets of their own, and a form writes a space as a plus sign.
-/

namespace MailRules.Http

def hexLetter (n : Nat) : Char := if n < 10 then Char.ofNat (48 + n) else Char.ofNat (55 + n)

def escapeByte (b : UInt8) : List Char :=
  ['%', hexLetter (b.toNat / 16), hexLetter (b.toNat % 16)]

def escapeChar (c : Char) : List Char := (String.utf8EncodeChar c).flatMap escapeByte

/-- Escapes the characters of a set. -/
def escape (escaped : Char → Bool) (s : List Char) : List Char :=
  s.flatMap fun c ↦ if escaped c then escapeChar c else [c]

/-! ## Sets -/

/-- Controls and all that is not ASCII. -/
def isOutsidePrintable (c : Char) : Bool := c.toNat < 0x20 || 0x7E < c.toNat

def inPathSet (c : Char) : Bool :=
  isOutsidePrintable c || " \"#<>?`\x7b\x7d".toList.contains c

def inQuerySet (c : Char) : Bool := isOutsidePrintable c || " \"#<>'".toList.contains c

/-! ## Forms -/

def formChar (c : Char) : List Char :=
  if c = ' ' then ['+']
  else if c.isAlphanum || "*-._".toList.contains c then [c]
  else escapeChar c

def formText (s : String) : List Char := s.toList.flatMap formChar

/-- Names and values, joined by `=` and `&`. -/
def form : List (String × String) → List Char
  | [] => []
  | [(name, value)] => formText name ++ '=' :: formText value
  | (name, value) :: more => formText name ++ '=' :: formText value ++ '&' :: form more

/-! ## Reading -/

def hexValue? (c : Char) : Option Nat :=
  if '0' ≤ c ∧ c ≤ '9' then some (c.toNat - 48)
  else if 'a' ≤ c ∧ c ≤ 'f' then some (c.toNat - 87)
  else if 'A' ≤ c ∧ c ≤ 'F' then some (c.toNat - 55)
  else none

/-- The bytes that a text with escapes stands for. A percent sign without two digits stands for
itself. -/
def bytes : List Char → List UInt8
  | [] => []
  | '%' :: a :: b :: rest =>
    match hexValue? a, hexValue? b with
    | some high, some low => UInt8.ofNat (16 * high + low) :: bytes rest
    | _, _ => 0x25 :: bytes (a :: b :: rest)
  | c :: rest => String.utf8EncodeChar c ++ bytes rest

end MailRules.Http
