import Mathlib
import MailRules.Proofs.Json.Token

/-!
# The grammar of JSON

Which characters are a JSON text, and of which tree, said without any reader. A tree keeps its texts
and numbers as they are written, so that being well formed and meaning something stay apart: a text
between quotes may hold half of a surrogate pair and be well formed, and a number may be too large
for any type. What a text means is a relation of its own (`Means`), for those who want to know.

There is no bound on nesting, no order of reading and no first trouble here. Blanks may stand around
every value and around every key.
-/

namespace MailRules.Json

open MailRules.Text

/-! ## Texts -/

/-- A hexadecimal digit, in either case, and its value. -/
def Hexadecimal (c : Char) (n : ℕ) : Prop :=
  n < 16 ∧ (c = Nat.digitChar n ∨ c = (Nat.digitChar n).toUpper)

/-- Four hexadecimal digits and the UTF-16 unit that they write. -/
inductive WritesUnit : List Char → ℕ → Prop
  | mk {a b c d : Char} {i j k l : ℕ} (ha : Hexadecimal a i) (hb : Hexadecimal b j)
      (hc : Hexadecimal c k) (hd : Hexadecimal d l) :
      WritesUnit [a, b, c, d] (4096 * i + 256 * j + 16 * k + l)

/-- The letters that may follow a backslash, with the characters they stand for. -/
def escapes : List (Char × Char) :=
  [('"', '"'), ('\\', '\\'), ('/', '/'), ('b', '\x08'), ('f', '\x0C'), ('n', '\n'), ('r', '\r'),
    ('t', '\t')]

/-- The character stands for itself between quotes. -/
def Plain (c : Char) : Prop := c ≠ '"' ∧ c ≠ '\\' ∧ 0x20 ≤ c.toNat

/-- One element of what stands between quotes. -/
inductive WritesElement : List Char → Element → Prop
  | plain {c : Char} (self : Plain c) : WritesElement [c] (.char c)
  | escape {c d : Char} (letter : (c, d) ∈ escapes) : WritesElement ['\\', c] (.char d)
  | unit {ds : List Char} {n : ℕ} (digits : WritesUnit ds n) :
      WritesElement ('\\' :: 'u' :: ds) (.unit n)

/-- What stands between quotes is a row of elements. -/
inductive WritesElements : List Char → List Element → Prop
  | nil : WritesElements [] []
  | cons {s t : List Char} {e : Element} {es : List Element} (first : WritesElement s e)
      (rest : WritesElements t es) : WritesElements (s ++ t) (e :: es)

/-- The characters that elements stand for. Of surrogates only whole pairs stand for one. -/
inductive StandFor : List Element → List Char → Prop
  | nil : StandFor [] []
  | char {c : Char} {es : List Element} {cs : List Char} (rest : StandFor es cs) :
      StandFor (.char c :: es) (c :: cs)
  | unit {c : Char} {es : List Element} {cs : List Char} (rest : StandFor es cs) :
      StandFor (.unit c.toNat :: es) (c :: cs)
  | pair {high low : ℕ} {c : Char} {es : List Element} {cs : List Char}
      (first : 0xD800 ≤ high ∧ high < 0xDC00) (second : 0xDC00 ≤ low ∧ low < 0xE000)
      (both : c.toNat = 0x10000 + 1024 * (high - 0xD800) + (low - 0xDC00))
      (rest : StandFor es cs) : StandFor (.unit high :: .unit low :: es) (c :: cs)

/-- The text may stand between quotes. -/
def Quotable (s : List Char) : Prop := ∃ es, WritesElements s es

/-- What stands between quotes means this text. -/
def Means (s : List Char) (text : String) : Prop :=
  ∃ es, WritesElements s es ∧ StandFor es text.toList

def quoted (s : List Char) : List Char := '"' :: (s ++ ['"'])

/-! ## Numbers -/

/-- A point with digits after it, or nothing. -/
def Fraction (s : List Char) : Prop := s = [] ∨ ∃ ds, s = '.' :: ds ∧ Digits ds ∧ ds ≠ []

/-- An exponent of ten with its sign, if it has one, or nothing. -/
def Exponent (s : List Char) : Prop :=
  s = [] ∨ ∃ mark sign ds, s = mark :: (sign ++ ds) ∧ (mark = 'e' ∨ mark = 'E') ∧
    (sign = [] ∨ sign = ['+'] ∨ sign = ['-']) ∧ Digits ds ∧ ds ≠ []

/-- A number as it may be written. -/
inductive Numeral : List Char → Prop
  | mk {sign whole fraction exponent : List Char} (hsign : sign = [] ∨ sign = ['-'])
      (hwhole : Whole whole) (hfraction : Fraction fraction) (hexponent : Exponent exponent) :
      Numeral (sign ++ whole ++ fraction ++ exponent)

theorem Numeral.ne_nil {s : List Char} (h : Numeral s) : s ≠ [] := by
  obtain ⟨-, ⟨-, hwhole, -⟩, -, -⟩ := h
  simp [hwhole]

/-! ## Documents -/

def Word.letters : Word → List Char
  | .null => ['n', 'u', 'l', 'l']
  | .yes => ['t', 'r', 'u', 'e']
  | .no => ['f', 'a', 'l', 's', 'e']

/-- A JSON text as a tree. Numbers are kept as they are written, and so is what stands between the
quotes of texts and keys. -/
inductive Tree
  | word (w : Word)
  | number (numeral : List Char)
  | text (inside : List Char)
  | array (items : List Tree)
  | object (members : List (List Char × Tree))

/-- Nothing but blanks. -/
def Blanks (w : List Char) : Prop := ∀ c ∈ w, c = ' ' ∨ c = '\t' ∨ c = '\n' ∨ c = '\r'

theorem blanks_nil : Blanks [] := by simp [Blanks]

/-- A member of an object as it is written: what stands between the quotes of its key, the blanks
around the key, and the text of its value. -/
structure Entry where
  before : List Char
  key : List Char
  after : List Char
  value : List Char

def Entry.text (e : Entry) : List Char := e.before ++ quoted e.key ++ e.after ++ ':' :: e.value

/-- The key is one, and nothing else stands before the colon. -/
structure Entry.Keyed (e : Entry) : Prop where
  before : Blanks e.before
  key : Quotable e.key
  after : Blanks e.after

/-- The text is a JSON text of the tree. -/
inductive Writes : List Char → Tree → Prop
  | blanks {v s w : List Char} {t : Tree} (before : Blanks v) (value : Writes s t)
      (after : Blanks w) : Writes (v ++ s ++ w) t
  | word (w : Word) : Writes w.letters (.word w)
  | number {s : List Char} (numeral : Numeral s) : Writes s (.number s)
  | text {s : List Char} (inside : Quotable s) : Writes (quoted s) (.text s)
  | emptyArray {w : List Char} (between : Blanks w) : Writes ('[' :: w ++ [']']) (.array [])
  | array {items : List (List Char × Tree)} (nonempty : items ≠ [])
      (each : ∀ i ∈ items, Writes i.1 i.2) :
      Writes ('[' :: [','].intercalate (items.map Prod.fst) ++ [']'])
        (.array (items.map Prod.snd))
  | emptyObject {w : List Char} (between : Blanks w) : Writes ('{' :: w ++ ['}']) (.object [])
  | object {members : List (Entry × Tree)} (nonempty : members ≠ [])
      (keys : ∀ m ∈ members, m.1.Keyed) (each : ∀ m ∈ members, Writes m.1.value m.2) :
      Writes ('{' :: [','].intercalate (members.map fun m ↦ m.1.text) ++ ['}'])
        (.object (members.map fun m ↦ (m.1.key, m.2)))

end MailRules.Json
