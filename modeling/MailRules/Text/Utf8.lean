/-!
# Bytes as text

What a server sends is bytes. Where they are not UTF-8, readers differ: one puts U+FFFD for each
stretch that is no character, another only minds when the stretch is inside a text it keeps. So
bytes are decoded into glyphs, a glyph being a character or a stray stretch, and each reader
decides for itself. Text that is known to be text has no stray glyphs.

A stray stretch is as long as it can be while it is still the start of some character, which is
where the one replacement character per stretch comes from.
-/

namespace MailRules.Text

inductive Glyph
  | char (c : Char)
  /-- So many bytes that begin a character and do not end it, or that begin none. -/
  | stray (bytes : Nat)
  deriving DecidableEq, Repr

def glyphs (s : List Char) : List Glyph := s.map .char

/-- Bytes the glyph takes up. -/
def Glyph.size : Glyph → Nat
  | .char c => c.utf8Size
  | .stray bytes => bytes

/-- Bytes that glyphs take up together. -/
def Glyph.sizeOfAll (gs : List Glyph) : Nat := (gs.map size).foldr (· + ·) 0

/-- Characters where each stray stretch is replaced by U+FFFD. -/
def replaced (gs : List Glyph) : List Char :=
  gs.map fun
    | .char c => c
    | .stray _ => '\uFFFD'

/-- The text, if nothing in it is stray. -/
def allChars? (gs : List Glyph) : Option (List Char) :=
  gs.mapM fun
    | .char c => some c
    | .stray _ => none

namespace Utf8

/-- For a first byte: the bits it contributes, the range of its second byte, and the number of
bytes after it. -/
def lead? (b : Nat) : Option (Nat × (Nat × Nat) × Nat) :=
  if b < 0x80 then some (b, (0, 0), 0)
  else if b < 0xC2 then none
  else if b < 0xE0 then some (b % 0x20, (0x80, 0xBF), 1)
  else if b == 0xE0 then some (b % 0x10, (0xA0, 0xBF), 2)
  else if b == 0xED then some (b % 0x10, (0x80, 0x9F), 2)
  else if b < 0xF0 then some (b % 0x10, (0x80, 0xBF), 2)
  else if b == 0xF0 then some (b % 0x08, (0x90, 0xBF), 3)
  else if b < 0xF4 then some (b % 0x08, (0x80, 0xBF), 3)
  else if b == 0xF4 then some (b % 0x08, (0x80, 0x8F), 3)
  else none

/-- Adds `count` continuation bytes to the bits so far; `used` bytes are taken already. -/
def continuation (bits used : Nat) (range : Nat × Nat) : Nat → List UInt8 → Glyph × Nat
  | 0, _ => (.char (Char.ofNat bits), used)
  | _ + 1, [] => (.stray used, used)
  | count + 1, b :: rest =>
    if range.1 ≤ b.toNat && b.toNat ≤ range.2 then
      continuation (64 * bits + b.toNat % 64) (used + 1) (0x80, 0xBF) count rest
    else (.stray used, used)

/-- The first glyph and the number of bytes it takes after the first. -/
def first (b : UInt8) (rest : List UInt8) : Glyph × Nat :=
  match lead? b.toNat with
  | none => (.stray 1, 0)
  | some (bits, range, count) =>
    let (glyph, used) := continuation bits 1 range count rest
    (glyph, used - 1)

def decode : List UInt8 → List Glyph
  | [] => []
  | b :: rest =>
    let (glyph, more) := first b rest
    glyph :: decode (rest.drop more)
termination_by bytes => bytes.length

end Utf8

end MailRules.Text
