import MailRules.Http.Percent
import MailRules.Http.Punycode
import MailRules.Text.Numeral
import MailRules.Text.Basic
import MailRules.Text.Utf8

/-!
# Hosts

A host is a domain name or a network address, and each has one written form: names in lower case
and in ASCII, addresses of four bytes as four decimal numbers, longer addresses as groups of
hexadecimal digits with the longest run of zeros left out. A name whose last label is a number is
an address or nothing.
-/

namespace MailRules.Http.Host

open MailRules.Text

/-! ## Addresses of four bytes -/

/-- A number in decimal, octal or hexadecimal digits, told apart by how it begins. -/
def number? (s : List Char) : Option Nat :=
  match s with
  | [] => none
  | '0' :: 'x' :: ds | '0' :: 'X' :: ds =>
    ds.foldlM (fun n c ↦ (hexValue? c).map (16 * n + ·)) 0
  | '0' :: ds => if ds.all fun c ↦ '0' ≤ c ∧ c ≤ '7' then some (base 8 ds) else none
  | ds => if ds.all isDigit then some (base 10 ds) else none
where
  base (b : Nat) (ds : List Char) : Nat := ds.foldl (fun n c ↦ b * n + digitValue c) 0

/-- The labels of a name; a point at its end counts for nothing. -/
def labels (name : List Char) : List (List Char) :=
  let parts := splitOn '.' name
  if parts.getLast? = some [] ∧ 1 < parts.length then parts.dropLast else parts

def endsInNumber (name : List Char) : Bool :=
  match (labels name).getLast? with
  | some last => (!last.isEmpty && last.all isDigit) || (number? last).isSome
  | none => false

/-- The value of an address of up to four numbers; the last one fills the bytes that are left. -/
def fourBytes? (name : List Char) : Option Nat := do
  let numbers ← (labels name).mapM number?
  let last ← numbers.getLast?
  let front := numbers.dropLast
  if 4 < numbers.length ∨ front.any (255 < ·) ∨ Nat.pow 256 (5 - numbers.length) ≤ last then none
  else
    some (front.zipIdx.foldr (fun (n, i) total ↦ n * Nat.pow 256 (3 - i) + total) last)

def writtenFourBytes (n : Nat) : List Char :=
  let bytes := [n / Nat.pow 256 3, n / Nat.pow 256 2 % 256, n / 256 % 256, n % 256]
  joinWith '.' (bytes.map (Nat.toDigits 10))

/-! ## Longer addresses -/

/-- A group of one to four hexadecimal digits. -/
def group? (s : List Char) : Option Nat :=
  if s.isEmpty ∨ 4 < s.length then none
  else s.foldlM (fun n c ↦ (hexValue? c).map (16 * n + ·)) 0

/-- Two groups, written as an address of four bytes. -/
def fourByteGroups? (s : List Char) : Option (List Nat) := do
  let parts := splitOn '.' s
  if parts.length ≠ 4 then none
  let ns ← parts.mapM fun ds ↦
    if ds.isEmpty ∨ !ds.all isDigit ∨ (1 < ds.length ∧ ds.head? = some '0') ∨ 255 < decimal ds then
      none
    else some (decimal ds)
  match ns with
  | [a, b, c, d] => some [256 * a + b, 256 * c + d]
  | _ => none

/-- Groups between colons; the last part may be an address of four bytes. -/
def groups? (s : List Char) : Option (List Nat) :=
  if s.isEmpty then some []
  else
    let parts := splitOn ':' s
    match parts.getLast? with
    | none => none
    | some last => do
      let front ← parts.dropLast.mapM group?
      let tail ← if last.contains '.' then fourByteGroups? last else (group? last).map ([·])
      some (front ++ tail)

/-- Cuts at the first pair of colons. -/
def cutPair? : List Char → Option (List Char × List Char)
  | ':' :: ':' :: rest => some ([], rest)
  | c :: rest => (cutPair? rest).map fun (front, tail) ↦ (c :: front, tail)
  | [] => none

/-- The eight groups of an address; a pair of colons stands for groups of zeros. -/
def eightGroups? (s : List Char) : Option (List Nat) := do
  let gs ← match cutPair? s with
    | none => groups? s
    | some (front, tail) => do
      if front.contains '.' then none
      let front ← groups? front
      let tail ← groups? tail
      if 7 < front.length + tail.length then none
      some (front ++ List.replicate (8 - front.length - tail.length) 0 ++ tail)
  if gs.length = 8 then some gs else none

/-- The lengths of the runs of zeros that begin at each group. -/
def zeroRuns : List Nat → List Nat
  | [] => []
  | g :: gs =>
    let runs := zeroRuns gs
    (if g = 0 then runs.headD 0 + 1 else 0) :: runs

def writtenGroups (gs : List Nat) : List Char :=
  joinWith ':' (gs.map (Nat.toDigits 16))

def writtenEightGroups (gs : List Nat) : List Char :=
  let runs := zeroRuns gs
  let longest := runs.foldl max 0
  let place := runs.findIdx (· = longest)
  if longest < 2 then '[' :: writtenGroups gs ++ [']']
  else
    '[' :: writtenGroups (gs.take place) ++ ':' :: ':' ::
      writtenGroups (gs.drop (place + longest)) ++ [']']

/-! ## Names -/

/-- Characters that no name has. -/
def isForbidden (c : Char) : Bool :=
  c.toNat ≤ 0x20 || c.toNat = 0x7F || "#/:<>?@[\\]^|%".toList.contains c

def label (s : List Char) : List Char :=
  if s.all fun c ↦ c.toNat < 128 then s else "xn--".toList ++ Punycode.encode s

/-- The name with its escapes read, in lower case and in ASCII. -/
def name? (s : List Char) : Option (List Char) :=
  let cs := (replaced (Utf8.decode (bytes s))).map Char.toLower
  let name := joinWith '.' ((splitOn '.' cs).map label)
  if name.isEmpty ∨ name.any isForbidden then none else some name

/-- The written form of a host. -/
def normal? (s : List Char) : Option (List Char) :=
  match s with
  | '[' :: rest =>
    if rest.getLast? = some ']' then (eightGroups? rest.dropLast).map writtenEightGroups else none
  | s => do
    let name ← name? s
    if endsInNumber name then (fourBytes? name).map writtenFourBytes else some name

end MailRules.Http.Host
