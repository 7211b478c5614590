import MailRules.Http.Host

/-!
# Addresses on the web

An address is read the way browsers read one: blanks around it and line ends in it count for
nothing, a backslash is a slash, and what may not stand for itself is escaped. Steps up and down
the path are taken while it is read, so a path never holds a step. What follows a number sign is
for the reader of a page and is not part of what is asked for.

Only addresses of web servers are read. Others, and texts without a scheme, are none.
-/

namespace MailRules.Http

open MailRules.Text

structure Url where
  secure : Bool
  host : List Char
  /-- The port, if it is not the usual one of the scheme. -/
  port : Option Nat
  path : List Char
  query : Option (List Char)
  deriving DecidableEq, Repr

namespace Url

/-! ## Parts -/

def isSlash (c : Char) : Bool := c = '/' || c = '\\'

def isSchemeChar (c : Char) : Bool := c.isAlphanum || c = '+' || c = '-' || c = '.'

/-- The scheme in lower case, and what follows its colon. -/
def scheme? (s : List Char) : Option (List Char × List Char) :=
  let name := s.takeWhile isSchemeChar
  match name, s.drop name.length with
  | first :: _, ':' :: rest =>
    if first.isAlpha then some (name.map Char.toLower, rest) else none
  | _, _ => none

def secure? (scheme : List Char) : Option Bool :=
  if scheme = "http".toList then some false
  else if scheme = "https".toList then some true
  else none

def usualPort (secure : Bool) : Nat := if secure then 443 else 80

/-- What follows the last at sign: names and passwords are not part of an address. -/
def afterUser (s : List Char) : List Char := ((splitOn '@' s).getLast?).getD []

/-- A host and the digits of a port, cut at the first colon outside brackets. -/
def hostAndPort (s : List Char) : List Char × Option (List Char) :=
  let bracketed := match s with
    | '[' :: _ => (s.takeWhile (· ≠ ']')).length
    | _ => 0
  let rest := s.drop bracketed
  let host := s.take bracketed ++ rest.takeWhile (· ≠ ':')
  match rest.dropWhile (· ≠ ':') with
  | _ :: digits => (host, some digits)
  | [] => (host, none)

def port? (secure : Bool) : Option (List Char) → Option (Option Nat)
  | none | some [] => some none
  | some ds =>
    if !ds.all isDigit || 65535 < decimal ds then none
    else if decimal ds = usualPort secure then some none
    else some (some (decimal ds))

/-! ## Paths -/

/-- Escaped points are points where steps are concerned. -/
def points : List Char → List Char
  | '%' :: '2' :: 'e' :: rest | '%' :: '2' :: 'E' :: rest => '.' :: points rest
  | c :: rest => c :: points rest
  | [] => []

/-- Takes the steps of a path after the segments so far. A step at the end leaves an empty
segment. -/
def resolve (done : List (List Char)) : List (List Char) → List (List Char)
  | [] => done
  | segment :: more =>
    let landed (done : List (List Char)) := if more.isEmpty then done ++ [[]] else done
    if points segment = ['.', '.'] then resolve (landed done.dropLast) more
    else if points segment = ['.'] then resolve (landed done) more
    else resolve (done ++ [escape inPathSet segment]) more

def segments (s : List Char) : List (List Char) :=
  splitOn '/' (s.map fun c ↦ if c = '\\' then '/' else c)

/-- A path always begins with a slash; the one it was read with is the same one. -/
def normalPath (s : List Char) : List Char :=
  '/' :: joinWith '/' (resolve [] (segments (s.drop 1)))

/-! ## Whole addresses -/

def trimmed (s : List Char) : List Char :=
  let blank (c : Char) : Bool := c.toNat ≤ 0x20
  (((s.dropWhile blank).reverse.dropWhile blank).reverse).filter fun c ↦
    c ≠ '\t' ∧ c ≠ '\n' ∧ c ≠ '\r'

def ofText? (s : String) : Option Url := do
  let (scheme, rest) ← scheme? (trimmed s.toList)
  let secure ← secure? scheme
  let rest := (rest.dropWhile isSlash).takeWhile (· ≠ '#')
  let authority := rest.takeWhile fun c ↦ !isSlash c && c ≠ '?'
  let rest := rest.drop authority.length
  let (host, port) := hostAndPort (afterUser authority)
  let host ← Host.normal? host
  let port ← port? secure port
  let place := rest.takeWhile (· ≠ '?')
  let query := match rest.drop place.length with
    | _ :: q => some (escape inQuerySet q)
    | [] => none
  some { secure, host, port, path := normalPath place, query }

/-- The address with parameters added to its query. -/
def withParameters (u : Url) (parameters : List (String × String)) : Url :=
  match parameters, u.query with
  | [], _ => u
  | ps, some (c :: cs) => { u with query := some (c :: cs ++ '&' :: form ps) }
  | ps, _ => { u with query := some (form ps) }

def text (u : Url) : String :=
  let scheme := if u.secure then "https://" else "http://"
  let port := match u.port with
    | some n => ':' :: Nat.toDigits 10 n
    | none => []
  let query := match u.query with
    | some q => '?' :: q
    | none => []
  scheme ++ String.ofList (u.host ++ port ++ u.path ++ query)

end Url

end MailRules.Http
