import MailRules.Calendar.MailDate
import MailRules.Calendar.Pattern
import MailRules.Calendar.Timestamp
import MailRules.Calendar.Zone

/-!
# Received dates

The date of a message is whatever its sender wrote. The common loose forms are first made strict:
a zone comment at the end is dropped, `UTC` and `Z` after a blank become `+0000`, an hour of one
digit gets its zero. Then the forms are tried from the strictest to the loosest, and the first that
gives an instant wins. Only forms without a zone depend on where the reader is.
-/

namespace MailRules.Calendar.Received

open MailRules.Text

/-! ## Making loose forms strict -/

/-- Text before the last `(`, if there is one. -/
def beforeLastOpen? (s : List Char) : Option (List Char) :=
  match s.reverse.dropWhile (· != '(') with
  | [] => none
  | _ :: before => some before.reverse

/-- Drops a comment that ends the text, from its last opening parenthesis on. -/
def dropComment (s : List Char) : List Char :=
  if s.getLast? = some ')' then
    match beforeLastOpen? s with
    | some before => trimEnd before
    | none => s
  else s

/-- Text before a suffix, if the text ends in it. -/
def beforeSuffix? (suffix s : List Char) : Option (List Char) :=
  if suffix.isSuffixOf s then some (s.take (s.length - suffix.length)) else none

/-- Spells a final `UTC` or `Z` as an offset. -/
def spellZone (s : List Char) : List Char :=
  match beforeSuffix? " UTC".toList s <|> beforeSuffix? " Z".toList s with
  | some before => trimEnd before ++ " +0000".toList
  | none => s

/-- The text starts with an hour of one digit: `9:30`. -/
def startsShortHour : List Char → Bool
  | h :: ':' :: m :: n :: _ => isDigit h && isDigit m && isDigit n
  | _ => false

/-- Pads the first hour of one digit that follows white space. -/
def padAfterWhite : List Char → List Char
  | [] => []
  | c :: rest =>
    if isWhite c && startsShortHour rest then c :: '0' :: rest else c :: padAfterWhite rest

/-- Pads the first hour of one digit, at the start of the text or after white space. -/
def padHour (s : List Char) : List Char :=
  if startsShortHour s then '0' :: s else padAfterWhite s

def strict (s : List Char) : List Char := padHour (spellZone (dropComment s))

/-! ## The instant of a date -/

/-- The instant of a date that carries its zone. -/
def zonedInstant? (trimmed : List Char) : Option Instant :=
  let strict := strict trimmed
  (MailDate.read? strict).bind Reading.instant? <|>
    (Timestamp.read? trimmed).bind Reading.instant? <|>
    Pattern.zoned.findSome? fun pattern ↦ (pattern.read? strict).bind Reading.instant?

/-- What the local clock shows in a date without a zone. -/
def zonelessTime? (trimmed : List Char) : Option LocalTime :=
  Pattern.zoneless.findSome? fun pattern ↦ (pattern.read? trimmed).bind Reading.localTime?

def instant? (zone : Zone) (s : List Char) : Option Instant :=
  let trimmed := trim s
  zonedInstant? trimmed <|> (zonelessTime? trimmed).bind zone.instant?

end MailRules.Calendar.Received
