import MailRules.Calendar.Scan

/-!
# Dates of mail headers

The form of RFC 2822 with its obsolete parts: an optional day of the week with a comma, day, name
of the month, year, time with optional seconds, zone, and comments in parentheses at the end.
Years of two and three digits are short for years of the nineteen and twenty hundreds.

Comments nest, and a backslash takes the meaning from the character after it. The reader walks
them with a depth, so nesting costs nothing.
-/

namespace MailRules.Calendar.MailDate

open MailRules.Text

/-- A day of the week counts only with its comma; other letters are left for the day to refuse. -/
def weekday? (s : List Char) : Option (Option Nat × List Char) :=
  match weekdayName? s with
  | none => some (none, s)
  | some (day, rest) => (literal? ',' rest).map fun rest ↦ (some day, rest)

/-- The year meant by a number written with this many digits. -/
def fullYear (digits value : Nat) : Nat :=
  if digits = 2 then (if value < 50 then value + 2000 else value + 1900)
  else if digits = 3 then value + 1900
  else value

def year? (s : List Char) : Option (Nat × List Char) := do
  let (value, rest) ← numeral? s
  let digits := s.length - rest.length
  if digits < 2 then none else some (fullYear digits value, rest)

/-- Hours and minutes of two digits, and the seconds if another colon follows. -/
def time? (s : List Char) : Option ((Nat × Nat × Nat) × List Char) := do
  let (hour, s) ← digits? 2 2 s
  let s ← literal? ':' (trimStart s)
  let (minute, s) ← digits? 2 2 (trimStart s)
  match literal? ':' (trimStart s) with
  | none => some ((hour, minute, 0), s)
  | some s =>
    let (second, s) ← digits? 2 2 s
    some ((hour, minute, second), s)

/-! ## Zones -/

def isLetter (c : Char) : Bool := ('a' ≤ c && c ≤ 'z') || ('A' ≤ c && c ≤ 'Z')

/-- Hours of a zone given by letters. Single letters other than `J` are the military zones, which
were used with both signs and so mean nothing but UTC. -/
def namedZone? (letters : String) : Option Int :=
  match letters with
  | "gmt" | "ut" | "z" => some 0
  | "edt" => some (-4)
  | "est" | "cdt" => some (-5)
  | "cst" | "mdt" => some (-6)
  | "mst" | "pdt" => some (-7)
  | "pst" => some (-8)
  | "j" => none
  | _ => if letters.length = 1 then some 0 else none

def offsetForm : OffsetForm := ⟨.nothing, false, false⟩

def zone? (s : List Char) : Option (Int × List Char) :=
  let letters := s.takeWhile isLetter
  if letters.isEmpty then offsetForm.read? s
  else
    (namedZone? (String.ofList (letters.map Char.toLower))).map fun hours ↦
      (3600 * hours, s.drop letters.length)

/-! ## Comments -/

/-- The text after the parenthesis that closes a comment; `depth` more are open inside it. -/
def closeComment? (depth : Nat) : List Char → Option (List Char)
  | [] => none
  | '\\' :: _ :: rest => closeComment? depth rest
  | '(' :: rest => closeComment? (depth + 1) rest
  | ')' :: rest =>
    match depth with
    | 0 => some rest
    | depth + 1 => closeComment? depth rest
  | _ :: rest => closeComment? depth rest

theorem length_closeComment? {depth : Nat} {s rest : List Char}
    (h : closeComment? depth s = some rest) : rest.length < s.length := by
  fun_induction closeComment? depth s <;> grind

/-- White space and one comment. -/
def comment? (s : List Char) : Option (List Char) :=
  match trimStart s with
  | '(' :: rest => closeComment? 0 rest
  | _ => none

theorem length_comment? {s rest : List Char} (h : comment? s = some rest) :
    rest.length < s.length := by
  have hle := length_trimStart_le s
  simp only [comment?] at h
  split at h
  · rename_i heq
    have := length_closeComment? h
    simp [heq] at hle
    omega
  · simp at h

/-- Comments to the very end. -/
def onlyComments (s : List Char) : Bool :=
  match _h : comment? s with
  | none => s.isEmpty
  | some rest => onlyComments rest
termination_by s.length
decreasing_by exact length_comment? _h

/-! ## The whole form -/

def read? (s : List Char) : Option Reading := do
  let (weekday, s) ← weekday? (trimStart s)
  let (day, s) ← digits? 1 2 (trimStart s)
  let s ← gap? s
  let (month, s) ← monthName? s
  let s ← gap? s
  let (year, s) ← year? s
  let s ← gap? s
  let ((hour, minute, second), s) ← time? s
  let s ← gap? s
  let (offset, s) ← zone? s
  if onlyComments s then
    some { year, month, day, hour, minute, second, weekday, offset := some offset }
  else none

end MailRules.Calendar.MailDate
