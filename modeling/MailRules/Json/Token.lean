import MailRules.Text.Utf8
import MailRules.Text.Numeral

/-!
# Words, texts and numbers of JSON

A token is read once and used in one of two ways. A reader that keeps it wants its value; a reader
that skips it, because it stands under a key nobody asked for, only wants it to be well formed.
The two are not equally strict: half of a surrogate pair, a stray byte, a number beyond the range
of doubles spoil a value and do not spoil a skipped token. So each token carries both outcomes,
and the document reader that follows need not know who will look at it.

The trouble a token is in is either that the text ended too soon or that it is malformed. What is
well formed and of the wrong type is a mismatch, which only typed readers find.
-/

namespace MailRules.Json

open MailRules.Text

inductive Trouble
  /-- The text ends inside a value. -/
  | unfinished
  /-- The text is no JSON. -/
  | malformed
  /-- The JSON is not of the type asked for. -/
  | mismatch
  deriving DecidableEq, Repr

def Trouble.message : Trouble → String
  | .unfinished => "the JSON text ends inside a value"
  | .malformed => "the text is not JSON"
  | .mismatch => "a JSON value is not of the type that is wanted"

/-- A token as it is for a reader that keeps it and for one that skips it. -/
structure Token (α : Type) where
  kept : Except Trouble α
  skipped : Except Trouble Unit

namespace Token

def good {α : Type} (x : α) : Token α := ⟨.ok x, .ok ()⟩

def bad {α : Type} (t : Trouble) : Token α := ⟨.error t, .error t⟩

end Token

/-- White space between tokens: four characters, and no others. -/
def isBlank : Glyph → Bool
  | .char c => c == ' ' || c == '\t' || c == '\n' || c == '\r'
  | .stray _ => false

def skipBlank (s : List Glyph) : List Glyph := s.dropWhile isBlank

/-! ## Words -/

inductive Word
  | null | yes | no
  deriving DecidableEq, Repr

/-- Reads the rest of a word letter by letter. -/
def spell (word : Word) : List Char → List Glyph → Token Word × List Glyph
  | [], s => (.good word, s)
  | _ :: _, [] => (.bad .unfinished, [])
  | c :: cs, g :: s => if g = .char c then spell word cs s else (.bad .malformed, s)

def word? : List Glyph → Option (Token Word × List Glyph)
  | .char 'n' :: s => some (spell .null ['u', 'l', 'l'] s)
  | .char 't' :: s => some (spell .yes ['r', 'u', 'e'] s)
  | .char 'f' :: s => some (spell .no ['a', 'l', 's', 'e'] s)
  | _ => none

theorem length_spell (word : Word) (cs : List Char) (s : List Glyph) :
    (spell word cs s).2.length ≤ s.length := by
  fun_induction spell word cs s <;> grind

theorem length_word? {s rest : List Glyph} {w : Token Word} (h : word? s = some (w, rest)) :
    rest.length < s.length := by
  have shorter {x : Token Word × List Glyph} {g : Glyph} {s : List Glyph}
      (hx : x.2.length ≤ s.length) (h : some x = some (w, rest)) :
      rest.length < (g :: s).length := by
    rw [Option.some.inj h] at hx
    exact Nat.lt_succ_of_le hx
  unfold word? at h
  split at h
  case h_1 s => exact shorter (length_spell .null ['u', 'l', 'l'] s) h
  case h_2 s => exact shorter (length_spell .yes ['r', 'u', 'e'] s) h
  case h_3 s => exact shorter (length_spell .no ['a', 'l', 's', 'e'] s) h
  case h_4 => simp at h

/-! ## Texts -/

/-- One element of a text between its quotes. -/
inductive Element
  | char (c : Char)
  /-- A UTF-16 unit written in four hexadecimal digits. -/
  | unit (n : Nat)
  | stray
  | close
  deriving DecidableEq, Repr

def hexUnit? : List Glyph → Option (Nat × List Glyph)
  | .char a :: .char b :: .char c :: .char d :: s => do
    let a ← hexDigit? a
    let b ← hexDigit? b
    let c ← hexDigit? c
    let d ← hexDigit? d
    some (4096 * a + 256 * b + 16 * c + d, s)
  | _ => none

/-- The character that a letter after a backslash stands for. -/
def unescape? : Char → Option Char
  | '"' => some '"'
  | '\\' => some '\\'
  | '/' => some '/'
  | 'b' => some '\x08'
  | 'f' => some '\x0C'
  | 'n' => some '\n'
  | 'r' => some '\r'
  | 't' => some '\t'
  | _ => none

/-- Reads one element. Four bytes have to follow a `\u`; fewer mean that the text ended. -/
def element : List Glyph → Except Trouble (Element × List Glyph)
  | [] => .error .unfinished
  | .stray _ :: s => .ok (.stray, s)
  | .char '"' :: s => .ok (.close, s)
  | .char '\\' :: [] => .error .unfinished
  | .char '\\' :: .stray _ :: _ => .error .malformed
  | .char '\\' :: .char 'u' :: s =>
    match hexUnit? s with
    | some (n, s) => .ok (.unit n, s)
    | none => .error (if Glyph.sizeOfAll s < 4 then .unfinished else .malformed)
  | .char '\\' :: .char c :: s =>
    match unescape? c with
    | some c => .ok (.char c, s)
    | none => .error .malformed
  | .char c :: s => if c.toNat < 0x20 then .error .malformed else .ok (.char c, s)

theorem length_hexUnit? {s rest : List Glyph} {n : Nat} (h : hexUnit? s = some (n, rest)) :
    rest.length < s.length := by
  unfold hexUnit? at h
  split at h
  · simp only [Option.bind_eq_bind, Option.bind_eq_some_iff, Option.some.injEq,
      Prod.mk.injEq] at h
    obtain ⟨_, _, _, _, _, _, _, _, _, rfl⟩ := h
    simp only [List.length_cons]
    omega
  · simp at h

theorem length_element {s rest : List Glyph} {e : Element} (h : element s = .ok (e, rest)) :
    rest.length < s.length := by
  unfold element at h
  split at h
  all_goals try simp at h
  case _ => obtain ⟨_, rfl⟩ := h; simp
  case _ => obtain ⟨_, rfl⟩ := h; simp
  case _ =>
    split at h
    · rename_i hu
      have := length_hexUnit? hu
      simp at h
      obtain ⟨_, rfl⟩ := h
      simp only [List.length_cons]
      omega
    · simp at h
  case _ =>
    split at h
    · simp at h
      obtain ⟨_, rfl⟩ := h
      simp only [List.length_cons]
      omega
    · simp at h
  case _ =>
    split at h
    · simp at h
    · simp at h
      obtain ⟨_, rfl⟩ := h
      simp

def isHigh (n : Nat) : Bool := 0xD800 ≤ n && n < 0xDC00

def isLow (n : Nat) : Bool := 0xDC00 ≤ n && n < 0xE000

/-- The characters of a text so far, the last one first, with the first half of a surrogate pair if
that was the last element. -/
structure Gathered where
  chars : List Char := []
  high : Option Nat := none
  stray : Bool := false
  deriving DecidableEq, Repr

/-- Adds an element. A half of a surrogate pair that is alone spoils the text at once. -/
def Gathered.add (g : Gathered) : Element → Except Trouble Gathered
  | .unit n =>
    match g.high with
    | some high =>
      if isLow n then
        let c := Char.ofNat (0x10000 + 1024 * (high - 0xD800) + (n - 0xDC00))
        .ok { g with chars := c :: g.chars, high := none }
      else .error .malformed
    | none =>
      if isHigh n then .ok { g with high := some n }
      else if isLow n then .error .malformed
      else .ok { g with chars := Char.ofNat n :: g.chars }
  | .char c =>
    if g.high.isSome then .error .malformed else .ok { g with chars := c :: g.chars }
  | .stray => if g.high.isSome then .error .malformed else .ok { g with stray := true }
  | .close => if g.high.isSome || g.stray then .error .malformed else .ok g

/-- Reads a text from after its opening quote. -/
def textFrom (gathered : Except Trouble Gathered) (s : List Glyph) : Token String × List Glyph :=
  match _h : element s with
  | .error t => (⟨gathered.bind fun _ ↦ .error t, .error t⟩, [])
  | .ok (.close, rest) =>
    let kept := do
      let g ← gathered
      let g ← g.add .close
      pure (String.ofList g.chars.reverse)
    (⟨kept, .ok ()⟩, rest)
  | .ok (e, rest) => textFrom (gathered.bind (·.add e)) rest
termination_by s.length
decreasing_by exact length_element _h

def text (s : List Glyph) : Token String × List Glyph := textFrom (.ok {}) s

theorem length_textFrom (gathered : Except Trouble Gathered) (s : List Glyph) :
    (textFrom gathered s).2.length ≤ s.length := by
  fun_induction textFrom gathered s with
  | case1 => simp
  | case2 _ _ _ h =>
    have := length_element h
    dsimp only
    omega
  | case3 _ _ _ _ _ h ih =>
    have := length_element h
    omega

/-! ## Numbers -/

inductive Number
  | natural (n : Nat)
  | negative (n : Nat)
  /-- A significand of 64 bits and a power of ten. -/
  | scaled (negative : Bool) (significand : Nat) (exponent : Int)
  deriving DecidableEq, Repr

def digitRun : List Glyph → List Char × List Glyph
  | .char c :: s =>
    if isDigit c then
      let (ds, rest) := digitRun s
      (c :: ds, rest)
    else ([], .char c :: s)
  | s => ([], s)

theorem length_digitRun (s : List Glyph) :
    (digitRun s).1.length + (digitRun s).2.length = s.length := by
  fun_induction digitRun s <;> grind

namespace Number

def limit : Nat := Nat.pow 2 64

/-- Takes digits into a significand until it would not fit; gives how many are left over. -/
def take (significand : Nat) : List Char → Nat × Nat
  | [] => (significand, 0)
  | c :: cs =>
    let n := 10 * significand + digitValue c
    if n < limit then take n cs else (significand, cs.length + 1)

/-- The nearest number of 53 significant bits; of two, the even one. -/
def round53 (n : Nat) : Nat :=
  let shift := n.log2 - 52
  let unit := Nat.pow 2 shift
  let low := n / unit
  let rest := n % unit
  if unit < 2 * rest ∨ (2 * rest = unit ∧ low % 2 = 1) then (low + 1) * unit else low * unit

/-- The product of significand and power, each a double, is not a finite double. -/
def overflows (significand : Nat) (exponent : Int) : Bool :=
  significand != 0 &&
    (308 < exponent ||
      (0 ≤ exponent &&
        Nat.pow 2 1024 - Nat.pow 2 970 ≤
          round53 significand * round53 (Nat.pow 10 exponent.toNat)))

/-- The number of a numeral in its parts. Integers of 64 bits stay integers, except for minus
zero; all else is scaled, dropping fraction digits that the significand has no room for. -/
def ofParts (negative : Bool) (whole fraction : List Char) (exponent : Option Int) :
    Except Trouble Number :=
  let (significand, excess) := take 0 whole
  if fraction.isEmpty && exponent.isNone && excess == 0 &&
      (!negative || (0 < significand && significand ≤ Nat.pow 2 63)) then
    .ok (if negative then .negative significand else .natural significand)
  else
    let (significand, dropped) := take significand fraction
    let places : Int := (fraction.length - dropped : Nat)
    let power := excess - places + exponent.getD 0
    if overflows significand power then .error .malformed
    else .ok (.scaled negative significand power)

end Number

/-- A digit is missing: to skip a number one has to see its digits, to keep it one has to see more
text. -/
def missingDigit (s : List Glyph) : Token Number × List Glyph :=
  (⟨.error (if s.isEmpty then .unfinished else .malformed), .error .malformed⟩, s)

def exponentSign : List Glyph → Bool × List Glyph
  | .char '+' :: s => (false, s)
  | .char '-' :: s => (true, s)
  | s => (false, s)

/-- The end of a number: its exponent, if it has one. -/
def numberEnd (negative : Bool) (whole fraction : List Char) (s : List Glyph) :
    Token Number × List Glyph :=
  let unscaled := (⟨Number.ofParts negative whole fraction none, .ok ()⟩, s)
  let scaled (s : List Glyph) : Token Number × List Glyph :=
    let (below, s) := exponentSign s
    let (ds, s) := digitRun s
    if ds.isEmpty then missingDigit s
    else
      let power : Int := if below then -(decimal ds : Int) else decimal ds
      (⟨Number.ofParts negative whole fraction (some power), .ok ()⟩, s)
  match s with
  | .char 'e' :: rest | .char 'E' :: rest => scaled rest
  | _ => unscaled

/-- A number from after its whole part. Only a lone zero may start with a zero. -/
def afterWhole (negative : Bool) (whole : List Char) (s : List Glyph) :
    Token Number × List Glyph :=
  match whole, s with
  | [], s => missingDigit s
  | '0' :: _ :: _, s => (.bad .malformed, s)
  | whole, .char '.' :: s =>
    let (fraction, s) := digitRun s
    if fraction.isEmpty then missingDigit s else numberEnd negative whole fraction s
  | whole, s => numberEnd negative whole [] s

def number? : List Glyph → Option (Token Number × List Glyph)
  | .char '-' :: s =>
    let (whole, s) := digitRun s
    some (afterWhole true whole s)
  | .char c :: s =>
    if isDigit c then
      let (whole, s) := digitRun s
      some (afterWhole false (c :: whole) s)
    else none
  | _ => none

theorem length_exponentSign (s : List Glyph) : (exponentSign s).2.length ≤ s.length := by
  unfold exponentSign
  split <;> simp

theorem length_digitRun_le (s : List Glyph) : (digitRun s).2.length ≤ s.length := by
  have := length_digitRun s
  omega

theorem length_numberEnd (negative : Bool) (whole fraction : List Char) (s : List Glyph) :
    (numberEnd negative whole fraction s).2.length ≤ s.length := by
  have scaled (s : List Glyph) : (digitRun (exponentSign s).2).2.length ≤ s.length :=
    Nat.le_trans (length_digitRun_le _) (length_exponentSign s)
  unfold numberEnd
  split
  case h_1 rest =>
    have := scaled rest
    dsimp only
    split <;> simp only [missingDigit, List.length_cons] <;> omega
  case h_2 rest =>
    have := scaled rest
    dsimp only
    split <;> simp only [missingDigit, List.length_cons] <;> omega
  case h_3 => exact Nat.le_refl _

theorem length_afterWhole (negative : Bool) (whole : List Char) (s : List Glyph) :
    (afterWhole negative whole s).2.length ≤ s.length := by
  unfold afterWhole
  split
  · exact Nat.le_refl _
  · exact Nat.le_refl _
  · rename_i s _ _
    have := length_digitRun_le s
    dsimp only
    split
    · simp only [missingDigit, List.length_cons]
      omega
    · refine Nat.le_trans (length_numberEnd _ _ _ _) ?_
      simp only [List.length_cons]
      omega
  · exact length_numberEnd _ _ _ _

theorem length_number? {s rest : List Glyph} {n : Token Number}
    (h : number? s = some (n, rest)) : rest.length < s.length := by
  have after (negative : Bool) (whole : List Char) (s : List Glyph) :
      (afterWhole negative whole (digitRun s).2).2.length ≤ s.length :=
    Nat.le_trans (length_afterWhole _ _ _) (length_digitRun_le s)
  have shorter {x : Token Number × List Glyph} {g : Glyph} {s : List Glyph}
      (hx : x.2.length ≤ s.length) (h : some x = some (n, rest)) :
      rest.length < (g :: s).length := by
    rw [Option.some.inj h] at hx
    exact Nat.lt_succ_of_le hx
  unfold number? at h
  split at h
  case h_1 s => exact shorter (after true (digitRun s).1 s) h
  case h_2 c s _ =>
    split at h
    case isTrue => exact shorter (after false (c :: (digitRun s).1) s) h
    case isFalse => simp at h
  case h_3 => simp at h

end MailRules.Json
