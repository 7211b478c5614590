import Mathlib
import MailRules.Json.Document
import MailRules.Json.Value
import MailRules.Proofs.Text.Numeral

/-!
# Tokens that are written are read back

Texts and numbers as they are written, met by the readers of tokens. A text ends at its closing
quote whatever follows it. A number has no end of its own, so what follows has to be something that
does not go on with it (`Delimits`); between values that is always so.

A written text is whole for a reader that keeps it: each character comes to one element, a control
in whichever of its two spellings it is written.
-/

namespace MailRules.Json

open MailRules.Text

/-! ## Texts -/

section Texts

variable {rest : List Glyph}

theorem hexDigit?_hexLetter {n : ℕ} (h : n < 16) : hexDigit? (hexLetter n) = some n := by
  have hall : ∀ n < 16, hexDigit? (hexLetter n) = some n := by decide
  exact hall n h

theorem element_escape_control {c : Char} (h : c.toNat < 0x20) :
    element (glyphs ['\\', 'u', '0', '0', hexLetter (c.toNat / 16), hexLetter (c.toNat % 16)] ++
      rest) = .ok (.unit c.toNat, rest) := by
  have hhigh : hexDigit? (hexLetter (c.toNat / 16)) = some (c.toNat / 16) :=
    hexDigit?_hexLetter (by omega)
  have hlow : hexDigit? (hexLetter (c.toNat % 16)) = some (c.toNat % 16) :=
    hexDigit?_hexLetter (by omega)
  have hzero : hexDigit? '0' = some 0 := by decide
  have hsum : 16 * (c.toNat / 16) + c.toNat % 16 = c.toNat := Nat.div_add_mod c.toNat 16
  simp [glyphs, element, hexUnit?, hhigh, hlow, hzero, hsum]

theorem element_char {c : Char} (hquote : c ≠ '"') (hbackslash : c ≠ '\\')
    (hcontrol : ¬c.toNat < 0x20) : element (.char c :: rest) = .ok (.char c, rest) := by
  rw [element.eq_def]
  split <;> simp_all

/-- An escaped character comes to one element, which adds that character. -/
theorem exists_element_escape (c : Char) (rest : List Glyph) :
    ∃ e, element (glyphs (escape c) ++ rest) = .ok (e, rest) ∧ e ≠ .close ∧
      ∀ g : Gathered, g.high = none → g.add e = .ok { g with chars := c :: g.chars } := by
  have hchar (d : Char) (g : Gathered) (hg : g.high = none) :
      g.add (.char d) = .ok { g with chars := d :: g.chars } := by
    simp [Gathered.add, hg]
  unfold escape
  split
  case h_8 =>
    split
    case isTrue h =>
      refine ⟨.unit c.toNat, element_escape_control h, by simp, fun g hg ↦ ?_⟩
      have hhigh : isHigh c.toNat = false := by simp [isHigh]; omega
      have hlow : isLow c.toNat = false := by simp [isLow]; omega
      simp [Gathered.add, hg, hhigh, hlow]
    case isFalse h =>
      exact ⟨.char c, element_char (by assumption) (by assumption) h, by simp, hchar c⟩
  all_goals exact ⟨.char _, rfl, by simp, hchar _⟩

theorem textFrom_of_element {gathered : Except Trouble Gathered} {s : List Glyph} {e : Element}
    (h : element s = .ok (e, rest)) (he : e ≠ .close) :
    textFrom gathered s = textFrom (gathered.bind (·.add e)) rest := by
  rw [textFrom]
  split <;> simp_all

theorem textFrom_of_close {g : Gathered} (hhigh : g.high = none) (hstray : g.stray = false) :
    textFrom (.ok g) (.char '"' :: rest) = (.good (String.ofList g.chars.reverse), rest) := by
  have hadd : g.add .close = .ok g := by simp [Gathered.add, hhigh, hstray]
  have helement : element (.char '"' :: rest) = .ok (.close, rest) := rfl
  rw [textFrom]
  split
  · simp_all
  · rename_i h
    obtain ⟨-, rfl⟩ := Prod.mk.inj (Except.ok.inj (helement.symm.trans h))
    simp [hadd, Token.good, bind, Except.bind, pure, Except.pure]
  · simp_all

theorem textFrom_escaped (cs : List Char) {g : Gathered} (hhigh : g.high = none) :
    textFrom (.ok g) (glyphs (cs.flatMap escape) ++ rest) =
      textFrom (.ok { g with chars := cs.reverse ++ g.chars }) rest := by
  induction cs generalizing g with
  | nil => rfl
  | cons c cs ih =>
    obtain ⟨e, helement, hclose, hadd⟩ :=
      exists_element_escape c (glyphs (cs.flatMap escape) ++ rest)
    rw [List.flatMap_cons, glyphs, List.map_append, List.append_assoc, ← glyphs, ← glyphs,
      textFrom_of_element helement hclose, Except.bind, hadd g hhigh]
    have hrest := ih (g := { g with chars := c :: g.chars }) hhigh
    rw [hrest, List.reverse_cons, List.append_assoc, List.singleton_append]

theorem text_escaped (s : String) (rest : List Glyph) :
    text (glyphs (s.toList.flatMap escape) ++ .char '"' :: rest) = (.good s, rest) := by
  rw [text, textFrom_escaped s.toList rfl, textFrom_of_close rfl rfl, List.append_nil,
    List.reverse_reverse, String.ofList_toList]

theorem glyphs_quote (s : String) :
    glyphs (quote s) = .char '"' :: (glyphs (s.toList.flatMap escape) ++ [.char '"']) := by
  simp [quote, glyphs]

/-- **A quoted text is read back**, whatever follows it. -/
theorem scalar?_quote (s : String) (rest : List Glyph) :
    scalar? (glyphs (quote s) ++ rest) = some (.text (.good s), rest) := by
  rw [glyphs_quote, List.cons_append, List.append_assoc, List.singleton_append, scalar?,
    text_escaped]

end Texts

/-! ## Numbers -/

/-- A number that ends here does not go on with what follows. -/
def Delimits (rest : List Glyph) : Prop :=
  ∀ c, rest.head? = some (.char c) → isDigit c = false ∧ c ≠ '.' ∧ c ≠ 'e' ∧ c ≠ 'E'

@[simp] theorem delimits_nil : Delimits [] := by simp [Delimits]

@[simp] theorem delimits_cons {c : Char} {rest : List Glyph} :
    Delimits (.char c :: rest) ↔ isDigit c = false ∧ c ≠ '.' ∧ c ≠ 'e' ∧ c ≠ 'E' := by
  simp [Delimits]

section Numbers

variable {rest : List Glyph} {ds : List Char}

/-- A row of digits ends where something else follows. -/
theorem digitRun_of_stops (hds : Digits ds)
    (hrest : ∀ c, rest.head? = some (.char c) → isDigit c = false) :
    digitRun (glyphs ds ++ rest) = (ds, rest) := by
  induction ds with
  | nil =>
    rw [glyphs, List.map_nil, List.nil_append]
    unfold digitRun
    split
    · rename_i c s
      rw [if_neg (by simpa using hrest c rfl)]
    · rfl
  | cons d ds ih =>
    obtain ⟨hd, hds⟩ := digits_cons.mp hds
    rw [glyphs, List.map_cons, List.cons_append, ← glyphs, digitRun, if_pos hd, ih hds]

theorem digitRun_append (hds : Digits ds) (hrest : Delimits rest) :
    digitRun (glyphs ds ++ rest) = (ds, rest) :=
  digitRun_of_stops hds fun c hc ↦ (hrest c hc).1

theorem numberEnd_of_delimits (negative : Bool) (whole fraction : List Char)
    (hrest : Delimits rest) :
    numberEnd negative whole fraction rest =
      (⟨Number.ofParts negative whole fraction none, .ok ()⟩, rest) := by
  unfold numberEnd
  split
  · exact absurd rfl (delimits_cons.mp hrest).2.2.1
  · exact absurd rfl (delimits_cons.mp hrest).2.2.2
  · rfl

/-- A whole part that is a single zero or does not start with one. -/
def Whole (ds : List Char) : Prop := Digits ds ∧ ds ≠ [] ∧ ∀ e es, ds ≠ '0' :: e :: es

theorem afterWhole_of_whole (negative : Bool) (hds : Whole ds) (hrest : Delimits rest) :
    afterWhole negative ds rest = (⟨Number.ofParts negative ds [] none, .ok ()⟩, rest) := by
  obtain ⟨-, hne, hzero⟩ := hds
  unfold afterWhole
  split
  · exact absurd rfl hne
  · exact absurd rfl (hzero _ _)
  · exact absurd rfl (delimits_cons.mp hrest).2.1
  · exact numberEnd_of_delimits _ _ _ hrest

/-- The first digit of a positive number is not zero. -/
theorem head?_toDigits_ne {n : ℕ} (h : 0 < n) : (Nat.toDigits 10 n).head? ≠ some '0' := by
  induction n using Nat.strong_induction_on with
  | _ n ih =>
    by_cases hn : n < 10
    · have hall : ∀ n < 10, 0 < n → Nat.digitChar n ≠ '0' := by decide
      rw [Nat.toDigits_of_lt_base hn]
      simpa using hall n hn h
    · rw [Nat.toDigits_of_base_le (by decide) (not_lt.mp hn),
        List.head?_append_of_ne_nil _ (List.ne_nil_of_length_pos Nat.length_toDigits_pos)]
      exact ih (n / 10) (by omega) (by omega)

theorem whole_toDigits (n : ℕ) : Whole (Nat.toDigits 10 n) := by
  have hdigits : Digits (Nat.toDigits 10 n) := padded_one n ▸ digits_padded 1 n
  refine ⟨hdigits, List.ne_nil_of_length_pos Nat.length_toDigits_pos, fun e es h ↦ ?_⟩
  rcases Nat.eq_zero_or_pos n with rfl | hpos
  · simp [Nat.toDigits_zero] at h
  · exact head?_toDigits_ne hpos (by rw [h]; rfl)

/-- The number of an integer as it is written. -/
def writtenNumber (n : ℤ) : Token Number :=
  ⟨Number.ofParts (n < 0) (Nat.toDigits 10 n.natAbs) [] none, .ok ()⟩

theorem le_foldl_digits (significand : ℕ) (ds : List Char) :
    significand ≤ ds.foldl (fun n c ↦ 10 * n + digitValue c) significand := by
  induction ds generalizing significand with
  | nil => exact le_rfl
  | cons d ds ih =>
    have hmore := ih (10 * significand + digitValue d)
    rw [List.foldl_cons]
    omega

/-- Digits whose value fits are all taken. -/
theorem Number.take_of_lt {significand : ℕ}
    (h : ds.foldl (fun n c ↦ 10 * n + digitValue c) significand < Number.limit) :
    Number.take significand ds =
      (ds.foldl (fun n c ↦ 10 * n + digitValue c) significand, 0) := by
  induction ds generalizing significand with
  | nil => rfl
  | cons d ds ih =>
    rw [List.foldl_cons] at h ⊢
    rw [Number.take, if_pos (lt_of_le_of_lt (le_foldl_digits _ ds) h), ih h]

/-- A natural number of 64 bits stays what it is. -/
theorem kept_writtenNumber {n : ℕ} (h : n < Number.limit) :
    (writtenNumber n).kept = .ok (.natural n) := by
  have hvalue : (Nat.toDigits 10 n).foldl (fun n c ↦ 10 * n + digitValue c) 0 = n :=
    Nat.ofDigitChars_toDigits (by decide) (by decide)
  have htake : Number.take 0 (Nat.toDigits 10 n) = _ := Number.take_of_lt (hvalue.symm ▸ h)
  rw [hvalue] at htake
  have hneg : ¬(n : ℤ) < 0 := by omega
  simp [writtenNumber, Number.ofParts, htake, hneg]

theorem number?_minus (s : List Glyph) :
    number? (.char '-' :: s) = some (afterWhole true (digitRun s).1 (digitRun s).2) := rfl

theorem number?_digits (hds : Digits ds) (hne : ds ≠ [])
    (hrest : ∀ c, rest.head? = some (.char c) → isDigit c = false) :
    number? (glyphs ds ++ rest) = some (afterWhole false ds rest) := by
  obtain ⟨d, es, rfl⟩ := List.exists_cons_of_ne_nil hne
  obtain ⟨hd, hes⟩ := digits_cons.mp hds
  rw [glyphs, List.map_cons, List.cons_append, ← glyphs]
  unfold number?
  split
  · rename_i heq
    obtain rfl := Glyph.char.inj (List.cons.inj heq).1
    cases hd
  · rename_i c s _ heq
    obtain ⟨hc, rfl⟩ := List.cons.inj heq
    obtain rfl := Glyph.char.inj hc
    rw [if_pos hd, digitRun_of_stops hes hrest]
  · simp_all

theorem number?_writtenInt (n : ℤ) (hrest : Delimits rest) :
    number? (glyphs (writtenInt n) ++ rest) = some (writtenNumber n, rest) := by
  have hwhole := whole_toDigits n.natAbs
  rw [writtenInt, writtenNumber]
  by_cases hneg : n < 0
  · rw [if_pos hneg, glyphs, List.map_cons, List.cons_append, ← glyphs, number?_minus,
      digitRun_append hwhole.1 hrest, afterWhole_of_whole _ hwhole hrest, decide_eq_true hneg]
  · rw [if_neg hneg, decide_eq_false hneg,
      number?_digits hwhole.1 hwhole.2.1 fun c hc ↦ (hrest c hc).1,
      afterWhole_of_whole _ hwhole hrest]

theorem scalar?_of_number? {s : List Glyph} {token : Token Number}
    (h : number? s = some (token, rest)) : scalar? s = some (.number token, rest) := by
  have hne (c : Char) (hc : c ≠ '-' ∧ isDigit c = false) (t : List Glyph) : s ≠ .char c :: t := by
    rintro rfl
    simp [number?, hc.1, hc.2] at h
  have hword : word? s = none := by
    unfold word?
    split
    · exact absurd rfl (hne 'n' (by decide) _)
    · exact absurd rfl (hne 't' (by decide) _)
    · exact absurd rfl (hne 'f' (by decide) _)
    · rfl
  unfold scalar?
  split
  · exact absurd rfl (hne '"' (by decide) _)
  · rw [hword, h]
    rfl

end Numbers

end MailRules.Json
