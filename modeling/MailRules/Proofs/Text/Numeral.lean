import MailRules.Text.Numeral
import MailRules.Proofs.Text.White

/-!
# Numerals that are read and written

What the readers of numerals take from a text is stated by its parts: the text is a row of digits
and a rest, the row is as long as it may be, and the value is that of the row. Both directions are
in one equivalence each (`digits?_eq_some_iff`, `numeral?_eq_some_iff`), so that a text can be taken
apart with it as well as read.

Written numerals have the width they were padded to, if the number fits, and their own value.

An integer of 64 bits is a whole text, with a sign or without one (`unsigned64_eq_ok_iff` and
`signed64?_eq_some_iff`). Integers of any size are spelled in the same way, and a text spells one of
them at most (`SpellsInteger.unique`).
-/

namespace MailRules.Text

/-- Nothing but digits. -/
def Digits (ds : List Char) : Prop := ∀ d ∈ ds, isDigit d = true

@[simp] theorem digits_nil : Digits [] := by simp [Digits]

@[simp] theorem digits_cons {d : Char} {ds : List Char} :
    Digits (d :: ds) ↔ isDigit d = true ∧ Digits ds := by simp [Digits]

@[simp] theorem digits_append {ds es : List Char} : Digits (ds ++ es) ↔ Digits ds ∧ Digits es :=
  List.forall_mem_append

theorem isDigit_iff {c : Char} : isDigit c = true ↔ 48 ≤ c.toNat ∧ c.toNat ≤ 57 := by
  simp only [isDigit, Bool.and_eq_true, decide_eq_true_eq, Char.le_def, UInt32.le_iff_toNat_le]
  exact Iff.rfl

theorem isWhite_eq_false_of_isDigit {c : Char} (h : isDigit c = true) : isWhite c = false := by
  rw [isDigit_iff] at h
  simp only [isWhite, Bool.or_eq_false_iff, Bool.and_eq_false_iff, decide_eq_false_iff_not,
    beq_eq_false_iff_ne]
  omega

theorem isDigit_eq_false_of_isWhite {c : Char} (h : isWhite c = true) : isDigit c = false := by
  by_contra hc
  rw [isWhite_eq_false_of_isDigit (by simpa using hc)] at h
  cases h

theorem Digits.stops_white {ds s : List Char} (hds : Digits ds) (hne : ds ≠ []) :
    Stops isWhite (ds ++ s) := by
  cases ds with
  | nil => exact absurd rfl hne
  | cons d ds => simpa using isWhite_eq_false_of_isDigit (digits_cons.mp hds).1

/-- No number goes on behind white space. -/
theorem White.stops_digit {w s : List Char} (hw : White w) (hne : w ≠ []) :
    Stops isDigit (w ++ s) :=
  stops_append_of_all hw hne fun _ ↦ isDigit_eq_false_of_isWhite

theorem Digits.exists_concat {ds : List Char} (hds : Digits ds) (hne : ds ≠ []) :
    ∃ es c, ds = es ++ [c] ∧ isDigit c = true := by
  obtain ⟨es, c, rfl⟩ := List.eq_nil_or_concat ds |>.resolve_left hne
  rw [List.concat_eq_append] at hds
  exact ⟨es, c, List.concat_eq_append, (digits_cons.mp (digits_append.mp hds).2).1⟩

/-- A row of digits is as long as it can be in one way. -/
theorem Digits.append_inj {ds es s t : List Char} (hds : Digits ds) (hes : Digits es)
    (hs : Stops isDigit s) (ht : Stops isDigit t) (h : ds ++ s = es ++ t) : ds = es ∧ s = t := by
  have hrow : ds = es := by
    rw [← takeWhile_append_of_stops hds hs, h, takeWhile_append_of_stops hes ht]
  subst hrow
  exact ⟨rfl, List.append_cancel_left h⟩

/-! ## Reading -/

variable {lo hi n : ℕ} {s ds rest : List Char}

/-- Of a row of digits, as many are read as the width allows. -/
theorem digits?_append_of_stops (hds : Digits ds) (hrest : Stops isDigit rest) :
    digits? lo hi (ds ++ rest) =
      if (ds.take hi).length < lo then none
      else some (decimal (ds.take hi), ds.drop hi ++ rest) := by
  have hrow : ((ds ++ rest).take hi).takeWhile isDigit = ds.take hi := by
    rw [List.take_append]
    refine takeWhile_append_of_stops (fun d hd ↦ hds d (List.mem_of_mem_take hd)) ?_
    intro c hc
    refine hrest c ?_
    cases rest with
    | nil => simp at hc
    | cons d rest => cases h : hi - ds.length <;> simp_all
  have hdrop : (ds ++ rest).drop (ds.take hi).length = ds.drop hi ++ rest := by
    conv_lhs => rw [← List.take_append_drop hi ds, List.append_assoc]
    rw [List.take_append_drop, List.drop_left]
  rw [digits?, hrow, hdrop]

theorem digits?_eq_none_of_stops (hlo : 0 < lo) (h : Stops isDigit s) : digits? lo hi s = none := by
  have hread : digits? lo hi ([] ++ s) = _ := digits?_append_of_stops digits_nil h
  rwa [List.nil_append, List.take_nil, if_pos (by simpa using hlo)] at hread

theorem digits?_append (hds : Digits ds) (hlo : lo ≤ ds.length) (hhi : ds.length ≤ hi)
    (hstop : ds.length = hi ∨ Stops isDigit rest) :
    digits? lo hi (ds ++ rest) = some (decimal ds, rest) := by
  obtain ⟨more, tail, rfl, hmore, htail⟩ := exists_scan isDigit rest
  have hnil : ds.length = hi ∨ more = [] := hstop.imp_right fun h ↦ by
    cases more with
    | nil => rfl
    | cons d more => exact absurd (digits_cons.mp hmore).1 (by simpa using h)
  have htake : (ds ++ more).take hi = ds := by
    rcases hnil with hlen | rfl
    · rw [← hlen, List.take_left]
    · rw [List.append_nil, List.take_of_length_le hhi]
  have hdrop : (ds ++ more).drop hi = more := by
    rcases hnil with hlen | rfl
    · rw [← hlen, List.drop_left]
    · rw [List.append_nil, List.drop_of_length_le hhi]
  rw [← List.append_assoc, digits?_append_of_stops (digits_append.mpr ⟨hds, hmore⟩) htail, htake,
    hdrop, if_neg (Nat.not_lt.mpr hlo)]

theorem digits?_eq_some_iff :
    digits? lo hi s = some (n, rest) ↔ ∃ ds, s = ds ++ rest ∧ Digits ds ∧ lo ≤ ds.length ∧
      ds.length ≤ hi ∧ (ds.length = hi ∨ Stops isDigit rest) ∧ n = decimal ds := by
  constructor
  · intro h
    obtain ⟨ds, tail, rfl, hds, htail⟩ := exists_scan isDigit s
    rw [digits?_append_of_stops hds htail] at h
    split at h
    · cases h
    · rename_i hlo
      obtain ⟨rfl, rfl⟩ := Prod.mk.inj (Option.some.inj h)
      refine ⟨ds.take hi, ?_, fun d hd ↦ hds d (List.mem_of_mem_take hd), Nat.not_lt.mp hlo,
        List.length_take_le hi ds, ?_, rfl⟩
      · rw [← List.append_assoc, List.take_append_drop]
      · rcases Nat.le_total hi ds.length with hle | hle
        · exact Or.inl (List.length_take_of_le hle)
        · rw [List.drop_of_length_le hle]
          exact Or.inr htail
  · rintro ⟨ds, rfl, hds, hlo, hhi, hstop, rfl⟩
    exact digits?_append hds hlo hhi hstop

theorem numeral?_append (hds : Digits ds) (hne : ds ≠ []) (hrest : Stops isDigit rest) :
    numeral? (ds ++ rest) = some (decimal ds, rest) := by
  rw [numeral?, takeWhile_append_of_stops hds hrest, List.drop_left]
  simp [hne]

theorem numeral?_eq_some_iff :
    numeral? s = some (n, rest) ↔
      ∃ ds, s = ds ++ rest ∧ Digits ds ∧ ds ≠ [] ∧ Stops isDigit rest ∧ n = decimal ds := by
  constructor
  · intro h
    obtain ⟨ds, tail, rfl, hds, htail⟩ := exists_scan isDigit s
    rcases eq_or_ne ds [] with rfl | hne
    · rw [List.nil_append, numeral?, takeWhile_of_stops htail] at h
      cases h
    · rw [numeral?_append hds hne htail] at h
      obtain ⟨rfl, rfl⟩ := Prod.mk.inj (Option.some.inj h)
      exact ⟨ds, rfl, hds, hne, htail, rfl⟩
  · rintro ⟨ds, rfl, hds, hne, hrest, rfl⟩
    exact numeral?_append hds hne hrest

/-! ## Writing -/

theorem decimal_eq_ofDigitChars (ds : List Char) : decimal ds = Nat.ofDigitChars 10 ds 0 := rfl

theorem digitValue_lt {c : Char} (h : isDigit c = true) : digitValue c < 10 := by
  have hc := isDigit_iff.mp h
  have hzero : '0'.toNat = 48 := rfl
  rw [digitValue]
  omega

theorem decimal_concat (ds : List Char) (d : Char) :
    decimal (ds ++ [d]) = 10 * decimal ds + digitValue d := by
  simp [decimal]

theorem decimal_lt {ds : List Char} (h : Digits ds) : decimal ds < 10 ^ ds.length := by
  induction ds using List.reverseRecOn with
  | nil => decide
  | append_singleton ds d ih =>
    obtain ⟨hds, hd⟩ := digits_append.mp h
    have hlast := digitValue_lt (digits_cons.mp hd).1
    have hfront := ih hds
    rw [decimal_concat, List.length_append, List.length_singleton, pow_succ]
    omega

@[simp] theorem decimal_cons_zero (ds : List Char) : decimal ('0' :: ds) = decimal ds := rfl

theorem decimal_replicate_zero (k : ℕ) (ds : List Char) :
    decimal (List.replicate k '0' ++ ds) = decimal ds := by
  induction k with
  | zero => rfl
  | succ k ih => rw [List.replicate_succ, List.cons_append, decimal_cons_zero, ih]

@[simp] theorem decimal_padded (width n : ℕ) : decimal (padded width n) = n := by
  rw [padded, decimal_replicate_zero, decimal_eq_ofDigitChars,
    Nat.ofDigitChars_toDigits (by decide) (by decide)]

theorem digits_padded (width n : ℕ) : Digits (padded width n) := by
  intro d hd
  rcases List.mem_append.mp hd with hzero | hdigit
  · rw [List.eq_of_mem_replicate hzero]
    rfl
  · have h := Nat.isDigit_of_mem_toDigits (by decide) (by decide) hdigit
    simp only [Char.isDigit, Bool.and_eq_true, decide_eq_true_eq, ge_iff_le,
      UInt32.le_iff_toNat_le] at h
    exact isDigit_iff.mpr h

theorem length_padded_of_lt {width n : ℕ} (hwidth : 0 < width) (h : n < 10 ^ width) :
    (padded width n).length = width := by
  have hlen := (Nat.length_toDigits_le_iff (b := 10) (by decide) hwidth).mpr h
  simp only [padded, List.length_append, List.length_replicate]
  omega

theorem length_padded_pos (width n : ℕ) : 0 < (padded width n).length := by
  have hpos : 0 < (Nat.toDigits 10 n).length := Nat.length_toDigits_pos
  rw [padded, List.length_append]
  omega

theorem padded_ne_nil (width n : ℕ) : padded width n ≠ [] :=
  List.ne_nil_of_length_pos (length_padded_pos width n)

theorem padded_one (n : ℕ) : padded 1 n = Nat.toDigits 10 n := by
  have hpos : 0 < (Nat.toDigits 10 n).length := Nat.length_toDigits_pos
  rw [padded, Nat.sub_eq_zero_of_le hpos]
  rfl

theorem padded_two_of_lt {n : ℕ} (h : n < 10) : padded 2 n = '0' :: padded 1 n := by
  rw [padded_one, padded, Nat.toDigits_of_lt_base h]
  rfl

theorem padded_two_of_le {n : ℕ} (h : 10 ≤ n) : padded 2 n = padded 1 n := by
  have hlen : 2 ≤ (Nat.toDigits 10 n).length := by
    have hlong := mt (Nat.length_toDigits_le_iff (b := 10) (k := 1) (by decide) (by decide)).mp
      (Nat.not_lt.mpr h)
    omega
  rw [padded_one, padded, Nat.sub_eq_zero_of_le hlen]
  rfl

/-! ## Integers of 64 bits -/

/-- The text is a row of digits, with at most one `+` before it, and their value has 64 bits. -/
def SpellsUnsigned (s : List Char) (n : ℕ) : Prop :=
  ∃ ds, (s = ds ∨ s = '+' :: ds) ∧ ds ≠ [] ∧ Digits ds ∧ n = decimal ds ∧ n < 2 ^ 64

private theorem checked_eq_ok_iff {ds : List Char} {n : ℕ} :
    (if Nat.pow 2 64 ≤ decimal (ds.takeWhile isDigit) then .error .tooLarge
      else if ds.isEmpty || !ds.all isDigit then .error .notADigit
      else .ok (decimal ds) : Except IntegerFault ℕ) = .ok n ↔
      ds ≠ [] ∧ Digits ds ∧ n = decimal ds ∧ n < 2 ^ 64 := by
  by_cases hwhole : ds ≠ [] ∧ Digits ds
  · obtain ⟨hne, hds⟩ := hwhole
    have htake : ds.takeWhile isDigit = ds := List.takeWhile_eq_self_iff.mpr hds
    have hall : (ds.isEmpty || !ds.all isDigit) = false := by
      simpa [hne, Digits] using hds
    rw [htake, hall, if_neg Bool.false_ne_true]
    by_cases hlarge : Nat.pow 2 64 ≤ decimal ds
    · rw [if_pos hlarge]
      constructor
      · intro h
        cases h
      · rintro ⟨-, -, rfl, hlt⟩
        exact absurd hlt (Nat.not_lt.mpr hlarge)
    · rw [if_neg hlarge]
      constructor
      · intro h
        obtain rfl := Except.ok.inj h
        exact ⟨hne, hds, rfl, Nat.not_le.mp hlarge⟩
      · rintro ⟨-, -, rfl, -⟩
        rfl
  · -- whether it is too large already or not, it is no integer
    have hall : (ds.isEmpty || !ds.all isDigit) = true := by
      by_contra hfalse
      simp only [Bool.or_eq_true, List.isEmpty_iff, Bool.not_eq_true', not_or,
        Bool.not_eq_false] at hfalse
      exact hwhole ⟨hfalse.1, List.all_eq_true.mp hfalse.2⟩
    rw [hall, if_pos rfl]
    constructor
    · intro h
      split at h <;> cases h
    · rintro ⟨hne, hds, -⟩
      exact absurd ⟨hne, hds⟩ hwhole

theorem unsigned64_eq_ok_iff {s : List Char} {n : ℕ} :
    unsigned64 s = .ok n ↔ SpellsUnsigned s n := by
  cases s with
  | nil =>
    constructor
    · intro h
      cases h
    · rintro ⟨ds, rfl | h, hne, -⟩
      · exact absurd rfl hne
      · cases h
  | cons c ds =>
    by_cases hc : c = '+'
    · subst hc
      have hbody : unsigned64 ('+' :: ds) = .ok n ↔ _ := checked_eq_ok_iff
      rw [hbody]
      constructor
      · intro h
        exact ⟨ds, Or.inr rfl, h⟩
      · rintro ⟨ds', rfl | h, hds⟩
        · exact absurd (hds.2.1 '+' List.mem_cons_self) (by decide)
        · rwa [(List.cons.inj h).2]
    · have hbody : unsigned64 (c :: ds) = .ok n ↔
          c :: ds ≠ [] ∧ Digits (c :: ds) ∧ n = decimal (c :: ds) ∧ n < 2 ^ 64 := by
        rw [unsigned64, if_neg (by simp)]
        · exact checked_eq_ok_iff
        · intro ds' hsign
          exact hc (List.cons.inj hsign).1
      rw [hbody]
      constructor
      · intro h
        exact ⟨c :: ds, Or.inl rfl, h⟩
      · rintro ⟨ds', rfl | h, hds⟩
        · exact hds
        · exact absurd (List.cons.inj h).1 hc

/-- The text is a row of digits, with at most one sign before it, and their value has 64 bits. -/
def SpellsSigned (s : List Char) (n : ℤ) : Prop :=
  ∃ ds, ds ≠ [] ∧ Digits ds ∧
    ((s = ds ∨ s = '+' :: ds) ∧ n = decimal ds ∨ s = '-' :: ds ∧ n = -(decimal ds : ℤ)) ∧
    -2 ^ 63 ≤ n ∧ n < 2 ^ 63

private theorem signed_eq_some_iff {negative : Bool} {ds : List Char} {n : ℤ} :
    (if ds.isEmpty || !ds.all isDigit then none
      else
        let m : ℤ := if negative then -(decimal ds : ℤ) else decimal ds
        if -Int.pow 2 63 ≤ m ∧ m < Int.pow 2 63 then some m else none) = some n ↔
      ds ≠ [] ∧ Digits ds ∧ n = (if negative then -(decimal ds : ℤ) else decimal ds) ∧
        -2 ^ 63 ≤ n ∧ n < 2 ^ 63 := by
  have hwhole : (ds.isEmpty || !ds.all isDigit) = true ↔ ¬(ds ≠ [] ∧ Digits ds) := by
    simp [Digits, or_iff_not_imp_left]
  by_cases h : ds ≠ [] ∧ Digits ds
  · rw [if_neg (by rw [hwhole]; exact not_not_intro h)]
    simp only [Option.ite_none_right_eq_some, Option.some.injEq]
    constructor
    · rintro ⟨hbits, rfl⟩
      exact ⟨h.1, h.2, rfl, hbits⟩
    · rintro ⟨-, -, rfl, hbits⟩
      exact ⟨hbits, rfl⟩
  · rw [if_pos (hwhole.mpr h)]
    constructor
    · intro hnone
      cases hnone
    · rintro ⟨hne, hds, -⟩
      exact absurd ⟨hne, hds⟩ h

theorem signed64?_eq_some_iff {s : List Char} {n : ℤ} :
    signed64? s = some n ↔ SpellsSigned s n := by
  have hsign {d : Char} {ds : List Char} (hd : isDigit d = false) : ¬Digits (d :: ds) := by
    simp [hd]
  by_cases hplus : ∃ ds, s = '+' :: ds
  · obtain ⟨ds, rfl⟩ := hplus
    have hbody : signed64? ('+' :: ds) = some n ↔ _ := @signed_eq_some_iff false ds n
    rw [hbody]
    constructor
    · rintro ⟨hne, hds, hn, hbits⟩
      exact ⟨ds, hne, hds, Or.inl ⟨Or.inr rfl, hn⟩, hbits⟩
    · rintro ⟨es, hne, hes, ⟨rfl | h, hn⟩ | ⟨h, -⟩, hbits⟩
      · exact absurd hes (hsign (by decide))
      · obtain ⟨-, rfl⟩ := List.cons.inj h
        exact ⟨hne, hes, hn, hbits⟩
      · exact absurd (List.cons.inj h).1 (by decide)
  · by_cases hminus : ∃ ds, s = '-' :: ds
    · obtain ⟨ds, rfl⟩ := hminus
      have hbody : signed64? ('-' :: ds) = some n ↔ _ := @signed_eq_some_iff true ds n
      rw [hbody]
      constructor
      · rintro ⟨hne, hds, hn, hbits⟩
        exact ⟨ds, hne, hds, Or.inr ⟨rfl, hn⟩, hbits⟩
      · rintro ⟨es, hne, hes, ⟨rfl | h, -⟩ | ⟨h, hn⟩, hbits⟩
        · exact absurd hes (hsign (by decide))
        · exact absurd (List.cons.inj h).1 (by decide)
        · obtain ⟨-, rfl⟩ := List.cons.inj h
          exact ⟨hne, hes, hn, hbits⟩
    · push Not at hplus hminus
      have hbody : signed64? s = some n ↔
          s ≠ [] ∧ Digits s ∧ n = decimal s ∧ -2 ^ 63 ≤ n ∧ n < 2 ^ 63 := by
        rw [signed64?]
        · exact @signed_eq_some_iff false s n
        · exact hplus
        · exact hminus
      rw [hbody]
      constructor
      · rintro ⟨hne, hds, hn, hbits⟩
        exact ⟨s, hne, hds, Or.inl ⟨Or.inl rfl, hn⟩, hbits⟩
      · rintro ⟨es, hne, hes, ⟨rfl | h, hn⟩ | ⟨h, -⟩, hbits⟩
        · exact ⟨hne, hes, hn, hbits⟩
        · exact absurd h (hplus es)
        · exact absurd h (hminus es)

/-! ### Integers of any size -/

/-- The text is a row of digits, with at most one sign before it, and this is their value. -/
def SpellsInteger (s : List Char) (n : ℤ) : Prop :=
  ∃ ds, ds ≠ [] ∧ Digits ds ∧
    ((s = ds ∨ s = '+' :: ds) ∧ n = decimal ds ∨ s = '-' :: ds ∧ n = -(decimal ds : ℤ))

theorem spellsSigned_iff {s : List Char} {n : ℤ} :
    SpellsSigned s n ↔ SpellsInteger s n ∧ -2 ^ 63 ≤ n ∧ n < 2 ^ 63 := by
  constructor
  · rintro ⟨ds, hne, hds, h, hbits⟩
    exact ⟨⟨ds, hne, hds, h⟩, hbits⟩
  · rintro ⟨⟨ds, hne, hds, h⟩, hbits⟩
    exact ⟨ds, hne, hds, h, hbits⟩

/-- A text spells one integer at most, since a sign is no digit. -/
theorem SpellsInteger.unique {s : List Char} {m n : ℤ} (h : SpellsInteger s m)
    (h' : SpellsInteger s n) : m = n := by
  have hplus : isDigit '+' = false := by decide
  have hminus : isDigit '-' = false := by decide
  obtain ⟨ds, -, hds, ⟨rfl | rfl, rfl⟩ | ⟨rfl, rfl⟩⟩ := h <;>
    obtain ⟨es, -, hes, ⟨rfl | heq, rfl⟩ | ⟨heq, rfl⟩⟩ := h' <;>
    simp_all

/-- The decimal writing of an integer spells it. -/
theorem spellsInteger_toString (n : ℤ) : SpellsInteger (toString n).toList n := by
  have hdigits (m : ℕ) : Nat.toDigits 10 m ≠ [] ∧ Digits (Nat.toDigits 10 m) ∧
      m = decimal (Nat.toDigits 10 m) := by
    rw [← padded_one]
    exact ⟨padded_ne_nil 1 m, digits_padded 1 m, (decimal_padded 1 m).symm⟩
  cases n with
  | ofNat m =>
    obtain ⟨hne, hds, hm⟩ := hdigits m
    exact ⟨_, hne, hds, Or.inl ⟨Or.inl Nat.toList_repr, congrArg _ hm⟩⟩
  | negSucc m =>
    obtain ⟨hne, hds, hm⟩ := hdigits (m + 1)
    have hrepr : toString (Int.negSucc m) = "-" ++ (m + 1).repr := rfl
    refine ⟨_, hne, hds, Or.inr ⟨by simp [hrepr], ?_⟩⟩
    rw [← hm]
    rfl

/-- There is no white space in an integer. -/
theorem SpellsInteger.not_white {s : List Char} {n : ℤ} (h : SpellsInteger s n) :
    s ≠ [] ∧ ∀ c ∈ s, isWhite c = false := by
  obtain ⟨ds, hne, hds, h⟩ := h
  have hdigits (c : Char) (hc : c ∈ ds) : isWhite c = false :=
    isWhite_eq_false_of_isDigit (hds c hc)
  have hsigned {sign : Char} (hsign : isWhite sign = false) :
      sign :: ds ≠ [] ∧ ∀ c ∈ sign :: ds, isWhite c = false :=
    ⟨List.cons_ne_nil _ _, List.forall_mem_cons.mpr ⟨hsign, hdigits⟩⟩
  rcases h with ⟨rfl | rfl, -⟩ | ⟨rfl, -⟩
  · exact ⟨hne, hdigits⟩
  · exact hsigned (by decide)
  · exact hsigned (by decide)

end MailRules.Text
