import Mathlib
import MailRules.Proofs.Json.Quotation

/-!
# Words and numbers are read by the grammar

A number has no end of its own. What the reader takes for one is a number of the grammar
(`exists_of_number?`), and a number of the grammar is read as a whole if what follows does not go on
with it (`exists_number?_of_numeral`). Either way it is read as it would be alone (`ShowsNumber`).
Its value does not matter here: a number that no type can hold is well formed.
-/

namespace MailRules.Json

open MailRules.Text

/-! ## Words -/

section Words

variable {s : List Char} {rest : List Glyph} {token : Token Word}

theorem exists_of_spell {w : Word} {cs : List Char}
    (hgood : (spell w cs (glyphs s)).1.skipped = .ok ()) :
    ∃ t, s = cs ++ t ∧ spell w cs (glyphs s) = (.good w, glyphs t) := by
  induction cs generalizing s with
  | nil => exact ⟨s, rfl, rfl⟩
  | cons c cs ih =>
    cases s with
    | nil => cases hgood
    | cons d s =>
      have hstep : spell w (c :: cs) (glyphs (d :: s)) =
          if Glyph.char d = .char c then spell w cs (glyphs s)
          else (.bad .malformed, glyphs s) := rfl
      rw [hstep] at hgood ⊢
      split at hgood
      · rename_i hd
        obtain rfl := Glyph.char.inj hd
        obtain ⟨t, rfl, hspell⟩ := ih hgood
        exact ⟨t, rfl, (if_pos rfl).trans hspell⟩
      · cases hgood

theorem exists_of_word? (h : word? (glyphs s) = some (token, rest))
    (hgood : token.skipped = .ok ()) :
    ∃ w t, s = w.letters ++ t ∧ token = .good w ∧ glyphs t = rest := by
  have hspell {w : Word} {c : Char} {cs t : List Char} (hw : w.letters = c :: cs)
      (hs : s = c :: t) (h : spell w cs (glyphs t) = (token, rest)) :
      ∃ w t, s = w.letters ++ t ∧ token = .good w ∧ glyphs t = rest := by
    have hgood' : (spell w cs (glyphs t)).1.skipped = .ok () := by rw [h]; exact hgood
    obtain ⟨u, rfl, hread⟩ := exists_of_spell hgood'
    obtain ⟨rfl, rfl⟩ := Prod.mk.inj (h.symm.trans hread)
    exact ⟨w, u, by rw [hs, hw, List.cons_append], rfl, rfl⟩
  unfold word? at h
  split at h
  case h_1 hs =>
    obtain ⟨t, rfl, rfl⟩ := exists_of_glyphs_cons hs
    exact hspell (w := .null) rfl rfl (Option.some.inj h)
  case h_2 hs =>
    obtain ⟨t, rfl, rfl⟩ := exists_of_glyphs_cons hs
    exact hspell (w := .yes) rfl rfl (Option.some.inj h)
  case h_3 hs =>
    obtain ⟨t, rfl, rfl⟩ := exists_of_glyphs_cons hs
    exact hspell (w := .no) rfl rfl (Option.some.inj h)
  case h_4 => cases h

end Words

/-! ## Numbers -/

section Numbers

variable {s ds whole fraction exponent : List Char} {rest : List Glyph} {negative : Bool}

theorem exists_digitRun (s : List Char) :
    ∃ ds t, s = ds ++ t ∧ Digits ds ∧ digitRun (glyphs s) = (ds, glyphs t) := by
  induction s with
  | nil => exact ⟨[], [], rfl, digits_nil, rfl⟩
  | cons c s ih =>
    by_cases hc : isDigit c = true
    · obtain ⟨ds, t, rfl, hds, hrun⟩ := ih
      refine ⟨c :: ds, t, rfl, digits_cons.mpr ⟨hc, hds⟩, ?_⟩
      rw [glyphs_cons, digitRun, if_pos hc, hrun]
    · refine ⟨[], c :: s, rfl, digits_nil, ?_⟩
      rw [glyphs_cons, digitRun, if_neg hc]

theorem exists_exponentSign (s : List Char) :
    ∃ sign t below, s = sign ++ t ∧ (sign = [] ∨ sign = ['+'] ∨ sign = ['-']) ∧
      exponentSign (glyphs s) = (below, glyphs t) := by
  cases s with
  | nil => exact ⟨[], [], false, rfl, Or.inl rfl, rfl⟩
  | cons c s =>
    by_cases hplus : c = '+'
    · subst hplus
      exact ⟨['+'], s, false, rfl, Or.inr (Or.inl rfl), rfl⟩
    · by_cases hminus : c = '-'
      · subst hminus
        exact ⟨['-'], s, true, rfl, Or.inr (Or.inr rfl), rfl⟩
      · refine ⟨[], c :: s, false, rfl, Or.inl rfl, ?_⟩
        rw [glyphs_cons]
        unfold exponentSign
        split <;> simp_all

theorem numberEnd_mark {mark : Char} (hmark : mark = 'e' ∨ mark = 'E') (s : List Glyph) :
    numberEnd negative whole fraction (.char mark :: s) =
      if (digitRun (exponentSign s).2).1.isEmpty then missingDigit (digitRun (exponentSign s).2).2
      else
        (⟨Number.ofParts negative whole fraction (some
          (if (exponentSign s).1 then -(decimal (digitRun (exponentSign s).2).1 : ℤ)
            else decimal (digitRun (exponentSign s).2).1)), .ok ()⟩,
          (digitRun (exponentSign s).2).2) := by
  rcases hmark with rfl | rfl <;> rfl

theorem numberEnd_of_not_mark (h : ∀ t, rest ≠ .char 'e' :: t ∧ rest ≠ .char 'E' :: t) :
    numberEnd negative whole fraction rest =
      (⟨Number.ofParts negative whole fraction none, .ok ()⟩, rest) := by
  unfold numberEnd
  split
  · exact absurd rfl (h _).1
  · exact absurd rfl (h _).2
  · rfl

/-- An exponent, or nothing, does not go on with digits or with a point. -/
theorem Exponent.head?_append (he : Exponent exponent) (hrest : Delimits rest) {c : Char}
    (h : (glyphs exponent ++ rest).head? = some (.char c)) : isDigit c = false ∧ c ≠ '.' := by
  rcases he with rfl | ⟨mark, sign, ds, rfl, rfl | rfl, -⟩
  · exact ⟨(hrest c h).1, (hrest c h).2.1⟩
  · obtain rfl : 'e' = c := by simpa [glyphs] using h
    decide
  · obtain rfl : 'E' = c := by simpa [glyphs] using h
    decide

theorem exponentSign_append {sign : List Char} (hsign : sign = [] ∨ sign = ['+'] ∨ sign = ['-'])
    (hds : Digits ds) (hne : ds ≠ []) :
    ∃ below, ∀ rest,
      exponentSign (glyphs sign ++ (glyphs ds ++ rest)) = (below, glyphs ds ++ rest) := by
  obtain ⟨d, es, rfl⟩ := List.exists_cons_of_ne_nil hne
  have hd (c : Char) (hc : isDigit c = false) : d ≠ c := by
    rintro rfl
    rw [(digits_cons.mp hds).1] at hc
    cases hc
  rcases hsign with rfl | rfl | rfl
  · refine ⟨false, fun rest ↦ ?_⟩
    change exponentSign (.char d :: (glyphs es ++ rest)) = _
    unfold exponentSign
    split
    · rename_i heq
      exact absurd (Glyph.char.inj (List.cons.inj heq).1) (hd '+' (by decide))
    · rename_i heq
      exact absurd (Glyph.char.inj (List.cons.inj heq).1) (hd '-' (by decide))
    · rfl
  · exact ⟨false, fun _ ↦ rfl⟩
  · exact ⟨true, fun _ ↦ rfl⟩

theorem Exponent.head?_ne (he : Exponent exponent) {c : Char}
    (h : (glyphs exponent).head? = some (.char c)) : isDigit c = false ∧ c ≠ '.' :=
  he.head?_append delimits_nil (by rwa [List.append_nil])

/-! ### What is read is in the grammar -/

/-- What ends a number without trouble is an exponent or nothing, and is read so by itself. -/
theorem exists_of_numberEnd
    (hgood : (numberEnd negative whole fraction (glyphs s)).1.skipped = .ok ()) :
    ∃ e t, s = e ++ t ∧ Exponent e ∧
      (numberEnd negative whole fraction (glyphs s)).2 = glyphs t ∧
      numberEnd negative whole fraction (glyphs e) =
        ((numberEnd negative whole fraction (glyphs s)).1, []) := by
  by_cases h : ∃ mark t, s = mark :: t ∧ (mark = 'e' ∨ mark = 'E')
  · obtain ⟨mark, t, rfl, hmark⟩ := h
    obtain ⟨sign, t, below, rfl, hsign, hread⟩ := exists_exponentSign t
    obtain ⟨ds, t, rfl, hds, hrun⟩ := exists_digitRun t
    rw [glyphs_cons, numberEnd_mark hmark, hread, hrun] at hgood ⊢
    split at hgood
    · cases hgood
    · rename_i hne
      -- the sign is the same whatever follows the digits
      obtain ⟨below', hsigned⟩ := exponentSign_append hsign hds (by simpa using hne)
      have hbelow := hsigned (glyphs t)
      rw [← glyphs_append, ← glyphs_append, hread] at hbelow
      obtain ⟨rfl, -⟩ := Prod.mk.inj hbelow
      have halone := hsigned []
      rw [List.append_nil, ← glyphs_append] at halone
      have hdigits := digitRun_append hds delimits_nil
      rw [List.append_nil] at hdigits
      rw [if_neg hne]
      refine ⟨mark :: (sign ++ ds), t, by simp, ?_, rfl, ?_⟩
      · exact Or.inr ⟨mark, sign, ds, rfl, hmark, hsign, hds, by simpa using hne⟩
      · rw [glyphs_cons, numberEnd_mark hmark, halone, hdigits, if_neg hne]
  · have hmark : ∀ t, glyphs s ≠ .char 'e' :: t ∧ glyphs s ≠ .char 'E' :: t := by
      refine fun t ↦ ⟨fun ht ↦ ?_, fun ht ↦ ?_⟩
      · obtain ⟨t, rfl, -⟩ := exists_of_glyphs_cons ht
        exact h ⟨_, t, rfl, Or.inl rfl⟩
      · obtain ⟨t, rfl, -⟩ := exists_of_glyphs_cons ht
        exact h ⟨_, t, rfl, Or.inr rfl⟩
    rw [numberEnd_of_not_mark hmark]
    exact ⟨[], s, rfl, Or.inl rfl, rfl, numberEnd_of_delimits _ _ _ delimits_nil⟩

theorem afterWhole_point (hwhole : Whole whole) (s : List Glyph) :
    afterWhole negative whole (.char '.' :: s) =
      if (digitRun s).1.isEmpty then missingDigit (digitRun s).2
      else numberEnd negative whole (digitRun s).1 (digitRun s).2 := by
  obtain ⟨-, hne, hzero⟩ := hwhole
  unfold afterWhole
  split
  · exact absurd rfl hne
  · exact absurd rfl (hzero _ _)
  · simp_all
  · simp_all

theorem afterWhole_of_not_point (hwhole : Whole whole) (h : ∀ t, rest ≠ .char '.' :: t) :
    afterWhole negative whole rest = numberEnd negative whole [] rest := by
  obtain ⟨-, hne, hzero⟩ := hwhole
  unfold afterWhole
  split
  · exact absurd rfl hne
  · exact absurd rfl (hzero _ _)
  · exact absurd rfl (h _)
  · rfl

/-- A number that is read without trouble has digits before its point, and no zero before them. -/
theorem whole_of_afterWhole (hdigits : Digits whole)
    (hgood : (afterWhole negative whole rest).1.skipped = .ok ()) : Whole whole := by
  refine ⟨hdigits, ?_, ?_⟩
  · rintro rfl
    cases hgood
  · rintro d ds rfl
    cases hgood

/-- After the whole part of a number that is read without trouble comes what the grammar has, and
that is read so by itself. -/
theorem exists_of_afterWhole (hwhole : Whole whole)
    (hgood : (afterWhole negative whole (glyphs s)).1.skipped = .ok ()) :
    ∃ f e t, s = f ++ e ++ t ∧ Fraction f ∧ Exponent e ∧
      (afterWhole negative whole (glyphs s)).2 = glyphs t ∧
      afterWhole negative whole (glyphs f ++ glyphs e) =
        ((afterWhole negative whole (glyphs s)).1, []) := by
  by_cases h : ∃ t, s = '.' :: t
  · obtain ⟨t, rfl⟩ := h
    obtain ⟨ds, t, rfl, hds, hrun⟩ := exists_digitRun t
    rw [glyphs_cons, afterWhole_point hwhole, hrun] at hgood ⊢
    split at hgood
    · cases hgood
    · rename_i hne
      obtain ⟨e, t, rfl, hexponent, hend, halone⟩ := exists_of_numberEnd hgood
      have hdigits : digitRun (glyphs ds ++ glyphs e) = (ds, glyphs e) :=
        digitRun_of_stops hds fun c hc ↦ (hexponent.head?_ne hc).1
      rw [if_neg hne]
      refine ⟨'.' :: ds, e, t, by simp, Or.inr ⟨ds, rfl, hds, by simpa using hne⟩, hexponent, hend,
        ?_⟩
      rw [glyphs_cons, List.cons_append, afterWhole_point hwhole, hdigits, if_neg hne, halone]
  · have hpoint : ∀ t, glyphs s ≠ .char '.' :: t := by
      intro t ht
      obtain ⟨t, rfl, -⟩ := exists_of_glyphs_cons ht
      exact h ⟨t, rfl⟩
    rw [afterWhole_of_not_point hwhole hpoint] at hgood ⊢
    obtain ⟨e, t, rfl, hexponent, hend, halone⟩ := exists_of_numberEnd hgood
    have hnone : ∀ t, glyphs e ≠ .char '.' :: t := fun t ht ↦
      (hexponent.head?_ne (by rw [ht]; rfl)).2 rfl
    exact ⟨[], e, t, rfl, Or.inl rfl, hexponent, hend,
      (afterWhole_of_not_point hwhole hnone).trans halone⟩

/-- What follows the whole part of a number does not go on with its digits. -/
theorem Fraction.head?_append (hf : Fraction fraction) (he : Exponent exponent)
    (hrest : Delimits rest) {c : Char}
    (h : (glyphs fraction ++ (glyphs exponent ++ rest)).head? = some (.char c)) :
    isDigit c = false := by
  rcases hf with rfl | ⟨ds, rfl, -⟩
  · exact (he.head?_append hrest h).1
  · obtain rfl : '.' = c := by simpa [glyphs] using h
    decide

/-- The token is a good one, and what the reader makes of the numeral alone. -/
structure ShowsNumber (token : Token Number) (s : List Char) : Prop where
  good : token.skipped = .ok ()
  alone : number? (glyphs s) = some (token, [])

/-- What is read without trouble is a number that the grammar has. -/
theorem exists_of_number? {token : Token Number} (h : number? (glyphs s) = some (token, rest))
    (hgood : token.skipped = .ok ()) :
    ∃ u t, s = u ++ t ∧ Numeral u ∧ ShowsNumber token u ∧ glyphs t = rest := by
  -- the sign is read first, and what follows is the same with and without it
  have hafter {negative : Bool} {whole t : List Char} (sign : List Char)
      (hsign : sign = [] ∧ negative = false ∨ sign = ['-'] ∧ negative = true)
      (hdigits : Digits whole) (hs : s = sign ++ (whole ++ t))
      (hread : afterWhole negative whole (glyphs t) = (token, rest)) :
      ∃ u t, s = u ++ t ∧ Numeral u ∧ ShowsNumber token u ∧ glyphs t = rest := by
    have hgood' : (afterWhole negative whole (glyphs t)).1.skipped = .ok () := by rwa [hread]
    have hwhole := whole_of_afterWhole hdigits hgood'
    obtain ⟨f, e, v, rfl, hfraction, hexponent, hrest, halone⟩ := exists_of_afterWhole hwhole hgood'
    rw [hread] at hrest halone
    have hstops (c : Char) (hc : (glyphs f ++ glyphs e).head? = some (.char c)) :
        isDigit c = false :=
      hfraction.head?_append hexponent delimits_nil (by rwa [List.append_nil])
    refine ⟨sign ++ whole ++ f ++ e, v, by simp [hs],
      .mk (hsign.imp And.left And.left) hwhole hfraction hexponent, ⟨hgood, ?_⟩, hrest.symm⟩
    rw [glyphs_append, glyphs_append, glyphs_append, List.append_assoc, List.append_assoc]
    rcases hsign with ⟨rfl, rfl⟩ | ⟨rfl, rfl⟩
    · exact (number?_digits hwhole.1 hwhole.2.1 hstops).trans (congrArg some halone)
    · have hminus (t : List Glyph) : glyphs ['-'] ++ t = .char '-' :: t := rfl
      rw [hminus, number?_minus, digitRun_of_stops hwhole.1 hstops, halone]
  unfold number? at h
  split at h
  case h_1 hs =>
    obtain ⟨t, rfl, rfl⟩ := exists_of_glyphs_cons hs
    obtain ⟨ds, t, rfl, hds, hrun⟩ := exists_digitRun t
    rw [hrun] at h
    exact hafter ['-'] (Or.inr ⟨rfl, rfl⟩) hds rfl (Option.some.inj h)
  case h_2 c u _ hs =>
    obtain ⟨t, rfl, rfl⟩ := exists_of_glyphs_cons hs
    obtain ⟨ds, t, rfl, hds, hrun⟩ := exists_digitRun t
    rw [hrun] at h
    split at h
    · rename_i hc
      exact hafter [] (Or.inl ⟨rfl, rfl⟩) (digits_cons.mpr ⟨hc, hds⟩) rfl (Option.some.inj h)
    · cases h
  case h_3 => cases h

/-! ### The grammar is read -/

theorem exists_numberEnd (negative : Bool) (whole fraction : List Char) (he : Exponent exponent) :
    ∃ token : Token Number, token.skipped = .ok () ∧ ∀ rest, Delimits rest →
      numberEnd negative whole fraction (glyphs exponent ++ rest) = (token, rest) := by
  rcases he with rfl | ⟨mark, sign, ds, rfl, hmark, hsign, hds, hne⟩
  · exact ⟨⟨_, .ok ()⟩, rfl, fun rest hrest ↦ numberEnd_of_delimits _ _ _ hrest⟩
  · obtain ⟨below, hread⟩ := exponentSign_append hsign hds hne
    refine ⟨⟨Number.ofParts negative whole fraction
      (some (if below then -(decimal ds : ℤ) else decimal ds)), .ok ()⟩, rfl, fun rest hrest ↦ ?_⟩
    rw [glyphs_cons, glyphs_append, List.cons_append, List.append_assoc, numberEnd_mark hmark,
      hread, digitRun_append hds hrest, if_neg (by simpa using hne)]

theorem exists_afterWhole (negative : Bool) (hwhole : Whole whole) (hf : Fraction fraction)
    (he : Exponent exponent) :
    ∃ token : Token Number, token.skipped = .ok () ∧ ∀ rest, Delimits rest →
      afterWhole negative whole (glyphs fraction ++ (glyphs exponent ++ rest)) = (token, rest) := by
  rcases hf with rfl | ⟨ds, rfl, hds, hne⟩
  · obtain ⟨token, hgood, hread⟩ := exists_numberEnd negative whole [] he
    refine ⟨token, hgood, fun rest hrest ↦ ?_⟩
    have hpoint : ∀ t, glyphs exponent ++ rest ≠ .char '.' :: t := by
      intro t ht
      exact (he.head?_append hrest (by rw [ht]; rfl)).2 rfl
    exact (afterWhole_of_not_point hwhole hpoint).trans (hread rest hrest)
  · obtain ⟨token, hgood, hread⟩ := exists_numberEnd negative whole ds he
    refine ⟨token, hgood, fun rest hrest ↦ ?_⟩
    have hrun : digitRun (glyphs ds ++ (glyphs exponent ++ rest)) = (ds, glyphs exponent ++ rest) :=
      digitRun_of_stops hds fun c hc ↦ (he.head?_append hrest hc).1
    rw [glyphs_cons, List.cons_append, afterWhole_point hwhole, hrun,
      if_neg (by simpa using hne), hread rest hrest]

/-- **A number is read as far as it goes**, if nothing that goes on with it follows. -/
theorem exists_number?_of_numeral (h : Numeral s) :
    ∃ token : Token Number, ShowsNumber token s ∧ ∀ rest, Delimits rest →
      number? (glyphs s ++ rest) = some (token, rest) := by
  have halone {token : Token Number} (hgood : token.skipped = .ok ())
      (hread : ∀ rest, Delimits rest → number? (glyphs s ++ rest) = some (token, rest)) :
      ShowsNumber token s ∧ ∀ rest, Delimits rest →
        number? (glyphs s ++ rest) = some (token, rest) :=
    ⟨⟨hgood, by simpa using hread [] delimits_nil⟩, hread⟩
  obtain @⟨sign, whole, fraction, exponent, hsign, hwhole, hf, he⟩ := h
  simp only [glyphs_append, List.append_assoc] at halone ⊢
  rcases hsign with rfl | rfl
  · obtain ⟨token, hgood, hread⟩ := exists_afterWhole false hwhole hf he
    refine ⟨token, halone hgood fun rest hrest ↦ ?_⟩
    exact (number?_digits hwhole.1 hwhole.2.1 fun c hc ↦ hf.head?_append he hrest hc).trans
      (congrArg some (hread rest hrest))
  · obtain ⟨token, hgood, hread⟩ := exists_afterWhole true hwhole hf he
    refine ⟨token, halone hgood fun rest hrest ↦ ?_⟩
    have hrun := digitRun_of_stops hwhole.1 fun c hc ↦ hf.head?_append he hrest hc
    have hminus (t : List Glyph) : glyphs ['-'] ++ t = .char '-' :: t := rfl
    rw [hminus, number?_minus, hrun, hread rest hrest]

/-- The token of an integer as it is written. -/
theorem ShowsNumber.eq_writtenNumber {token : Token Number} {n : ℤ}
    (h : ShowsNumber token (writtenInt n)) : token = writtenNumber n := by
  have hwritten := number?_writtenInt n delimits_nil
  rw [List.append_nil, h.alone] at hwritten
  exact (Prod.mk.inj (Option.some.inj hwritten)).1

end Numbers

end MailRules.Json
