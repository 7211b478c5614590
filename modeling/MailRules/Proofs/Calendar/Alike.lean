import MailRules.Proofs.Calendar.Pattern
import MailRules.Proofs.Calendar.Strict

/-!
# Texts that read alike

A date that is put to a reader in another form, with something after it or with its hour padded, is
read as before as long as the reader does not notice. `Alike R` says when a relation between texts
is of this kind: marks are kept, so is the place where white space ends, and a row of digits keeps
its value. Every piece then reads the same from related texts and leaves related rests
(`Alike.piece_read?`), and so does every pattern (`Alike.fill?`).

Two relations are alike in this sense. `Followed` puts a text behind another one, and `Padded` pads
a short hour.
-/

namespace MailRules.Calendar

open MailRules.Text Received

variable {c : Char} {s s' t u rest ds : List Char} {r r' : Reading} {piece : Piece} {p : Pattern}

/-- The piece reads no offset, and no mark that white space or digits could be taken for. -/
def Piece.plain : Piece → Bool
  | .offset => false
  | .literal c => !isWhite c && !isDigit c
  | _ => true

/-- Reading goes on in the same way from related texts. -/
structure Alike (R : List Char → List Char → Prop) : Prop where
  /-- Nothing is put in front of a character that is neither white nor a digit. -/
  mark {c : Char} {s s' : List Char} : isWhite c = false → isDigit c = false → R (c :: s) s' →
    ∃ t, s' = c :: t ∧ R s t
  trimStart {s s' : List Char} : R s s' → R (trimStart s) (trimStart s')
  /-- A row of digits is kept, or it is a single one before a colon and gets a zero. -/
  row {ds rest s' : List Char} : Digits ds → ds ≠ [] → R (ds ++ rest) s' →
    ∃ es rest', s' = es ++ rest' ∧ R rest rest' ∧
      (es = ds ∨ es = '0' :: ds ∧ ds.length = 1 ∧ ∃ t, rest' = ':' :: t)
  stops {s s' : List Char} : R s s' → Stops isDigit s → Stops isDigit s'

/-! ## The two relations -/

/-- The text followed by `t`, white space between them included. -/
def Followed (t s s' : List Char) : Prop := s' = s ++ t ∨ s = [] ∧ s' = trimStart t

theorem alike_followed (ht : Stops isDigit t) (ht' : Stops isDigit (trimStart t)) :
    Alike (Followed t) where
  mark {c s s'} _ _ h := by
    obtain rfl : s' = c :: s ++ t := h.resolve_right fun h ↦ by cases h.1
    exact ⟨s ++ t, rfl, Or.inl rfl⟩
  trimStart {s s'} h := by
    rcases h with rfl | ⟨rfl, rfl⟩
    · by_cases hs : White s
      · right
        rw [trimStart_append_of_white hs]
        exact ⟨trimStart_eq_nil_iff.mpr hs, rfl⟩
      · exact Or.inl (trimStart_append_of_not_white hs)
    · exact Or.inr ⟨rfl, trimStart_of_stops (stops_trimStart t)⟩
  row {ds rest s'} _ hne h := by
    obtain rfl : s' = ds ++ rest ++ t :=
      h.resolve_right fun h ↦ hne (List.append_eq_nil_iff.mp h.1).1
    exact ⟨ds, rest ++ t, List.append_assoc _ _ _, Or.inl rfl, Or.inl rfl⟩
  stops {s s'} h hs := by
    rcases h with rfl | ⟨-, rfl⟩
    · exact hs.append ht
    · exact ht'

theorem alike_padded : Alike Padded where
  mark hwhite hdigit h := h.exists_cons hwhite hdigit
  trimStart h := h.trimStart
  row {ds rest s'} hds hne h := by
    rcases h with rfl | rfl | ⟨hshort, rfl⟩
    · exact ⟨ds, rest, rfl, Or.inl rfl, Or.inl rfl⟩
    · refine ⟨ds, padAfterWhite rest, ?_, Or.inr (Or.inl rfl), Or.inl rfl⟩
      exact padAfterWhite_append_of_not_white fun c hc ↦ isWhite_eq_false_of_isDigit (hds c hc)
    · -- The row is the short hour, since a colon follows it.
      obtain ⟨d, t, hsplit, -⟩ := exists_of_startsShortHour hshort
      match ds with
      | [] => exact absurd rfl hne
      | [e] =>
        obtain ⟨rfl, rfl⟩ := List.cons.inj hsplit
        exact ⟨['0', e], ':' :: t, rfl, Or.inl rfl, Or.inr ⟨rfl, rfl, t, rfl⟩⟩
      | e :: f :: ds =>
        obtain ⟨-, hcolon⟩ := List.cons.inj hsplit
        obtain ⟨rfl, -⟩ := List.cons.inj hcolon
        cases hds ':' (by simp)
  stops {s s'} h hs := by
    rcases h with rfl | rfl | ⟨hshort, rfl⟩
    · exact hs
    · exact stops_padAfterWhite hs
    · rw [startsShortHour_eq_false_of_stops hs] at hshort
      cases hshort

/-! ## What is read -/

namespace Alike

variable {R : List Char → List Char → Prop} {n lo hi : ℕ}

theorem letters (hR : Alike R) (hu : ∀ c ∈ u, MailDate.isLetter c = true) (h : R (u ++ rest) s') :
    ∃ rest', s' = u ++ rest' ∧ R rest rest' := by
  induction u generalizing s' with
  | nil => exact ⟨s', rfl, h⟩
  | cons c u ih =>
    obtain ⟨hc, hu⟩ := List.forall_mem_cons.mp hu
    obtain ⟨t, rfl, ht⟩ :=
      hR.mark (isWhite_eq_false_of_isLetter hc) (isDigit_eq_false_of_isLetter hc) h
    obtain ⟨rest', rfl, hrest⟩ := ih hu ht
    exact ⟨rest', rfl, hrest⟩

theorem digits? (hR : Alike R) (hlo : 1 ≤ lo) (hhi : 2 ≤ hi)
    (hread : Text.digits? lo hi s = some (n, rest)) (h : R s s') :
    ∃ rest', Text.digits? lo hi s' = some (n, rest') ∧ R rest rest' := by
  obtain ⟨ds, rfl, hds, hle, hge, hstop, rfl⟩ := digits?_eq_some_iff.mp hread
  obtain ⟨es, rest', rfl, hrest, hes⟩ :=
    hR.row hds (List.ne_nil_of_length_pos (hlo.trans hle)) h
  refine ⟨rest', ?_, hrest⟩
  rcases hes with rfl | ⟨rfl, hlen, t, rfl⟩
  · exact digits?_append hds hle hge (hstop.imp_right (hR.stops hrest))
  · have hzero : Digits ('0' :: ds) := digits_cons.mpr ⟨rfl, hds⟩
    rw [digits?_append hzero (by rw [List.length_cons]; omega) (by rw [List.length_cons]; omega)
      (Or.inr (stops_cons.mpr rfl)), decimal_cons_zero]

theorem numeral? (hR : Alike R) (hread : Text.numeral? s = some (n, rest)) (h : R s s') :
    ∃ rest', Text.numeral? s' = some (n, rest') ∧ R rest rest' := by
  obtain ⟨ds, rfl, hds, hne, hstop, rfl⟩ := numeral?_eq_some_iff.mp hread
  obtain ⟨es, rest', rfl, hrest, hes⟩ := hR.row hds hne h
  refine ⟨rest', ?_, hrest⟩
  rcases hes with rfl | ⟨rfl, -, -⟩
  · exact numeral?_append hds hne (hR.stops hrest hstop)
  · have hzero : Digits ('0' :: ds) := digits_cons.mpr ⟨rfl, hds⟩
    rw [numeral?_append hzero (List.cons_ne_nil _ _) (hR.stops hrest hstop), decimal_cons_zero]

theorem twoDigits? (hR : Alike R) (hread : Piece.twoDigits? s = some (n, rest)) (h : R s s') :
    ∃ rest', Piece.twoDigits? s' = some (n, rest') ∧ R rest rest' :=
  hR.digits? le_rfl le_rfl hread (hR.trimStart h)

theorem signedYear? (hR : Alike R) {y : ℤ} (hread : Piece.signedYear? s = some (y, rest))
    (h : R s s') : ∃ rest', Piece.signedYear? s' = some (y, rest') ∧ R rest rest' := by
  rw [Piece.signedYear?.eq_def] at hread
  split at hread
  · obtain ⟨⟨n, _⟩, hn, heq⟩ := Option.map_eq_some_iff.mp hread
    obtain ⟨rfl, rfl⟩ := Prod.mk.inj heq
    obtain ⟨t, rfl, ht⟩ := hR.mark (by decide) (by decide) h
    obtain ⟨rest', hn', hrest⟩ := hR.numeral? hn ht
    exact ⟨rest', by rw [Piece.signedYear?, hn']; rfl, hrest⟩
  · obtain ⟨⟨n, _⟩, hn, heq⟩ := Option.map_eq_some_iff.mp hread
    obtain ⟨rfl, rfl⟩ := Prod.mk.inj heq
    obtain ⟨t, rfl, ht⟩ := hR.mark (by decide) (by decide) h
    obtain ⟨rest', hn', hrest⟩ := hR.numeral? hn ht
    exact ⟨rest', by rw [Piece.signedYear?, hn']; rfl, hrest⟩
  · obtain ⟨⟨n, _⟩, hn, heq⟩ := Option.map_eq_some_iff.mp hread
    obtain ⟨rfl, rfl⟩ := Prod.mk.inj heq
    obtain ⟨rest', hn', hrest⟩ := hR.digits? le_rfl (by decide) hn h
    obtain ⟨es, rfl, hes, hlo, -⟩ := digits?_eq_some_iff.mp hn'
    refine ⟨rest', ?_, hrest⟩
    rw [Piece.signedYear?_of_stops
      (Piece.stops_sign_of_digits hes (List.ne_nil_of_length_pos hlo)), hn']
    rfl

/-- A row of digits that is read from the second text stood in the first one as it is, unless a
colon follows it. -/
theorem exists_row (hR : Alike R) (hds : Digits ds) (hne : ds ≠ []) (hdigit : Stops isDigit t)
    (hcolon : Stops (· == ':') t) (h : R s (ds ++ t)) :
    ∃ rest, s = ds ++ rest ∧ R rest t ∧ Stops isDigit rest ∧ Stops (· == ':') rest := by
  obtain ⟨es, rest, rfl, hes, hrest⟩ := exists_scan isDigit s
  rcases eq_or_ne es [] with rfl | hne'
  · -- Without a digit in front of the first text there is none in front of the second.
    obtain ⟨d, ds, rfl⟩ := List.exists_cons_of_ne_nil hne
    have hstops := stops_cons.mp (hR.stops h hrest)
    rw [(digits_cons.mp hds).1] at hstops
    cases hstops
  obtain ⟨es', rest', hsplit, hR', hkept⟩ := hR.row hes hne' h
  have hes' : Digits es' := by
    rcases hkept with rfl | ⟨rfl, -⟩
    · exact hes
    · exact digits_cons.mpr ⟨rfl, hes⟩
  obtain ⟨rfl, rfl⟩ := Digits.append_inj hds hes' hdigit (hR.stops hR' hrest) hsplit
  obtain rfl : ds = es := hkept.resolve_right fun ⟨_, _, _, ht⟩ ↦ by
    rw [ht, stops_cons] at hcolon
    cases hcolon
  refine ⟨rest, rfl, hR', hrest, fun c hc ↦ beq_eq_false_iff_ne.mpr ?_⟩
  rintro rfl
  -- A colon would be kept.
  obtain ⟨rest, rfl⟩ := List.head?_eq_some_iff.mp hc
  obtain ⟨_, rfl, -⟩ := hR.mark (by decide) (by decide) hR'
  cases stops_cons.mp hcolon

/-- **Pieces read the same from related texts.** -/
theorem piece_read? (hR : Alike R) (hplain : piece.plain = true)
    (hread : piece.read? r s = some (r', rest)) (h : R s s') :
    ∃ rest', piece.read? r s' = some (r', rest') ∧ R rest rest' := by
  cases piece with
  | year =>
    obtain ⟨y, hy, rfl⟩ := Piece.exists_of_map (fun _ _ ↦ rfl) hread
    obtain ⟨rest', hy', hrest⟩ := hR.signedYear? hy (hR.trimStart h)
    exact ⟨rest', by rw [Piece.read?, hy']; rfl, hrest⟩
  | month | day | hour | minute | second =>
    obtain ⟨n, hn, rfl⟩ := Piece.exists_of_map (fun _ _ ↦ rfl) hread
    obtain ⟨rest', hn', hrest⟩ := hR.twoDigits? hn h
    exact ⟨rest', by rw [Piece.read?, hn']; rfl, hrest⟩
  | monthName =>
    obtain ⟨n, hn, rfl⟩ := Piece.exists_of_map (fun _ _ ↦ rfl) hread
    obtain ⟨u, place, rfl, hu, rfl⟩ := exists_of_monthName? hn
    obtain ⟨rest', rfl, hrest⟩ := hR.letters (isLetter_of_monthName? hu).2 h
    exact ⟨rest', by rw [Piece.read?, monthName?_append hu]; rfl, hrest⟩
  | weekdayName =>
    obtain ⟨n, hn, rfl⟩ := Piece.exists_of_map (fun _ _ ↦ rfl) hread
    obtain ⟨u, rfl, hu⟩ := name?_eq_some_iff.mp hn
    obtain ⟨rest', rfl, hrest⟩ := hR.letters (isLetter_of_weekdayName? hu).2 h
    exact ⟨rest', by rw [Piece.read?, weekdayName?, name?_append hu]; rfl, hrest⟩
  | offset => cases hplain
  | blank =>
    obtain ⟨rfl, rfl⟩ := Prod.mk.inj (Option.some.inj hread)
    exact ⟨_, rfl, hR.trimStart h⟩
  | literal c =>
    obtain ⟨hwhite, hdigit⟩ : isWhite c = false ∧ isDigit c = false := by
      simpa [Piece.plain] using hplain
    obtain ⟨_, hliteral, heq⟩ := Option.map_eq_some_iff.mp hread
    obtain ⟨rfl, rfl⟩ := Prod.mk.inj heq
    obtain rfl := literal?_eq_some_iff.mp hliteral
    obtain ⟨t, rfl, ht⟩ := hR.mark hwhite hdigit h
    exact ⟨t, by rw [Piece.read?, literal?_cons_self]; rfl, ht⟩

/-- **Patterns read the same from related texts.** -/
theorem fill? (hR : Alike R) (hplain : ∀ piece ∈ p, piece.plain = true)
    (hread : p.fill? r s = some (r', rest)) (h : R s s') :
    ∃ rest', p.fill? r s' = some (r', rest') ∧ R rest rest' := by
  induction p generalizing r s s' with
  | nil =>
    obtain ⟨rfl, rfl⟩ := Prod.mk.inj (Option.some.inj hread)
    exact ⟨s', rfl, h⟩
  | cons piece p ih =>
    obtain ⟨hpiece, hp⟩ := List.forall_mem_cons.mp hplain
    obtain ⟨⟨r₁, s₁⟩, hfirst, hnext⟩ := Option.bind_eq_some_iff.mp hread
    obtain ⟨t₁, hfirst', ht₁⟩ := hR.piece_read? hpiece hfirst h
    obtain ⟨rest', hnext', hrest⟩ := ih hp hnext ht₁
    refine ⟨rest', ?_, hrest⟩
    rw [Pattern.fill?, hfirst']
    exact hnext'

end Alike

end MailRules.Calendar
