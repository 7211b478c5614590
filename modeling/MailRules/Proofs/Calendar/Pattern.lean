import MailRules.Calendar.Pattern
import MailRules.Proofs.Calendar.Scan

/-!
# Reading by pattern

A pattern is read piece by piece, so what holds of a pattern is shown of a piece and carried along
by induction (`fill?_append`, `exists_of_fill?`).
-/

namespace MailRules.Calendar

open MailRules.Text

variable {s u w ds rest : List Char} {r r' : Reading} {piece : Piece} {p q : Pattern}

namespace Piece

/-! ## Numbers -/

theorem twoDigits?_append (hw : White w) (hds : Digits ds) (hlo : 1 ≤ ds.length)
    (hhi : ds.length ≤ 2) (hstop : ds.length = 2 ∨ Stops isDigit rest) :
    twoDigits? (w ++ (ds ++ rest)) = some (decimal ds, rest) := by
  rw [twoDigits?, trimStart_append_of_white hw,
    trimStart_of_stops (hds.stops_white (List.ne_nil_of_length_pos hlo))]
  exact digits?_append hds hlo hhi hstop

theorem twoDigits?_padded {n : ℕ} (h : (padded 2 n).length = 2) (rest : List Char) :
    twoDigits? (padded 2 n ++ rest) = some (n, rest) := by
  have hread : twoDigits? ([] ++ (padded 2 n ++ rest)) = _ :=
    twoDigits?_append white_nil (digits_padded 2 n) (length_padded_pos 2 n) h.le (Or.inl h)
  rwa [List.nil_append, decimal_padded] at hread

theorem exists_of_twoDigits? {n : ℕ} (h : twoDigits? s = some (n, rest)) :
    ∃ w ds, s = w ++ (ds ++ rest) ∧ White w ∧ Digits ds ∧ 1 ≤ ds.length ∧ ds.length ≤ 2 ∧
      (ds.length = 2 ∨ Stops isDigit rest) ∧ n = decimal ds := by
  obtain ⟨w, hw, hs⟩ := exists_trimStart s
  obtain ⟨ds, htrim, hds, hlo, hhi, hstop, rfl⟩ := digits?_eq_some_iff.mp h
  exact ⟨w, ds, by rw [← htrim, ← hs], hw, hds, hlo, hhi, hstop, rfl⟩

/-- A number starts with white space or with a digit. -/
theorem stops_letter_of_twoDigits? {n : ℕ} (h : twoDigits? s = some (n, rest)) :
    Stops MailDate.isLetter s := by
  obtain ⟨w, ds, rfl, hw, hds, hlo, -⟩ := exists_of_twoDigits? h
  have hw' : Stops MailDate.isLetter w := stops_of_all hw fun _ ↦ isLetter_eq_false_of_isWhite
  exact hw'.append (stops_append_of_all hds (List.ne_nil_of_length_pos hlo)
    fun _ ↦ isLetter_eq_false_of_isDigit)

/-- A year without a sign has up to four digits. -/
theorem signedYear?_of_stops (h : Stops (fun c ↦ c == '-' || c == '+') s) :
    signedYear? s = (digits? 1 4 s).map fun (n, rest) ↦ ((n : ℤ), rest) := by
  rw [signedYear?]
  · rintro rest rfl
    cases stops_cons.mp h
  · rintro rest rfl
    cases stops_cons.mp h

theorem stops_sign_of_digits (hds : Digits ds) (hne : ds ≠ []) :
    Stops (fun c ↦ c == '-' || c == '+') (ds ++ rest) :=
  stops_append_of_all hds hne fun _ hdigit ↦
    Bool.or_eq_false_iff.mpr ⟨beq_eq_false_of hdigit rfl, beq_eq_false_of hdigit rfl⟩

theorem signedYear?_append (hds : Digits ds) (hlo : 1 ≤ ds.length) (hhi : ds.length ≤ 4)
    (hstop : ds.length = 4 ∨ Stops isDigit rest) :
    signedYear? (ds ++ rest) = some ((decimal ds : ℤ), rest) := by
  rw [signedYear?_of_stops (stops_sign_of_digits hds (List.ne_nil_of_length_pos hlo)),
    digits?_append hds hlo hhi hstop]
  rfl

theorem exists_of_signedYear? {n : ℤ} (h : signedYear? s = some (n, rest)) :
    ∃ sign ds, s = sign ++ (ds ++ rest) ∧ (sign = [] ∨ sign = ['-'] ∨ sign = ['+']) ∧
      Digits ds ∧ ds ≠ [] := by
  rw [signedYear?.eq_def] at h
  split at h
  · obtain ⟨⟨_, _⟩, hnumeral, hn⟩ := Option.map_eq_some_iff.mp h
    obtain ⟨rfl, rfl⟩ := Prod.mk.inj hn
    obtain ⟨ds, rfl, hds, hne, -, -⟩ := numeral?_eq_some_iff.mp hnumeral
    exact ⟨['-'], ds, rfl, Or.inr (Or.inl rfl), hds, hne⟩
  · obtain ⟨⟨_, _⟩, hnumeral, hn⟩ := Option.map_eq_some_iff.mp h
    obtain ⟨rfl, rfl⟩ := Prod.mk.inj hn
    obtain ⟨ds, rfl, hds, hne, -, -⟩ := numeral?_eq_some_iff.mp hnumeral
    exact ⟨['+'], ds, rfl, Or.inr (Or.inr rfl), hds, hne⟩
  · obtain ⟨⟨_, _⟩, hdigits, hn⟩ := Option.map_eq_some_iff.mp h
    obtain ⟨rfl, rfl⟩ := Prod.mk.inj hn
    obtain ⟨ds, rfl, hds, hlo, -, -, -⟩ := digits?_eq_some_iff.mp hdigits
    exact ⟨[], ds, rfl, Or.inl rfl, hds, List.ne_nil_of_length_pos hlo⟩

/-! ## Offsets -/

theorem skip?_colonsOrWhite_digits (hds : Digits ds) (hne : ds ≠ []) :
    OffsetGap.colonsOrWhite.skip? (ds ++ rest) = some (ds ++ rest) := by
  have hstops : Stops (fun c ↦ c == ':' || isWhite c) (ds ++ rest) :=
    stops_append_of_all hds hne fun _ hdigit ↦
      Bool.or_eq_false_iff.mpr ⟨beq_eq_false_of hdigit rfl, isWhite_eq_false_of_isDigit hdigit⟩
  rw [OffsetGap.skip?, dropWhile_of_stops hstops]

theorem offset_read?_text (o : Offset) (rest : List Char) :
    offsetForm.read? (o.text [] ++ rest) = some (o.seconds, rest) := by
  refine offsetForm.read?_text o [] rest ?_
  rw [List.nil_append]
  exact skip?_colonsOrWhite_digits (digits_padded 2 o.minutes) (padded_ne_nil 2 o.minutes)

/-! ## Parentheses -/

/-- No parenthesis is taken by a scan that does not take parentheses. -/
theorem open_not_mem {p : Char → Bool} (hp : p '(' = false) (hu : ∀ c ∈ u, p c = true) :
    '(' ∉ u := fun hmem ↦ by
  rw [hu _ hmem] at hp
  cases hp

theorem open_not_mem_of_white (hw : White w) : '(' ∉ w := open_not_mem (by decide) hw

theorem open_not_mem_of_digits (hds : Digits ds) : '(' ∉ ds := open_not_mem (by decide) hds

theorem exists_of_offsetForm_read? {v : ℤ} (h : offsetForm.read? s = some (v, rest)) :
    ∃ u, s = u ++ rest ∧ '(' ∉ u := by
  rw [OffsetForm.read?_eq_signed? fun hzulu ↦ absurd hzulu (by decide)] at h
  obtain ⟨c, -, hours, middle, minutes, rfl, hc, -, hhours, -, hskip, hminutes, -⟩ :=
    OffsetForm.signed?_eq_some h
  have hbetween :
      middle = middle.takeWhile (fun c ↦ c == ':' || isWhite c) ++ (minutes ++ rest) := by
    rw [← Option.some.inj hskip]
    exact List.takeWhile_append_dropWhile.symm
  have hsign : c ≠ '(' := by
    rcases hc with rfl | rfl | ⟨-, rfl⟩ <;> decide
  refine ⟨c :: (hours ++ (middle.takeWhile (fun c ↦ c == ':' || isWhite c) ++ minutes)), ?_, ?_⟩
  · rw [List.cons_append, List.append_assoc, List.append_assoc, ← hbetween]
  · simp only [List.mem_cons, List.mem_append]
    rintro (hmem | hmem | hmem | hmem)
    · exact hsign hmem.symm
    · exact open_not_mem_of_digits hhours hmem
    · exact absurd (List.mem_takeWhile_imp hmem) (by decide)
    · exact open_not_mem_of_digits hminutes hmem

theorem exists_of_map {α : Type} {o : Option (α × List Char)}
    {f : α × List Char → Reading × List Char} (hf : ∀ a s, (f (a, s)).2 = s)
    (h : o.map f = some (r', rest)) : ∃ a, o = some (a, rest) ∧ r' = (f (a, rest)).1 := by
  obtain ⟨⟨a, s⟩, rfl, hfound⟩ := Option.map_eq_some_iff.mp h
  have hrest := hf a s
  rw [hfound] at hrest
  obtain rfl : rest = s := hrest
  exact ⟨a, rfl, by rw [hfound]⟩

/-- What a piece takes has no parenthesis in it. -/
theorem exists_of_read? (hpiece : piece ≠ .literal '(') (h : piece.read? r s = some (r', rest)) :
    ∃ u, s = u ++ rest ∧ '(' ∉ u := by
  have htwo {n : ℕ} (hn : twoDigits? s = some (n, rest)) : ∃ u, s = u ++ rest ∧ '(' ∉ u := by
    obtain ⟨w, ds, rfl, hw, hds, -⟩ := exists_of_twoDigits? hn
    refine ⟨w ++ ds, (List.append_assoc _ _ _).symm, ?_⟩
    rw [List.mem_append]
    exact not_or_intro (open_not_mem_of_white hw) (open_not_mem_of_digits hds)
  obtain ⟨w, hw, hs⟩ := exists_trimStart s
  cases piece with
  | year =>
    obtain ⟨n, hn, -⟩ := exists_of_map (fun _ _ ↦ rfl) h
    obtain ⟨sign, ds, htrim, hsign, hds, -⟩ := exists_of_signedYear? hn
    refine ⟨w ++ (sign ++ ds), by rw [List.append_assoc, List.append_assoc, ← htrim, ← hs], ?_⟩
    have hopen : '(' ∉ sign := by rcases hsign with rfl | rfl | rfl <;> decide
    simp only [List.mem_append, not_or]
    exact ⟨open_not_mem_of_white hw, hopen, open_not_mem_of_digits hds⟩
  | month => exact htwo (exists_of_map (fun _ _ ↦ rfl) h).choose_spec.1
  | day => exact htwo (exists_of_map (fun _ _ ↦ rfl) h).choose_spec.1
  | hour => exact htwo (exists_of_map (fun _ _ ↦ rfl) h).choose_spec.1
  | minute => exact htwo (exists_of_map (fun _ _ ↦ rfl) h).choose_spec.1
  | second => exact htwo (exists_of_map (fun _ _ ↦ rfl) h).choose_spec.1
  | monthName =>
    obtain ⟨n, hn, -⟩ := exists_of_map (fun _ _ ↦ rfl) h
    obtain ⟨u, place, rfl, hu, -⟩ := exists_of_monthName? hn
    exact ⟨u, rfl, open_not_mem (by decide) (isLetter_of_monthName? hu).2⟩
  | weekdayName =>
    obtain ⟨n, hn, -⟩ := exists_of_map (fun _ _ ↦ rfl) h
    obtain ⟨u, rfl, hu⟩ := name?_eq_some_iff.mp hn
    exact ⟨u, rfl, open_not_mem (by decide) (isLetter_of_weekdayName? hu).2⟩
  | offset =>
    obtain ⟨n, hn, -⟩ := exists_of_map (fun _ _ ↦ rfl) h
    obtain ⟨u, htrim, hu⟩ := exists_of_offsetForm_read? hn
    refine ⟨w ++ u, by rw [List.append_assoc, ← htrim, ← hs], ?_⟩
    rw [List.mem_append]
    exact not_or_intro (open_not_mem_of_white hw) hu
  | blank =>
    obtain ⟨-, rfl⟩ := Prod.mk.inj (Option.some.inj h)
    exact ⟨w, hs, open_not_mem_of_white hw⟩
  | literal c =>
    obtain ⟨_, hrest, heq⟩ := Option.map_eq_some_iff.mp h
    obtain ⟨-, rfl⟩ := Prod.mk.inj heq
    refine ⟨[c], literal?_eq_some_iff.mp hrest, ?_⟩
    rw [List.mem_singleton]
    rintro rfl
    exact hpiece rfl

/-- No piece is for parts of a second. -/
theorem nanos_read? (h : piece.read? r s = some (r', rest)) : r'.nanos = r.nanos := by
  cases piece with
  | blank => exact congrArg Reading.nanos (Prod.mk.inj (Option.some.inj h)).1.symm
  | literal c =>
    obtain ⟨_, -, heq⟩ := Option.map_eq_some_iff.mp h
    exact congrArg Reading.nanos (Prod.mk.inj heq).1.symm
  | _ =>
    obtain ⟨n, -, rfl⟩ := exists_of_map (fun _ _ ↦ rfl) h
    rfl

end Piece

namespace Pattern

/-! ## Pieces in a row -/

theorem fill?_append (p q : Pattern) (r : Reading) (s : List Char) :
    fill? (p ++ q) r s = (fill? p r s).bind fun (r, s) ↦ fill? q r s := by
  induction p generalizing r s with
  | nil => rfl
  | cons piece p ih =>
    simp only [List.cons_append, fill?, Option.bind_eq_bind]
    cases piece.read? r s with
    | none => rfl
    | some found => exact ih found.1 found.2

@[simp] theorem fill?_nil (r : Reading) (s : List Char) : fill? [] r s = some (r, s) := rfl

@[simp] theorem fill?_blank (p : Pattern) (r : Reading) (s : List Char) :
    fill? (.blank :: p) r s = fill? p r (trimStart s) := rfl

theorem read?_eq_some_iff : p.read? s = some r ↔ p.fill? {} s = some (r, []) := by
  rw [read?]
  split
  · rename_i r' heq
    rw [heq]
    simp
  · rename_i hne
    constructor
    · intro h
      cases h
    · intro h
      exact absurd h (hne r)

theorem read?_eq_none_of_fill? (h : p.fill? {} s = none) : p.read? s = none := by
  rw [read?, h]

theorem fill?_append_of_eq (h : p.fill? r s = some (r', rest)) :
    (p ++ q).fill? r s = q.fill? r' rest := by
  rw [fill?_append, h]
  rfl

theorem fill?_number_append {f : ℕ → Reading}
    (hpiece : ∀ s, piece.read? r s = (Piece.twoDigits? s).map fun (n, s) ↦ (f n, s))
    (hw : White w) (hds : Digits ds) (hlen : ds.length = 2) :
    fill? (piece :: p) r (w ++ (ds ++ s)) = p.fill? (f (decimal ds)) s := by
  rw [fill?, hpiece, Piece.twoDigits?_append hw hds (by omega) hlen.le (Or.inl hlen)]
  rfl

theorem fill?_hour_of_stops (h : Stops isDigit (trimStart s)) : fill? (.hour :: p) r s = none := by
  rw [fill?, Piece.read?, Piece.twoDigits?, digits?_eq_none_of_stops (by decide) h]
  rfl

theorem fill?_year_append (hds : Digits ds) (hlo : 1 ≤ ds.length) (hhi : ds.length ≤ 4)
    (hstop : ds.length = 4 ∨ Stops isDigit s) :
    fill? (.year :: p) r (ds ++ s) = p.fill? { r with year := decimal ds } s := by
  rw [fill?, Piece.read?, trimStart_of_stops (hds.stops_white (List.ne_nil_of_length_pos hlo)),
    Piece.signedYear?_append hds hlo hhi hstop]
  rfl

theorem fill?_weekdayName_of_stops (h : Stops MailDate.isLetter s) :
    fill? (.weekdayName :: p) r s = none := by
  rw [fill?, Piece.read?, weekdayName?_eq_none_of_stops h]
  rfl

theorem fill?_offset_text (r : Reading) (o : Offset) :
    fill? [.offset] r (o.text []) = some ({ r with offset := some o.seconds }, []) := by
  have hread := Piece.offset_read?_text o []
  rw [List.append_nil] at hread
  rw [fill?, Piece.read?, o.trimStart_text, hread]
  rfl

/-- Where a pattern asks for a character the text has it. -/
theorem exists_of_fill?_literal {c : Char} {x : Reading × List Char}
    (h : fill? (.literal c :: p) r s = some x) : ∃ t, s = c :: t ∧ fill? p r t = some x := by
  obtain ⟨⟨r₁, s₁⟩, hliteral, h⟩ := Option.bind_eq_some_iff.mp h
  obtain ⟨t, ht, heq⟩ := Option.map_eq_some_iff.mp hliteral
  obtain ⟨rfl, rfl⟩ := Prod.mk.inj heq
  exact ⟨t, literal?_eq_some_iff.mp ht, h⟩

theorem exists_of_fill? (hp : .literal '(' ∉ p) (h : p.fill? r s = some (r', rest)) :
    ∃ u, s = u ++ rest ∧ '(' ∉ u := by
  induction p generalizing r s with
  | nil =>
    obtain ⟨-, rfl⟩ := Prod.mk.inj (Option.some.inj h)
    exact ⟨[], rfl, List.not_mem_nil⟩
  | cons piece p ih =>
    obtain ⟨hpiece, hp⟩ := not_or.mp (mt List.mem_cons.mpr hp)
    obtain ⟨⟨r₁, s₁⟩, hread, hfill⟩ := Option.bind_eq_some_iff.mp h
    obtain ⟨u, rfl, hu⟩ := Piece.exists_of_read? (Ne.symm hpiece) hread
    obtain ⟨v, rfl, hv⟩ := ih hp hfill
    refine ⟨u ++ v, (List.append_assoc _ _ _).symm, ?_⟩
    rw [List.mem_append]
    exact not_or_intro hu hv

theorem nanos_fill? (h : p.fill? r s = some (r', rest)) : r'.nanos = r.nanos := by
  induction p generalizing r s with
  | nil => exact congrArg Reading.nanos (Prod.mk.inj (Option.some.inj h)).1.symm
  | cons piece p ih =>
    obtain ⟨⟨r₁, s₁⟩, hread, hfill⟩ := Option.bind_eq_some_iff.mp h
    exact (ih hfill).trans (Piece.nanos_read? hread)

/-- A pattern without parentheses covers no text that has one. -/
theorem read?_eq_none_of_open (hp : .literal '(' ∉ p) (hs : '(' ∈ s) : p.read? s = none := by
  rw [Option.eq_none_iff_forall_ne_some]
  intro r h
  obtain ⟨u, rfl, hu⟩ := exists_of_fill? hp (read?_eq_some_iff.mp h)
  rw [List.append_nil] at hs
  exact hu hs

end Pattern

end MailRules.Calendar
