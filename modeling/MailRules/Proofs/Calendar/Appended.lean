import MailRules.Proofs.Calendar.Alike
import MailRules.Proofs.Calendar.Padding
import MailRules.Proofs.Rule.Evaluation

/-!
# A date with an offset behind it

What becomes of a text when a blank and an offset are written behind it. Two readers are out of the
question from then on: a text that ends in a sign and four digits is no timestamp, whose offset has
a colon, and it is covered by none of the patterns without a zone, which end in a number of two
digits. So it is a mail date or nothing but a pattern with an offset reads it
(`instant?_append_offset`).

What a pattern without a zone reads of the date alone, it still reads of the strict form of both,
and leaves the offset (`exists_fill?_of_read?`). Trimming and padding are invisible to it, which is
what `Alike` is for.
-/

namespace MailRules.Calendar

open MailRules.Text Received

variable {c : Char} {s t u v w rest ds : List Char} {r r' : Reading} {p : Pattern} {n : ℕ}

/-! ## How a text ends -/

/-- An offset without a colon ends in four digits, so that no number of less than four is the last
one of a text that ends in it. -/
theorem append_offset_ne (o : Offset) (v : List Char) (hc : isDigit c = false)
    (hlen : ds.length < 4) : v ++ o.text [] ≠ u ++ c :: ds := by
  intro h
  have hdigits : Digits (padded 2 o.hours ++ padded 2 o.minutes) :=
    digits_append.mpr ⟨digits_padded _ _, digits_padded _ _⟩
  have hfour : (padded 2 o.hours ++ padded 2 o.minutes).length = 4 := by
    rw [List.length_append, o.length_hours, o.length_minutes]
  have hsplit : (v ++ [o.sign]) ++ (padded 2 o.hours ++ padded 2 o.minutes) = (u ++ [c]) ++ ds := by
    simpa [Offset.text] using h
  -- The number would start behind the sign, inside the four digits or before the sign.
  rcases List.append_eq_append_iff.mp hsplit with ⟨as, hu, has⟩ | ⟨bs, -, hbs⟩
  · rcases List.eq_nil_or_concat as with rfl | ⟨as, e, rfl⟩
    · rw [has, List.nil_append] at hfour
      omega
    · rw [List.concat_eq_append, ← List.append_assoc] at hu
      obtain rfl : c = e := by simpa using (List.append_inj' hu rfl).2
      rw [hdigits c (by rw [has]; simp)] at hc
      cases hc
  · have hge := congrArg List.length hbs
    rw [List.length_append, hfour] at hge
    omega

/-- The forms without a zone end in a mark and a number of two digits. -/
theorem exists_front (hp : p ∈ Pattern.zoneless) :
    ∃ front c piece, p = front ++ [.literal c, piece] ∧ isDigit c = false ∧
      .literal '(' ∉ front ∧ (piece = .day ∨ piece = .minute ∨ piece = .second) := by
  simp only [Pattern.zoneless, List.mem_cons, List.not_mem_nil, or_false] at hp
  rcases hp with rfl | rfl | rfl | rfl | rfl
  · exact ⟨Pattern.isoDate ++ [.blank] ++ Pattern.shortTime, ':', .second, rfl, rfl, by decide,
      Or.inr (Or.inr rfl)⟩
  · exact ⟨Pattern.isoDate ++ [.literal 'T'] ++ Pattern.shortTime, ':', .second, rfl, rfl,
      by decide, Or.inr (Or.inr rfl)⟩
  · exact ⟨Pattern.isoDate ++ [.blank, .hour], ':', .minute, rfl, rfl, by decide,
      Or.inr (Or.inl rfl)⟩
  · exact ⟨Pattern.mailDate ++ [.blank] ++ Pattern.shortTime, ':', .second, rfl, rfl, by decide,
      Or.inr (Or.inr rfl)⟩
  · exact ⟨[.year, .literal '-', .month], '-', .day, rfl, rfl, by decide, Or.inl rfl⟩

/-- A date without a zone ends in a number of one or two digits. -/
theorem exists_number_of_zoneless (hp : p ∈ Pattern.zoneless) (h : p.read? s = some r) :
    ∃ u c ds, s = u ++ c :: ds ∧ isDigit c = false ∧ Digits ds ∧ ds ≠ [] ∧ ds.length ≤ 2 := by
  obtain ⟨front, c, piece, rfl, hc, hfront, hpiece⟩ := exists_front hp
  rw [Pattern.read?_eq_some_iff, Pattern.fill?_append] at h
  obtain ⟨⟨r₁, s₁⟩, hfill, hlast⟩ := Option.bind_eq_some_iff.mp h
  obtain ⟨u, rfl, -⟩ := Pattern.exists_of_fill? hfront hfill
  obtain ⟨⟨r₂, s₂⟩, hliteral, hlast⟩ := Option.bind_eq_some_iff.mp hlast
  obtain ⟨⟨r₃, s₃⟩, hnumber, hlast⟩ := Option.bind_eq_some_iff.mp hlast
  obtain ⟨-, rfl⟩ := Prod.mk.inj (Option.some.inj hlast)
  obtain ⟨n, hn⟩ : ∃ n, Piece.twoDigits? s₂ = some (n, []) := by
    rcases hpiece with rfl | rfl | rfl <;>
      exact (Piece.exists_of_map (fun _ _ ↦ rfl) hnumber).imp fun _ h ↦ h.1
  obtain ⟨s₂', hs₂, heq⟩ := Option.map_eq_some_iff.mp hliteral
  obtain ⟨-, rfl⟩ := Prod.mk.inj heq
  obtain ⟨w, ds, rfl, hw, hds, hlo, hhi, -⟩ := Piece.exists_of_twoDigits? hn
  have hne := List.ne_nil_of_length_pos hlo
  rw [literal?_eq_some_iff.mp hs₂]
  -- The number stands behind the mark or behind the white space after it.
  rcases List.eq_nil_or_concat w with rfl | ⟨w, b, rfl⟩
  · exact ⟨u, c, ds, by simp, hc, hds, hne, hhi⟩
  · rw [List.concat_eq_append] at hw
    have hb : isDigit b = false :=
      isDigit_eq_false_of_isWhite (by simpa using (white_append.mp hw).2)
    exact ⟨u ++ c :: w, b, ds, by simp, hb, hds, hne, hhi⟩

theorem zoneless_read?_append_offset (hp : p ∈ Pattern.zoneless) (o : Offset) (v : List Char) :
    p.read? (v ++ o.text []) = none := by
  rw [Option.eq_none_iff_forall_ne_some]
  intro r h
  obtain ⟨u, c, ds, hs, hc, -, -, hlen⟩ := exists_number_of_zoneless hp h
  exact append_offset_ne o v hc (Nat.lt_of_le_of_lt hlen (by decide)) hs

theorem suffix_of_digits? {lo hi : ℕ} (h : digits? lo hi s = some (n, rest)) : rest <:+ s := by
  obtain ⟨ds, rfl, -⟩ := digits?_eq_some_iff.mp h
  exact List.suffix_append ds rest

theorem suffix_of_literal? (h : literal? c s = some rest) : rest <:+ s := by
  rw [literal?_eq_some_iff.mp h]
  exact List.suffix_cons c rest

theorem suffix_of_separator? (h : Timestamp.separator? s = some rest) : rest <:+ s := by
  rw [Timestamp.separator?.eq_def] at h
  split at h
  · exact Option.some.inj h ▸ List.suffix_cons _ _
  · exact Option.some.inj h ▸ List.suffix_cons _ _
  · exact Option.some.inj h ▸ List.suffix_cons _ _
  · cases h

/-- A fraction is nothing, or a point and digits. -/
theorem exists_of_fraction? (h : fraction? s = some (n, rest)) :
    s = rest ∨ ∃ ds, s = '.' :: (ds ++ rest) ∧ Digits ds ∧ ds ≠ [] := by
  rw [fraction?.eq_def] at h
  split at h
  · rename_i after
    obtain ⟨ds, tail, rfl, hds, htail⟩ := exists_scan isDigit after
    simp only [takeWhile_append_of_stops hds htail, List.drop_left] at h
    split at h
    · cases h
    · rename_i hne
      obtain ⟨-, rfl⟩ := Prod.mk.inj (Option.some.inj h)
      exact Or.inr ⟨ds, rfl, hds, by simpa using hne⟩
  · obtain ⟨-, rfl⟩ := Prod.mk.inj (Option.some.inj h)
    exact Or.inl rfl

/-- A timestamp ends in an offset behind a digit. -/
theorem exists_offset_of_timestamp (h : Timestamp.read? s = some r) :
    ∃ u d t v, s = u ++ d :: t ∧ isDigit d = true ∧
      Timestamp.offsetForm.read? t = some (v, []) := by
  simp only [Timestamp.read?, Option.bind_eq_bind, Option.bind_eq_some_iff, Prod.exists] at h
  obtain ⟨_, s₁, h₁, s₂, h₂, _, s₃, h₃, s₄, h₄, _, s₅, h₅, s₆, h₆, _, s₇, h₇, s₈, h₈, _, s₉, h₉,
    s₁₀, h₁₀, _, s₁₁, h₁₁, _, s₁₂, h₁₂, v, s₁₃, h₁₃, hend⟩ := h
  -- Up to the seconds it is enough that every step leaves a part of the text.
  have hdate : s₆ <:+ s :=
    (suffix_of_separator? h₆).trans <| (suffix_of_digits? h₅).trans <|
      (suffix_of_literal? h₄).trans <| (suffix_of_digits? h₃).trans <|
        (suffix_of_literal? h₂).trans (suffix_of_digits? h₁)
  have htime : s₁₀ <:+ s₆ :=
    (suffix_of_literal? h₁₀).trans <| (suffix_of_digits? h₉).trans <|
      (suffix_of_literal? h₈).trans (suffix_of_digits? h₇)
  obtain ⟨u, rfl⟩ := htime.trans hdate
  obtain ⟨seconds, rfl, hseconds, hlen, -⟩ := digits?_eq_some_iff.mp h₁₁
  obtain rfl : s₁₃ = [] := by
    split at hend
    · exact List.isEmpty_iff.mp ‹_›
    · cases hend
  rcases exists_of_fraction? h₁₂ with rfl | ⟨ds, rfl, hds, hne⟩
  · obtain ⟨es, d, rfl, hd⟩ :=
      hseconds.exists_concat (List.ne_nil_of_length_pos (Nat.lt_of_lt_of_le (by decide) hlen))
    exact ⟨u ++ es, d, s₁₁, v, by simp, hd, h₁₃⟩
  · obtain ⟨es, d, rfl, hd⟩ := hds.exists_concat hne
    exact ⟨u ++ (seconds ++ '.' :: es), d, s₁₂, v, by simp, hd, h₁₃⟩

/-- A timestamp ends in a letter, or in two digits behind a colon. -/
theorem exists_of_timestamp (h : Timestamp.read? s = some r) :
    ∃ u c ds, s = u ++ c :: ds ∧ isDigit c = false ∧ ds.length < 4 := by
  obtain ⟨u, d, t, v, rfl, -, hoffset⟩ := exists_offset_of_timestamp h
  rcases OffsetForm.read?_cases hoffset with rfl | rfl | hsigned
  · exact ⟨u ++ [d], 'Z', [], by simp, rfl, by decide⟩
  · exact ⟨u ++ [d], 'z', [], by simp, rfl, by decide⟩
  · obtain ⟨c, -, hours, middle, minutes, rfl, -, -, -, -, hskip, -, hlen, -⟩ :=
      OffsetForm.signed?_eq_some hsigned
    obtain rfl : middle = ':' :: (minutes ++ []) := literal?_eq_some_iff.mp hskip
    exact ⟨u ++ d :: c :: hours, ':', minutes, by simp, rfl, by omega⟩

theorem timestamp_append_offset (o : Offset) (v : List Char) :
    Timestamp.read? (v ++ o.text []) = none := by
  rw [Option.eq_none_iff_forall_ne_some]
  intro r h
  obtain ⟨u, c, ds, hs, hc, hlen⟩ := exists_of_timestamp h
  exact append_offset_ne o v hc hlen hs

/-! ## What is read of a date and the offset behind it -/

/-- A text with an offset behind it, made strict. -/
def withOffset (o : Offset) (s : List Char) : List Char := strict (trim (s ++ ' ' :: o.text []))

/-- A word is all that follows, but for white space. -/
theorem exists_trim_append_word (hs : trim s ≠ []) :
    ∃ w, White w ∧ ∀ word : List Char, word ≠ [] → Stops isWhite word.reverse →
      trim (s ++ ' ' :: word) = trim s ++ (w ++ ' ' :: word) := by
  obtain ⟨u, w, hu, hw, hsplit, htrim⟩ := exists_trim s
  refine ⟨w, hw, fun word hne hword ↦ ?_⟩
  have htrimmed : Trimmed (trim s ++ (w ++ ' ' :: word)) := by
    refine ⟨(stops_append_of_ne_nil hs).mpr htrim.start, ?_⟩
    simp only [List.reverse_append, List.reverse_cons, List.append_assoc]
    exact (stops_append_of_ne_nil (by simpa using hne)).mpr hword
  have h := trim_of_trimmed hu white_nil htrimmed
  rw [List.append_nil] at h
  conv_lhs => rw [hsplit, List.append_assoc, List.append_assoc]
  exact h

theorem exists_trim_append_offset (o : Offset) (s : List Char) (hs : trim s ≠ []) :
    ∃ w, White w ∧ trim (s ++ ' ' :: o.text []) = trim s ++ (w ++ ' ' :: o.text []) :=
  (exists_trim_append_word hs).imp fun _ ⟨hw, htrim⟩ ↦
    ⟨hw, htrim _ (List.cons_ne_nil _ _) (Offset.stops_white_reverse [] o [])⟩

theorem withOffset_eq (o : Offset) (hs : trim s ≠ []) :
    ∃ w, White w ∧ withOffset o s = padHour (trim s ++ (w ++ ' ' :: o.text [])) := by
  obtain ⟨w, hw, htrim⟩ := exists_trim_append_offset o s hs
  obtain ⟨u, hu⟩ := Offset.exists_append_text (trim s ++ (w ++ [' '])) o []
  have hdigits : trim s ++ (w ++ ' ' :: o.text []) = u ++ padded 2 o.minutes := by
    rw [← hu]
    simp
  refine ⟨w, hw, ?_⟩
  rw [withOffset, htrim, hdigits, strict_append_digits (digits_padded _ _) (padded_ne_nil _ _)]

theorem alike_followed_offset (o : Offset) (hw : White w) : Alike (Followed (w ++ o.text [])) := by
  have hsign : Stops isDigit (o.text []) := o.stops_text rfl rfl []
  refine alike_followed ?_ ?_
  · exact (stops_of_all hw fun _ ↦ isDigit_eq_false_of_isWhite).append hsign
  · rwa [trimStart_append_of_white hw, o.trimStart_text]

/-- What a pattern reads of a date, it reads of the date with its offset. -/
theorem exists_fill?_withOffset (o : Offset) (hs : trim s ≠ []) :
    ∃ w, White w ∧ ∀ {p : Pattern} {r r' : Reading} {rest : List Char},
      (∀ piece ∈ p, piece.plain = true) → p.fill? r (trim s) = some (r', rest) →
        ∃ m y, p.fill? r (withOffset o s) = some (r', y) ∧ Followed (w ++ o.text []) rest m ∧
          Padded m y := by
  obtain ⟨w, hw, heq⟩ := withOffset_eq o hs
  have hwhite : White (w ++ [' ']) := white_append.mpr ⟨hw, white_blank⟩
  have hfollowed := alike_followed_offset o hwhite
  refine ⟨w ++ [' '], hwhite, fun hplain hfill ↦ ?_⟩
  obtain ⟨m, hm, hfollow⟩ := hfollowed.fill? hplain hfill (Or.inl rfl)
  obtain ⟨y, hy, hpad⟩ := alike_padded.fill? hplain hm (padded_padHour _)
  refine ⟨m, y, ?_, hfollow, hpad⟩
  rw [heq, ← hy]
  simp

/-- Nothing is padded in front of an offset. -/
theorem eq_of_padded_offset (o : Offset) (hw : White w) (h : Padded (w ++ o.text []) t) :
    t = w ++ o.text [] := by
  have hsign : startsShortHour (o.text []) = false :=
    startsShortHour_eq_false_of_stops (o.stops_text rfl rfl [])
  have hend : padAfterWhite (o.text [] ++ []) = o.text [] ++ [] :=
    padAfterWhite_append_of_not_white fun _ ↦ (MailDate.spellsZone_offset o).isWhite_eq_false
  rw [List.append_nil] at hend
  rcases h with rfl | rfl | ⟨hshort, -⟩
  · rfl
  · rw [padAfterWhite_append_of_white hw hsign, hend]
  · rw [startsShortHour_white_append hw hsign] at hshort
    cases hshort

theorem exists_fill?_of_read? (o : Offset) (hplain : ∀ piece ∈ p, piece.plain = true)
    (hs : trim s ≠ []) (h : p.read? (trim s) = some r) :
    ∃ y, p.fill? {} (withOffset o s) = some (r, y) ∧ trimStart y = o.text [] := by
  obtain ⟨w, hw, htransfer⟩ := exists_fill?_withOffset o hs
  obtain ⟨m, y, hy, hfollow, hpad⟩ := htransfer hplain (Pattern.read?_eq_some_iff.mp h)
  refine ⟨y, hy, ?_⟩
  rcases hfollow with rfl | ⟨-, rfl⟩
  · rw [List.nil_append] at hpad
    rw [eq_of_padded_offset o hw hpad, trimStart_append_of_white hw, o.trimStart_text]
  · rw [trimStart_append_of_white hw, o.trimStart_text] at hpad
    rw [eq_of_padded_offset (w := []) o white_nil hpad, List.nil_append, o.trimStart_text]

/-! ## Which readers are left -/

/-- With the offset behind it a text is a mail date, or it is read by one of the patterns that have
an offset. -/
theorem instant?_append_offset (zone : Zone) (o : Offset) (hs : trim s ≠ []) :
    instant? zone (s ++ ' ' :: o.text []) =
      ((MailDate.read? (withOffset o s)).bind Reading.instant? <|>
        Pattern.zoned.findSome? fun p ↦ (p.read? (withOffset o s)).bind Reading.instant?) := by
  obtain ⟨w, -, htrim⟩ := exists_trim_append_offset o s hs
  have hsplit : trim (s ++ ' ' :: o.text []) = (trim s ++ (w ++ [' '])) ++ o.text [] := by
    rw [htrim]
    simp
  have hstamp : Timestamp.read? (trim (s ++ ' ' :: o.text [])) = none := by
    rw [hsplit]
    exact timestamp_append_offset o _
  have hzoneless : zonelessTime? (trim (s ++ ' ' :: o.text [])) = none := by
    refine List.findSome?_eq_none_iff.mpr fun p hp ↦ ?_
    rw [hsplit, zoneless_read?_append_offset hp o]
    rfl
  rw [instant?, zonedInstant?, hstamp, hzoneless]
  simp only [Option.orElse_eq_orElse, Option.orElse_eq_or, Option.bind_none, Option.none_or,
    Option.or_none, withOffset]

end MailRules.Calendar
