import MailRules.Proofs.Calendar.Appended
import MailRules.Proofs.Calendar.Loosening
import MailRules.Proofs.Calendar.MailPattern

/-!
# Spellings of UTC

`UTC`, `Z` and `+0000` say the same behind a blank, whatever stands before it
(`receivedAt_append_utc`). The readers that take a text as it is read none of the three: a timestamp
has its letter behind a digit and a colon in its offset, and a date without a zone ends in a number
of two digits. What is left are the readers of strict forms, where the words have become the offset.

The strict forms differ in the white space before the offset. Before a word it is trimmed, and
before an offset it stays. But no reader minds how much of it there is (`read?_respaced`). In mail
dates the white space is a part of the grammar, and the offset is their last word. For patterns,
`Respaced` is one more relation between texts that read alike.
-/

namespace MailRules.Calendar

open MailRules.Text Received MailDate
open MailDate.Comment (textOfAll)

variable {c : Char} {s s' u v w w' suffix : List Char} {r : Reading} {p : Pattern} {o : Offset}

/-! ## White space before an offset -/

/-- The same text, or a text with an offset at its end and other white space before that. -/
def Respaced (o : Offset) (w w' s s' : List Char) : Prop :=
  s' = s ∨ ∃ u, s = u ++ (w ++ o.text []) ∧ s' = u ++ (w' ++ o.text [])

theorem alike_respaced (o : Offset) (hw : White w) (hne : w ≠ []) (hw' : White w')
    (hne' : w' ≠ []) : Alike (Respaced o w w') where
  mark {c s s'} hwhite _ h := by
    rcases h with rfl | ⟨u, hs, rfl⟩
    · exact ⟨s, rfl, Or.inl rfl⟩
    · -- The character is none of the white space.
      cases u with
      | nil =>
        obtain ⟨b, w, rfl⟩ := List.exists_cons_of_ne_nil hne
        obtain ⟨rfl, -⟩ := List.cons.inj hs
        rw [(white_cons.mp hw).1] at hwhite
        cases hwhite
      | cons b u =>
        obtain ⟨rfl, rfl⟩ := List.cons.inj hs
        exact ⟨u ++ (w' ++ o.text []), rfl, Or.inr ⟨u, rfl, rfl⟩⟩
  trimStart {s s'} h := by
    rcases h with rfl | ⟨u, rfl, rfl⟩
    · exact Or.inl rfl
    · by_cases hu : White u
      · simp only [trimStart_append_of_white hu, trimStart_append_of_white hw,
          trimStart_append_of_white hw']
        exact Or.inl rfl
      · rw [trimStart_append_of_not_white hu, trimStart_append_of_not_white hu]
        exact Or.inr ⟨_, rfl, rfl⟩
  row {ds rest s'} hds _ h := by
    rcases h with rfl | ⟨u, hs, rfl⟩
    · exact ⟨ds, rest, rfl, Or.inl rfl, Or.inl rfl⟩
    · -- The row ends before the white space.
      obtain ⟨es, t, rfl, hes, ht⟩ := exists_scan isDigit u
      obtain ⟨fs, rest, rfl, hfs, hrest⟩ := exists_scan isDigit rest
      rw [← List.append_assoc, List.append_assoc es] at hs
      obtain ⟨rfl, rfl⟩ := Digits.append_inj (digits_append.mpr ⟨hds, hfs⟩) hes hrest
        (ht.append (hw.stops_digit hne)) hs
      refine ⟨ds, fs ++ (t ++ (w' ++ o.text [])), by simp, Or.inr ⟨fs ++ t, by simp, by simp⟩,
        Or.inl rfl⟩
  stops {s s'} h hs := by
    rcases h with rfl | ⟨u, rfl, rfl⟩
    · exact hs
    · rcases eq_or_ne u [] with rfl | hu
      · rw [List.nil_append]
        exact hw'.stops_digit hne'
      · rw [stops_append_of_ne_nil hu] at hs ⊢
        exact hs

/-- An offset that reaches to the end of a text that ends in an offset is that one. -/
theorem eq_nil_of_offset_read? {z : ℤ}
    (h : Piece.offsetForm.read? (v ++ o.text []) = some (z, [])) : v = [] := by
  rw [OffsetForm.read?_eq_signed? fun hzulu ↦ absurd hzulu (by decide)] at h
  obtain ⟨c, -, hours, middle, minutes, htext, hc, -, hhours, hlen, hskip, -, hlen', -⟩ :=
    OffsetForm.signed?_eq_some h
  obtain ⟨between, rest, rfl, hbetween, hrest⟩ := exists_scan (fun c ↦ c == ':' || isWhite c) middle
  obtain rfl : minutes = rest := by
    rw [← dropWhile_append_of_stops hbetween hrest, ← List.append_nil minutes]
    exact (Option.some.inj hskip).symm
  rcases List.eq_nil_or_concat between with rfl | ⟨between, b, rfl⟩
  · -- Both offsets have five characters.
    have hlength := congrArg List.length htext
    simp only [Offset.text, List.length_append, List.length_cons, List.length_nil, hlen, hlen',
      o.length_hours, o.length_minutes] at hlength
    exact List.eq_nil_of_length_eq_zero (by omega)
  · -- What stands between hours and minutes is no digit, and before the last two there is one.
    have hb : isDigit b = false := by
      rcases Bool.or_eq_true_iff.mp (hbetween b (by simp)) with hcolon | hwhite
      · rw [beq_iff_eq.mp hcolon]
        rfl
      · exact isDigit_eq_false_of_isWhite hwhite
    have hsplit : v ++ o.text [] = (c :: (hours ++ between)) ++ b :: minutes := by
      rw [htext]
      simp
    exact absurd hsplit (append_offset_ne o v hb (by omega))

/-- A pattern that ends in an offset, and has plain pieces before it. -/
theorem exists_plain_front (hp : p ∈ Pattern.zoned) :
    ∃ front, p = front ++ [.blank, .offset] ∧ ∀ piece ∈ front, piece.plain = true := by
  simp only [Pattern.zoned, List.mem_cons, List.not_mem_nil, or_false] at hp
  rcases hp with rfl | rfl | rfl
  · exact ⟨Pattern.isoDate ++ [.blank] ++ Pattern.fullTime, rfl, by decide⟩
  · exact ⟨[.weekdayName, .literal ',', .blank] ++ Pattern.mailDate ++ [.blank] ++
      Pattern.shortTime, rfl, by decide⟩
  · exact ⟨Pattern.mailDate ++ [.blank] ++ Pattern.shortTime, rfl, by decide⟩

theorem zoned_read?_of_respaced (hp : p ∈ Pattern.zoned) (hw : White w) (hne : w ≠ [])
    (hw' : White w') (hne' : w' ≠ []) (h : p.read? (u ++ (w ++ o.text [])) = some r) :
    p.read? (u ++ (w' ++ o.text [])) = some r := by
  have halike := alike_respaced o hw hne hw' hne'
  obtain ⟨front, rfl, hplain⟩ := exists_plain_front hp
  rw [Pattern.read?_eq_some_iff, Pattern.fill?_append] at h
  obtain ⟨⟨r₁, s₁⟩, hfront, hoffset⟩ := Option.bind_eq_some_iff.mp h
  obtain ⟨s₂, hfront', hrest⟩ := halike.fill? hplain hfront (Or.inr ⟨u, rfl, rfl⟩)
  rw [Pattern.read?_eq_some_iff, Pattern.fill?_append_of_eq hfront']
  simp only [Pattern.fill?_blank] at hoffset ⊢
  -- Nothing but the offset is left of both texts.
  obtain heq | ⟨v, hv, -⟩ := halike.trimStart hrest
  · rwa [heq]
  · obtain ⟨⟨r₂, s₃⟩, hread, hend⟩ := Option.bind_eq_some_iff.mp hoffset
    obtain ⟨-, rfl⟩ := Prod.mk.inj (Option.some.inj hend)
    obtain ⟨z, hz, -⟩ := Piece.exists_of_map (fun _ _ ↦ rfl) hread
    rw [trimStart_of_stops (stops_trimStart s₁), hv, ← List.append_assoc] at hz
    exact absurd (List.append_eq_nil_iff.mp (eq_nil_of_offset_read? hz)).2 hne

theorem mailDate_read?_of_respaced (hw : White w) (hne : w ≠ []) (hw' : White w') (hne' : w' ≠ [])
    (h : MailDate.read? (u ++ (w ++ o.text [])) = some r) :
    MailDate.read? (u ++ (w' ++ o.text [])) = some r := by
  obtain ⟨header, cs, htext, rfl⟩ := read?_eq_some_iff.mp h
  -- The text ends in a digit, so it has no comments.
  have hcs : textOfAll cs = [] := by
    refine (textOfAll_eq_nil_or_concat cs).resolve_right ?_
    rintro ⟨v, hv⟩
    obtain ⟨x, hx⟩ := Offset.exists_append_text (u ++ w) o []
    obtain ⟨ds, d, hds, hd⟩ := (digits_padded 2 o.minutes).exists_concat (padded_ne_nil 2 o.minutes)
    rw [← List.append_assoc, hx, hds, hv] at htext
    have hlast := congrArg List.getLast? htext
    simp only [← List.append_assoc, List.getLast?_concat, Option.some.injEq] at hlast
    rw [hlast] at hd
    cases hd
  obtain ⟨gap, b, hgap⟩ := List.eq_nil_or_concat header.beforeZone
    |>.resolve_left header.beforeZone_ne_nil
  obtain ⟨gap', b', rfl⟩ := List.eq_nil_or_concat w |>.resolve_left hne
  have hwhite := header.white_beforeZone
  rw [hgap] at hwhite
  simp only [List.concat_eq_append, white_append, white_cons] at hw hwhite
  -- The zone is the last word.
  obtain ⟨hfront, hzone⟩ : u ++ gap' =
        header.date.text ++ (header.beforeTime ++ (header.time.text ++ gap)) ∧
      o.text [] = header.zone := by
    refine last_word_inj hw.2.1 hwhite.2.1
      (fun _ ↦ (spellsZone_offset o).isWhite_eq_false)
      (fun _ ↦ header.spells_zone.isWhite_eq_false) ?_
    rw [hcs, List.append_nil, Header.text, hgap] at htext
    simpa using htext
  obtain ⟨x, hx, hu⟩ := exists_trimEnd u
  have htrim : trimEnd u = header.date.text ++ (header.beforeTime ++ header.time.text) := by
    rw [← trimEnd_append_of_white hw.1, hfront, ← List.append_assoc header.beforeTime,
      ← List.append_assoc header.date.text, trimEnd_append_of_white hwhite.1, trimEnd_date_time]
  refine read?_eq_some_iff.mpr ⟨{ header with
    beforeZone := x ++ w'
    white_beforeZone := white_append.mpr ⟨hx, hw'⟩
    beforeZone_ne_nil := List.append_ne_nil_of_right_ne_nil x hne' }, [], ?_, rfl⟩
  rw [hu, htrim, hzone, Header.text]
  simp

/-- **No reader of a date minds how much white space stands before its offset.** -/
theorem read?_respaced {read? : List Char → Option Reading}
    (hread : read? = MailDate.read? ∨ ∃ p ∈ Pattern.zoned, read? = p.read?) (hw : White w)
    (hne : w ≠ []) (hw' : White w') (hne' : w' ≠ []) (o : Offset) (u : List Char) :
    read? (u ++ (w ++ o.text [])) = read? (u ++ (w' ++ o.text [])) := by
  have hone {w w' : List Char} (hw : White w) (hne : w ≠ []) (hw' : White w') (hne' : w' ≠ [])
      (r : Reading) (h : read? (u ++ (w ++ o.text [])) = some r) :
      read? (u ++ (w' ++ o.text [])) = some r := by
    rcases hread with rfl | ⟨p, hp, rfl⟩
    · exact mailDate_read?_of_respaced hw hne hw' hne' h
    · exact zoned_read?_of_respaced hp hw hne hw' hne' h
  exact Option.ext fun r ↦ ⟨hone hw hne hw' hne' r, hone hw' hne' hw hne r⟩

/-! ## Words for UTC -/

/-- The word at the end is not taken for a digit. -/
theorem isDigit_eq_false_of_zoneWord (hword : ZoneWord suffix) (hs : v ++ suffix = u ++ [c]) :
    isDigit c = false := by
  have hlast := congrArg List.getLast? hs
  rcases hword with rfl | rfl
  · obtain rfl : 'C' = c := by simpa using hlast
    rfl
  · obtain rfl : 'Z' = c := by simpa using hlast
    rfl

theorem timestamp_append_zoneWord (hword : ZoneWord suffix) (v : List Char) :
    Timestamp.read? (v ++ suffix) = none := by
  rw [Option.eq_none_iff_forall_ne_some]
  intro r h
  obtain ⟨u, d, t, z, hs, hd, hoffset⟩ := exists_offset_of_timestamp h
  rcases OffsetForm.read?_cases hoffset with rfl | rfl | hsigned
  · rcases hword with rfl | rfl
    · have hlast := congrArg List.getLast? hs
      simp at hlast
    · -- The letter has a blank before it, and not a digit.
      obtain rfl : ' ' = d := by simpa using (List.append_inj' hs rfl).2
      cases hd
  · have hlast := congrArg List.getLast? hs
    rcases hword with rfl | rfl <;> simp at hlast
  · obtain ⟨c, -, hours, middle, minutes, rfl, -, -, -, -, hskip, hminutes, hlen, -⟩ :=
      OffsetForm.signed?_eq_some hsigned
    obtain rfl : middle = ':' :: (minutes ++ []) := literal?_eq_some_iff.mp hskip
    obtain ⟨es, e, rfl, he⟩ :=
      hminutes.exists_concat (List.ne_nil_of_length_pos (by rw [hlen]; decide))
    rw [isDigit_eq_false_of_zoneWord (u := u ++ d :: c :: (hours ++ ':' :: es)) hword
      (by rw [hs]; simp)] at he
    cases he

theorem zoneless_read?_append_zoneWord (hp : p ∈ Pattern.zoneless) (hword : ZoneWord suffix)
    (v : List Char) : p.read? (v ++ suffix) = none := by
  rw [Option.eq_none_iff_forall_ne_some]
  intro r h
  obtain ⟨u, c, ds, hs, -, hds, hne, -⟩ := exists_number_of_zoneless hp h
  obtain ⟨es, e, rfl, he⟩ := hds.exists_concat hne
  rw [isDigit_eq_false_of_zoneWord (u := u ++ c :: es) hword (by rw [hs]; simp)] at he
  cases he

theorem strict_append_zoneWord (hword : ZoneWord suffix) (v : List Char) :
    strict (v ++ suffix) = padHour (trimEnd v ++ ([' '] ++ Offset.utc.text [])) := by
  have hlast : (v ++ suffix).getLast? ≠ some ')' := by
    rcases hword with rfl | rfl <;> simp
  rw [strict, dropComment_of_getLast? hlast, spellZone_append hword]
  rfl

/-- Nothing is padded in an offset, so a text is padded as if it stood without it. -/
theorem padHour_append_offset (hw : White w) (hne : w ≠ []) (o : Offset) (u : List Char) :
    padHour (u ++ (w ++ o.text [])) = padHour u ++ (w ++ o.text []) :=
  padHour_append_of_stops (hw.stops_digit hne) (stops_colon_of_white hw hne)
    (eq_of_padded_offset o hw (Or.inr (Or.inl rfl))) u

/-- What is no date alone is none behind white space. -/
theorem instant?_eq_none_of_alone (zone : Zone) (hs : trim s = []) {word : List Char}
    (hword : Trimmed word) (hzoned : zonedInstant? word = none)
    (hzoneless : zonelessTime? word = none) : instant? zone (s ++ ' ' :: word) = none := by
  obtain ⟨u, t, hu, ht, hsplit, -⟩ := exists_trim s
  have hwhite : White (s ++ [' ']) := by
    rw [hsplit, hs, List.append_nil]
    exact white_append.mpr ⟨white_append.mpr ⟨hu, ht⟩, white_blank⟩
  have htrim : trim (s ++ ' ' :: word) = word := by
    have h := trim_of_trimmed hwhite white_nil hword
    rwa [List.append_nil, List.append_assoc] at h
  rw [instant?, htrim, hzoned, hzoneless]
  rfl

/-- A word for UTC is no date. -/
theorem exists_word_of_zoneWord (hword : ZoneWord suffix) :
    ∃ word, suffix = ' ' :: word ∧ word ≠ [] ∧ Trimmed word ∧ zonedInstant? word = none ∧
      zonelessTime? word = none := by
  rcases hword with rfl | rfl
  · exact ⟨['U', 'T', 'C'], rfl, by simp, ⟨stops_cons.mpr (by decide), stops_cons.mpr (by decide)⟩,
      by decide, by decide⟩
  · exact ⟨['Z'], rfl, by simp, ⟨stops_cons.mpr (by decide), stops_cons.mpr (by decide)⟩,
      by decide, by decide⟩

/-- **The strict forms of a text with a word for UTC and with the offset read the same.** -/
theorem read?_strict_append_zoneWord {read? : List Char → Option Reading}
    (hread : read? = MailDate.read? ∨ ∃ p ∈ Pattern.zoned, read? = p.read?)
    (hword : ZoneWord suffix) (hs : trim s ≠ []) (hw : White w) :
    read? (strict (trim s ++ (w ++ suffix))) = read? (withOffset .utc s) := by
  obtain ⟨w', hw', hoffset⟩ := withOffset_eq .utc hs
  obtain ⟨-, -, -, -, -, htrimmed⟩ := exists_trim s
  have hgap : White (w' ++ [' ']) := white_append.mpr ⟨hw', white_blank⟩
  have hstrict : strict (trim s ++ (w ++ suffix)) =
      padHour (trim s) ++ ([' '] ++ Offset.utc.text []) := by
    rw [← List.append_assoc, strict_append_zoneWord hword, trimEnd_append_of_white hw,
      trimEnd_of_stops htrimmed.finish, padHour_append_offset white_blank (by simp)]
  have hstrict' : withOffset .utc s =
      padHour (trim s) ++ ((w' ++ [' ']) ++ Offset.utc.text []) := by
    rw [← padHour_append_offset hgap (by simp), hoffset]
    simp
  rw [hstrict, hstrict']
  exact read?_respaced hread white_blank (by simp) hgap (by simp) .utc _

theorem instant?_append_zoneWord (zone : Zone) (hword : ZoneWord suffix) (s : List Char) :
    instant? zone (s ++ suffix) = instant? zone (s ++ ' ' :: Offset.utc.text []) := by
  obtain ⟨word, rfl, hne, htrimmed, hzoned, hzoneless⟩ := exists_word_of_zoneWord hword
  by_cases hs : trim s = []
  · have hoffset : Trimmed (Offset.utc.text []) :=
      ⟨stops_cons.mpr (by decide), stops_cons.mpr (by decide)⟩
    rw [instant?_eq_none_of_alone zone hs htrimmed hzoned hzoneless,
      instant?_eq_none_of_alone zone hs hoffset (by decide) (by decide)]
  · obtain ⟨w, hw, htrim⟩ := exists_trim_append_word hs
    have hstamp : Timestamp.read? (trim s ++ (w ++ ' ' :: word)) = none := by
      rw [← List.append_assoc]
      exact timestamp_append_zoneWord hword _
    have hlocal : zonelessTime? (trim s ++ (w ++ ' ' :: word)) = none := by
      refine List.findSome?_eq_none_iff.mpr fun p hp ↦ ?_
      rw [← List.append_assoc, zoneless_read?_append_zoneWord hp hword]
      rfl
    have hpattern : (Pattern.zoned.findSome? fun p ↦
          (p.read? (strict (trim s ++ (w ++ ' ' :: word)))).bind Reading.instant?) =
        Pattern.zoned.findSome? fun p ↦ (p.read? (withOffset .utc s)).bind Reading.instant? := by
      rw [← List.head?_filterMap, ← List.head?_filterMap]
      refine congrArg List.head? (List.filterMap_congr fun p hp ↦ ?_)
      rw [read?_strict_append_zoneWord (Or.inr ⟨p, hp, rfl⟩) hword hs hw]
    rw [instant?_append_offset zone _ hs, instant?, htrim word hne htrimmed.finish, zonedInstant?,
      hstamp, hlocal, hpattern, read?_strict_append_zoneWord (Or.inl rfl) hword hs hw]
    simp only [Option.orElse_eq_orElse, Option.orElse_eq_or, Option.bind_none, Option.none_or,
      Option.or_none]

/-- **The spellings of UTC are interchangeable.** Whatever a text is, it is received at the same
instant with each of them behind it, or it is no date with any. -/
theorem receivedAt_append_utc (zone : Zone) (value : String) :
    (∃ t, ∀ word ∈ [" UTC", " Z", " +0000"], receivedAt zone (value ++ word) = .ok t) ∨
      ∀ word ∈ [" UTC", " Z", " +0000"],
        receivedAt zone (value ++ word) = .error (.date (value ++ word)) := by
  have hsame : ∀ word ∈ [" UTC", " Z", " +0000"],
      instant? zone (value ++ word).toList =
        instant? zone (value.toList ++ ' ' :: Offset.utc.text []) := by
    simp only [List.mem_cons, List.not_mem_nil, or_false, forall_eq_or_imp, forall_eq,
      String.toList_append]
    exact ⟨instant?_append_zoneWord zone (Or.inl rfl) _,
      instant?_append_zoneWord zone (Or.inr rfl) _, rfl⟩
  cases hinstant : instant? zone (value.toList ++ ' ' :: Offset.utc.text []) with
  | some t =>
    exact Or.inl ⟨t, fun word hword ↦
      receivedAt_eq_ok_iff.mpr ((hsame word hword).trans hinstant)⟩
  | none =>
    exact Or.inr fun word hword ↦
      receivedAt_eq_error_iff.mpr ⟨(hsame word hword).trans hinstant, rfl⟩

end MailRules.Calendar
