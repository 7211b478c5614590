import MailRules.Proofs.Calendar.Header
import MailRules.Proofs.Calendar.Pattern

/-!
# Mail dates read by pattern

The grammar of mail headers and the patterns can both be tried on one text. Where both read it they
read the same, but for the year: the pattern takes its number as it stands, and the grammar takes
two and three digits as short for a longer number (`reading_of_fill?_header`).

A text that starts with a number and a mark, as a date in numbers does, is `Marked`. Neither the
grammar nor a pattern that starts with a day or its name reads it.
-/

namespace MailRules.Calendar

open MailRules.Text

variable {c : Char} {s w rest ds : List Char} {r r' : Reading} {p : Pattern} {n : ℕ}

/-! ## Dates that start with a number and a mark -/

open MailDate (isLetter)

/-- A number, if there is one, and a mark behind it, such as a hyphen. -/
def Marked (s : List Char) : Prop :=
  ∃ w ds c rest, s = w ++ (ds ++ c :: rest) ∧ White w ∧ Digits ds ∧
    isWhite c = false ∧ isDigit c = false ∧ isLetter c = false

theorem marked_of_isoDate {x : Reading × List Char}
    (h : Pattern.fill? (Pattern.isoDate ++ p) r s = some x) : Marked s := by
  obtain ⟨⟨r₁, s₁⟩, hyear, hrest⟩ := Option.bind_eq_some_iff.mp h
  obtain ⟨⟨r₂, s₂⟩, hhyphen, -⟩ := Option.bind_eq_some_iff.mp hrest
  obtain ⟨y, hy, -⟩ := Piece.exists_of_map (fun _ _ ↦ rfl) hyear
  obtain ⟨s₂', hs₂, -⟩ := Option.map_eq_some_iff.mp hhyphen
  obtain ⟨w, hw, hs⟩ := exists_trimStart s
  obtain ⟨sign, ds, htrim, hsign, hds, -⟩ := Piece.exists_of_signedYear? hy
  rw [htrim, literal?_eq_some_iff.mp hs₂] at hs
  rcases hsign with rfl | rfl | rfl
  · exact ⟨w, ds, '-', _, hs, hw, hds, by decide, by decide, by decide⟩
  · exact ⟨w, [], '-', _, hs, hw, digits_nil, by decide, by decide, by decide⟩
  · exact ⟨w, [], '+', _, hs, hw, digits_nil, by decide, by decide, by decide⟩

namespace Marked

theorem mailDate_read? (h : Marked s) : MailDate.read? s = none := by
  obtain ⟨w, ds, c, rest, rfl, hw, hds, hwhite, hdigit, hletter⟩ := h
  exact MailDate.read?_eq_none_of_mark hw hds hwhite hdigit hletter

theorem fill?_weekdayName (h : Marked s) : Pattern.fill? (.weekdayName :: p) r s = none := by
  obtain ⟨w, ds, c, rest, rfl, hw, hds, -, -, hletter⟩ := h
  have hstops : Stops isLetter (w ++ (ds ++ c :: rest)) := by
    have hw' : Stops isLetter w := stops_of_all hw fun _ ↦ isLetter_eq_false_of_isWhite
    have hds' : Stops isLetter ds := stops_of_all hds fun _ ↦ isLetter_eq_false_of_isDigit
    exact hw'.append (hds'.append (stops_cons.mpr hletter))
  exact Pattern.fill?_weekdayName_of_stops hstops

/-- The number is no day, since no month follows it. -/
theorem fill?_day (h : Marked s) :
    Pattern.fill? (.day :: .blank :: .monthName :: p) r s = none := by
  obtain ⟨w, ds, c, rest, rfl, hw, hds, hwhite, hdigit, hletter⟩ := h
  have hstops {p : Char → Bool} {es : List Char} (hp : ∀ d, isDigit d = true → p d = false)
      (hc : p c = false) (hes : Digits es) : Stops p (es ++ c :: rest) := by
    exact (stops_of_all hes hp).append (stops_cons.mpr hc)
  -- At most two digits are taken, and what is left starts with a digit or with the mark.
  have hdrop : Digits (ds.drop 2) := fun d hd ↦ hds d (List.mem_of_mem_drop hd)
  have htwo : Piece.twoDigits? (w ++ (ds ++ c :: rest)) = none ∨
      ∃ n, Piece.twoDigits? (w ++ (ds ++ c :: rest)) = some (n, ds.drop 2 ++ c :: rest) := by
    rw [Piece.twoDigits?, trimStart_append_of_white hw,
      trimStart_of_stops (hstops (fun _ ↦ isWhite_eq_false_of_isDigit) hwhite hds),
      digits?_append_of_stops hds (stops_cons.mpr hdigit)]
    split
    · exact Or.inl rfl
    · exact Or.inr ⟨_, rfl⟩
  rcases htwo with hnone | ⟨n, hn⟩
  · rw [Pattern.fill?, Piece.read?, hnone]
    rfl
  · have hmonth : monthName? (trimStart (ds.drop 2 ++ c :: rest)) = none := by
      rw [trimStart_of_stops (hstops (fun _ ↦ isWhite_eq_false_of_isDigit) hwhite hdrop)]
      exact monthName?_eq_none_of_stops
        (hstops (fun _ ↦ isLetter_eq_false_of_isDigit) hletter hdrop)
    simp only [Pattern.fill?, Piece.read?, hn, hmonth, Option.map_some, Option.map_none,
      Option.bind_eq_bind, Option.bind_some, Option.bind_none]

end Marked

/-! ## Mail dates read by pattern -/

/-- The day and the month of a mail date, up to its year. -/
def dayMonth : Pattern := [.day, .blank, .monthName, .blank]

/-- Only a date without a day of the week starts with its day. -/
theorem twoDigits?_date (d : MailDate.DateText)
    (h : Piece.twoDigits? (d.text ++ s) = some (n, rest)) :
    d.weekdayNumber = none ∧ n = decimal d.day ∧
      rest = d.beforeMonth ++ (d.month ++ (d.beforeYear ++ (d.year ++ s))) := by
  have hspells := d.spells_weekday
  simp only [MailDate.DateText.text, List.append_assoc] at h
  generalize d.weekday = u, d.weekdayNumber = number at hspells h ⊢
  cases hspells with
  | absent =>
    have hread (t : List Char) : Piece.twoDigits? ((d.lead ++ d.pause) ++
        (d.day ++ (d.beforeMonth ++ t))) = some (decimal d.day, d.beforeMonth ++ t) :=
      Piece.twoDigits?_append (white_append.mpr ⟨d.white_lead, d.white_pause⟩) d.digits_day
        d.length_day_pos d.length_day_le (Or.inr
          (d.white_beforeMonth.stops_digit d.beforeMonth_ne_nil))
    rw [List.nil_append, ← List.append_assoc, hread] at h
    obtain ⟨rfl, rfl⟩ := Prod.mk.inj (Option.some.inj h)
    exact ⟨rfl, rfl, rfl⟩
  | named hname =>
    obtain ⟨hne, hletters⟩ := isLetter_of_weekdayName? hname
    rw [Piece.twoDigits?, trimStart_append_of_white d.white_lead, List.append_assoc,
      trimStart_of_stops (MailDate.stops_white_of_letters hne hletters),
      digits?_eq_none_of_stops (by decide)
        (stops_append_of_all hletters hne fun _ ↦ isDigit_eq_false_of_isLetter)] at h
    cases h

theorem fill?_dayMonth_date (d : MailDate.DateText)
    (h : dayMonth.fill? {} (d.text ++ s) = some (r, rest)) :
    d.weekdayNumber = none ∧ r = { day := decimal d.day, month := d.monthPlace + 1 } ∧
      rest = d.year ++ s := by
  obtain ⟨⟨r₁, s₁⟩, hday, hmonth⟩ := Option.bind_eq_some_iff.mp h
  obtain ⟨n, hn, rfl⟩ := Piece.exists_of_map (fun _ _ ↦ rfl) hday
  obtain ⟨hweekday, rfl, rfl⟩ := twoDigits?_date d hn
  obtain ⟨hne, hletters⟩ := isLetter_of_monthName? d.spells_month
  refine ⟨hweekday, ?_⟩
  simp only at hmonth
  rw [Pattern.fill?_blank, trimStart_append_of_white d.white_beforeMonth,
    trimStart_of_stops (MailDate.stops_white_of_letters hne hletters), Pattern.fill?, Piece.read?,
    monthName?_append d.spells_month] at hmonth
  simp only [Option.map_some, Option.bind_eq_bind, Option.bind_some, Pattern.fill?_blank,
    Pattern.fill?_nil] at hmonth
  rw [trimStart_append_of_white d.white_beforeYear,
    trimStart_of_stops (d.digits_year.stops_white d.year_ne_nil)] at hmonth
  obtain ⟨rfl, rfl⟩ := Prod.mk.inj (Option.some.inj hmonth)
  exact ⟨rfl, rfl⟩

theorem stops_colon_of_white (hw : White w) (hne : w ≠ []) : Stops (· == ':') (w ++ s) :=
  stops_append_of_all hw hne fun _ hc ↦ beq_eq_false_of hc rfl

theorem stops_colon_of_digits (hds : Digits ds) : Stops (· == ':') ds :=
  stops_of_all hds fun _ hc ↦ beq_eq_false_of hc rfl

/-- A colon that may have white space before it has none if a pattern finds it. -/
theorem eq_of_fill?_colon (hw : White w) {x : Reading × List Char}
    (h : Pattern.fill? (.literal ':' :: p) r (w ++ ':' :: s) = some x) :
    w = [] ∧ Pattern.fill? p r s = some x := by
  obtain ⟨t, ht, h⟩ := Pattern.exists_of_fill?_literal h
  rcases eq_or_ne w [] with rfl | hne
  · obtain ⟨-, rfl⟩ := List.cons.inj ht
    exact ⟨rfl, h⟩
  · have hstops := stops_colon_of_white (s := ':' :: s) hw hne
    rw [ht, stops_cons] at hstops
    cases hstops

/-- The time of day in hours, minutes and seconds. -/
theorem fill?_fullTime_time (t : MailDate.TimeText) (hw : White w) (hs : Stops (· == ':') s)
    (h : Pattern.fullTime.fill? r (w ++ (t.text ++ s)) = some (r', rest)) :
    r' = { r with hour := decimal t.hour, minute := decimal t.minute, second := t.second } ∧
      rest = s := by
  have hpieces : Pattern.fullTime = [.hour, .literal ':', .minute, .literal ':', .second] := rfl
  simp only [MailDate.TimeText.text, List.append_assoc, List.cons_append] at h
  rw [hpieces, Pattern.fill?_number_append (f := fun n ↦ { r with hour := n }) (fun _ ↦ rfl) hw
    t.digits_hour t.length_hour] at h
  obtain ⟨-, h⟩ := eq_of_fill?_colon t.white_beforeColon h
  rw [Pattern.fill?_number_append
    (f := fun n ↦ { r with hour := decimal t.hour, minute := n }) (fun _ ↦ rfl) t.white_afterColon
    t.digits_minute t.length_minute] at h
  have hspells := t.spells_seconds
  generalize t.seconds = u, t.second = second at hspells h ⊢
  cases hspells with
  | absent =>
    -- The pattern asks for seconds.
    obtain ⟨t, rfl, -⟩ := Pattern.exists_of_fill?_literal h
    cases stops_cons.mp hs
  | @given w ds hw hds hlen =>
    rw [List.append_assoc, List.cons_append] at h
    obtain ⟨rfl, hsecond⟩ := eq_of_fill?_colon hw h
    rw [← List.nil_append (ds ++ s), Pattern.fill?_number_append
      (f := fun n ↦ { r with hour := decimal t.hour, minute := decimal t.minute, second := n })
      (fun _ ↦ rfl) white_nil hds hlen] at hsecond
    obtain ⟨rfl, rfl⟩ := Prod.mk.inj (Option.some.inj hsecond)
    exact ⟨rfl, rfl⟩

/-- A year of more than four digits would run into the hour. -/
theorem length_year_le (hds : Digits ds) (hpos : 1 ≤ ds.length) (hw : White w) (hne : w ≠ [])
    {x : Reading × List Char}
    (h : Pattern.fill? (.year :: .blank :: .hour :: .literal ':' :: p) r (ds ++ (w ++ s)) =
      some x) :
    ds.length ≤ 4 := by
  by_contra hlen
  -- Four digits would be the year and two of the others the hour, with no colon behind it.
  have hds' : Digits (ds.drop 4) := fun d hd ↦ hds d (List.mem_of_mem_drop hd)
  have hne' : ds.drop 4 ≠ [] := List.ne_nil_of_length_pos (by rw [List.length_drop]; omega)
  have hgap : Stops isDigit (w ++ s) := hw.stops_digit hne
  obtain ⟨⟨r₁, s₁⟩, hyear, h⟩ := Option.bind_eq_some_iff.mp h
  obtain ⟨y, hy, -⟩ := Piece.exists_of_map (fun _ _ ↦ rfl) hyear
  obtain rfl : s₁ = ds.drop 4 ++ (w ++ s) := by
    rw [trimStart_of_stops (hds.stops_white (List.ne_nil_of_length_pos hpos)),
      Piece.signedYear?_of_stops (Piece.stops_sign_of_digits hds (List.ne_nil_of_length_pos hpos)),
      digits?_append_of_stops hds hgap, if_neg (by rw [List.length_take]; omega)] at hy
    exact (Prod.mk.inj (Option.some.inj hy)).2.symm
  simp only at h
  rw [Pattern.fill?_blank, trimStart_of_stops (hds'.stops_white hne')] at h
  obtain ⟨⟨r₂, s₂⟩, hhour, h⟩ := Option.bind_eq_some_iff.mp h
  obtain ⟨n, hn, -⟩ := Piece.exists_of_map (fun _ _ ↦ rfl) hhour
  obtain rfl : s₂ = (ds.drop 4).drop 2 ++ (w ++ s) := by
    rw [Piece.twoDigits?, trimStart_of_stops (hds'.stops_white hne'),
      digits?_append_of_stops hds' hgap] at hn
    split at hn
    · cases hn
    · exact (Prod.mk.inj (Option.some.inj hn)).2.symm
  have hstops : Stops (· == ':') ((ds.drop 4).drop 2 ++ (w ++ s)) :=
    (stops_colon_of_digits fun d hd ↦ hds' d (List.mem_of_mem_drop hd)).append
      (stops_colon_of_white hw hne)
  obtain ⟨t, ht, -⟩ := Pattern.exists_of_fill?_literal h
  rw [ht] at hstops
  cases stops_cons.mp hstops

theorem text_header_append (h : MailDate.Header) (s : List Char) :
    h.text ++ s =
      h.date.text ++ (h.beforeTime ++ (h.time.text ++ (h.beforeZone ++ (h.zone ++ s)))) := by
  simp only [MailDate.Header.text, List.append_assoc]

/-- The date and the time of a zone-less mail date. -/
def mailDateTime : Pattern := Pattern.mailDate ++ [.blank] ++ Pattern.fullTime

theorem mailDateTime_eq : mailDateTime = dayMonth ++ (.year :: .blank :: Pattern.fullTime) := rfl

/-- **What the pattern and the grammar read of one date differs in nothing but the year.** The
pattern takes the number of the year as it stands. -/
theorem reading_of_fill?_header (h : MailDate.Header)
    (hfill : mailDateTime.fill? {} (h.text ++ s) = some (r, rest)) :
    h.date.year.length ≤ 4 ∧ r.year = decimal h.date.year ∧
      h.reading = { r with
        year := (MailDate.fullYear h.date.year.length (decimal h.date.year) : ℕ)
        offset := some h.offset } ∧
      trimStart rest = h.zone ++ s := by
  have hyear : 1 ≤ h.date.year.length := le_trans (by decide) h.date.length_year
  have hgap (t : List Char) : Stops isDigit (h.beforeTime ++ t) :=
    h.white_beforeTime.stops_digit h.beforeTime_ne_nil
  rw [mailDateTime_eq, Pattern.fill?_append, text_header_append] at hfill
  obtain ⟨⟨r₁, s₁⟩, hday, hfill⟩ := Option.bind_eq_some_iff.mp hfill
  obtain ⟨hweekday, rfl, rfl⟩ := fill?_dayMonth_date h.date hday
  have hlen : h.date.year.length ≤ 4 :=
    length_year_le h.date.digits_year hyear h.white_beforeTime h.beforeTime_ne_nil hfill
  have htrim : trimStart (h.beforeTime ++ (h.time.text ++ (h.beforeZone ++ (h.zone ++ s)))) =
      [] ++ (h.time.text ++ (h.beforeZone ++ (h.zone ++ s))) := by
    rw [trimStart_append_of_white h.white_beforeTime, MailDate.TimeText.text, List.append_assoc,
      trimStart_of_stops (h.time.digits_hour.stops_white h.time.hour_ne_nil), List.nil_append]
  simp only at hfill
  rw [Pattern.fill?_year_append h.date.digits_year hyear hlen (Or.inr (hgap _)),
    Pattern.fill?_blank, htrim] at hfill
  obtain ⟨rfl, rfl⟩ := fill?_fullTime_time h.time white_nil
    (stops_colon_of_white h.white_beforeZone h.beforeZone_ne_nil) hfill
  refine ⟨hlen, rfl, ?_, ?_⟩
  · rw [MailDate.Header.reading, hweekday]
  · rw [trimStart_append_of_white h.white_beforeZone, trimStart_of_stops h.spells_zone.stops_white]

end MailRules.Calendar
