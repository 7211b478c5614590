import MailRules.Proofs.Calendar.Appended
import MailRules.Proofs.Calendar.Date
import MailRules.Proofs.Calendar.MailPattern

/-!
# Dates on the local clock and the same dates with their zone

A date without a zone is read on the clock of the reader, so that writing the offset of that clock
behind it should change nothing. But the two texts go to different readers, and they agree only as
far as these do.

A date in numbers is read by one and the same pattern, with the offset or without, or not at all
with the offset (`eq_of_isoOffset`). A mail date goes from a pattern to the grammar of mail headers
(`exists_header`), and there a year of two or three digits is short for another year. That is the
only difference, and it is one: no such date is the same instant in both texts
(`receivedAt_append_offset`).
-/

namespace MailRules.Calendar

open MailRules.Text Received

variable {s t rest : List Char} {r r' : Reading} {p : Pattern}

/-! ## Dates in numbers -/

theorem mem_zoneless_cases (hp : p ∈ Pattern.zoneless) :
    p = mailDateTime ∨ ∃ q, p = Pattern.isoDate ++ q := by
  simp only [Pattern.zoneless, List.mem_cons, List.not_mem_nil, or_false] at hp
  rcases hp with rfl | rfl | rfl | rfl | rfl
  · exact Or.inr ⟨[.blank] ++ Pattern.fullTime, rfl⟩
  · exact Or.inr ⟨[.literal 'T'] ++ Pattern.fullTime, rfl⟩
  · exact Or.inr ⟨[.blank] ++ Pattern.shortTime, rfl⟩
  · exact Or.inl rfl
  · exact Or.inr ⟨[], rfl⟩

theorem plain_of_mem_zoneless (hp : p ∈ Pattern.zoneless) : ∀ piece ∈ p, piece.plain = true := by
  have hall : ∀ p ∈ Pattern.zoneless, ∀ piece ∈ p, piece.plain = true := by decide
  exact hall p hp

/-- A date and a time of day, all in numbers, with an offset. -/
def isoOffset : Pattern := Pattern.isoDate ++ [.blank] ++ Pattern.fullTime ++ [.blank, .offset]

/-- Of all readers of dates with an offset one is left for dates in numbers. -/
theorem Marked.zoned (h : Marked s) :
    ((MailDate.read? s).bind Reading.instant? <|>
        Pattern.zoned.findSome? fun p ↦ (p.read? s).bind Reading.instant?) =
      (isoOffset.read? s).bind Reading.instant? := by
  have hweekday (q : Pattern) : Pattern.read? (.weekdayName :: q) s = none :=
    Pattern.read?_eq_none_of_fill? h.fill?_weekdayName
  have hday (q : Pattern) : Pattern.read? (.day :: .blank :: .monthName :: q) s = none :=
    Pattern.read?_eq_none_of_fill? h.fill?_day
  have hzoned :
      Pattern.zoned = [isoOffset, .weekdayName :: _, .day :: .blank :: .monthName :: _] := rfl
  rw [h.mailDate_read?, hzoned]
  simp only [List.findSome?_cons, List.findSome?_nil, hweekday, hday, Option.bind_none,
    Option.orElse_eq_orElse, Option.orElse_eq_or, Option.none_or]
  cases (isoOffset.read? s).bind Reading.instant? <;> rfl

theorem fill?_blank_offset (o : Offset) (htrim : trimStart s = o.text []) :
    Pattern.fill? [.blank, .offset] r s = some ({ r with offset := some o.seconds }, []) := by
  rw [Pattern.fill?_blank, htrim, Pattern.fill?_offset_text]

/-- **An offset adds nothing but itself to a date and a time in numbers.** The other forms that
start with a date in numbers are not read at all with an offset behind them. -/
theorem eq_of_isoOffset (o : Offset) (hs : trim s ≠ []) (hp : p ∈ Pattern.zoneless)
    (hne : p ≠ mailDateTime) (h : p.read? (trim s) = some r)
    (h' : isoOffset.read? (withOffset o s) = some r') :
    r' = { r with offset := some o.seconds } := by
  obtain ⟨y, hy, htrim⟩ := exists_fill?_of_read? o (plain_of_mem_zoneless hp) hs h
  rw [Pattern.read?_eq_some_iff] at h'
  have hblankHour : isoOffset = Pattern.isoDate ++ (.blank :: .hour :: _) := rfl
  simp only [Pattern.zoneless, List.mem_cons, List.not_mem_nil, or_false] at hp
  rcases hp with rfl | rfl | rfl | rfl | rfl
  · have hoffset :
        isoOffset = (Pattern.isoDate ++ [.blank] ++ Pattern.fullTime) ++ [.blank, .offset] := rfl
    rw [hoffset, Pattern.fill?_append_of_eq hy, fill?_blank_offset o htrim] at h'
    exact (Prod.mk.inj (Option.some.inj h')).1.symm
  · -- The letter between date and time is no hour.
    rw [List.append_assoc, Pattern.fill?_append] at hy
    obtain ⟨⟨r₁, s₁⟩, hdate, hletter⟩ := Option.bind_eq_some_iff.mp hy
    obtain ⟨t, rfl, -⟩ := Pattern.exists_of_fill?_literal hletter
    have hstart : trimStart ('T' :: t) = 'T' :: t := trimStart_of_stops (stops_cons.mpr (by decide))
    have hhour : Stops isDigit (trimStart ('T' :: t)) := by
      rw [hstart]
      exact stops_cons.mpr (by decide)
    rw [hblankHour, Pattern.fill?_append_of_eq hdate, Pattern.fill?_blank, hstart,
      Pattern.fill?_hour_of_stops hhour] at h'
    cases h'
  · -- No colon and no seconds follow the time.
    have hseconds : isoOffset =
        (Pattern.isoDate ++ [.blank] ++ Pattern.shortTime) ++ (.literal ':' :: _) := rfl
    rw [hseconds, Pattern.fill?_append_of_eq hy] at h'
    obtain ⟨t, rfl, -⟩ := Pattern.exists_of_fill?_literal h'
    have hstops := o.stops_text (p := (· == ':')) rfl rfl []
    rw [← htrim, trimStart_of_stops (stops_cons.mpr (by decide)), stops_cons] at hstops
    cases hstops
  · exact absurd rfl hne
  · -- The offset is no hour.
    have hhour : Stops isDigit (trimStart (o.text [])) := by
      rw [o.trimStart_text]
      exact o.stops_text rfl rfl []
    rw [hblankHour, Pattern.fill?_append_of_eq hy, Pattern.fill?_blank, htrim,
      Pattern.fill?_hour_of_stops hhour] at h'
    cases h'

/-! ## Years of two and three digits -/

/-- The text is a day, the name of a month and then these digits. -/
def WritesYear (s year : List Char) : Prop :=
  ∃ day gap month gap' rest, trim s = day ++ (gap ++ (month ++ (gap' ++ (year ++ rest)))) ∧
    Digits day ∧ 1 ≤ day.length ∧ day.length ≤ 2 ∧ White gap ∧
    (∃ n, name? monthNames month = some (n, [])) ∧ White gap' ∧ Digits year ∧ Stops isDigit rest

/-- A mail date whose year has two or three digits. -/
def ShortYear (s : List Char) : Prop :=
  ∃ year, WritesYear s year ∧ (year.length = 2 ∨ year.length = 3)

theorem WritesYear.digits {year : List Char} (h : WritesYear s year) : Digits year := by
  obtain ⟨_, _, _, _, _, -, -, -, -, -, -, -, hyear, -⟩ := h
  exact hyear

theorem WritesYear.exists_fill? {year : List Char} (h : WritesYear s year) (hne : year ≠ []) :
    ∃ r rest, dayMonth.fill? {} (trim s) = some (r, year ++ rest) ∧ Stops isDigit rest := by
  obtain ⟨day, gap, month, gap', rest, hs, hday, hlo, hhi, hgap, ⟨n, hn⟩, hgap', hyear, hrest⟩ := h
  obtain ⟨hne', hletters⟩ := isLetter_of_monthName? hn
  have hstop : Stops isDigit (gap ++ (month ++ (gap' ++ (year ++ rest)))) := by
    have hwhite : Stops isDigit gap := stops_of_all hgap fun _ ↦ isDigit_eq_false_of_isWhite
    exact hwhite.append
      (stops_append_of_all hletters hne' fun _ ↦ isDigit_eq_false_of_isLetter)
  have hread := Piece.twoDigits?_append white_nil hday hlo hhi (Or.inr hstop)
  rw [List.nil_append, ← hs] at hread
  refine ⟨{ day := decimal day, month := n + 1 }, rest, ?_, hrest⟩
  rw [dayMonth, Pattern.fill?, Piece.read?, hread]
  simp only [Option.map_some, Option.bind_eq_bind, Option.bind_some, Pattern.fill?_blank]
  rw [trimStart_append_of_white hgap,
    trimStart_of_stops (MailDate.stops_white_of_letters hne' hletters), Pattern.fill?, Piece.read?,
    monthName?_append hn]
  simp only [Option.map_some, Option.bind_eq_bind, Option.bind_some, Pattern.fill?_blank,
    Pattern.fill?_nil]
  rw [trimStart_append_of_white hgap', trimStart_of_stops (hyear.stops_white hne)]

theorem writesYear_of_fill? {year : List Char}
    (h : dayMonth.fill? {} (trim s) = some (r, year ++ rest)) (hyear : Digits year)
    (hrest : Stops isDigit rest) : WritesYear s year := by
  obtain ⟨⟨r₁, s₁⟩, hday, h⟩ := Option.bind_eq_some_iff.mp h
  obtain ⟨n, hn, -⟩ := Piece.exists_of_map (fun _ _ ↦ rfl) hday
  obtain ⟨w, day, hs, hw, hdigits, hlo, hhi, -⟩ := Piece.exists_of_twoDigits? hn
  obtain ⟨gap, hgap, hs₁⟩ := exists_trimStart s₁
  simp only at h
  rw [Pattern.fill?_blank] at h
  obtain ⟨⟨r₂, s₂⟩, hmonth, h⟩ := Option.bind_eq_some_iff.mp h
  obtain ⟨m, hm, -⟩ := Piece.exists_of_map (fun _ _ ↦ rfl) hmonth
  obtain ⟨month, place, htrim, hname, -⟩ := exists_of_monthName? hm
  obtain ⟨gap', hgap', hs₂⟩ := exists_trimStart s₂
  obtain ⟨-, hend⟩ := Prod.mk.inj (Option.some.inj h)
  obtain ⟨_, _, -, -, -, htrimmed⟩ := exists_trim s
  obtain rfl : w = [] := eq_nil_of_stops_white hw (hs ▸ htrimmed.start)
  refine ⟨day, gap, month, gap', rest, ?_, hdigits, hlo, hhi, hgap, ⟨place, hname⟩, hgap', hyear,
    hrest⟩
  rw [hs, List.nil_append, ← hend, ← hs₂, ← htrim, ← hs₁]

theorem WritesYear.unique {year year' : List Char} (h : WritesYear s year)
    (h' : WritesYear s year') (hne : year ≠ []) (hne' : year' ≠ []) : year = year' := by
  obtain ⟨r, rest, hfill, hrest⟩ := h.exists_fill? hne
  obtain ⟨r', rest', hfill', hrest'⟩ := h'.exists_fill? hne'
  obtain ⟨-, heq⟩ := Prod.mk.inj (Option.some.inj (hfill.symm.trans hfill'))
  exact (Digits.append_inj h.digits h'.digits hrest hrest' heq).1

theorem WritesYear.shortYear_iff {year : List Char} (h : WritesYear s year) (hne : year ≠ []) :
    ShortYear s ↔ year.length = 2 ∨ year.length = 3 := by
  refine ⟨?_, fun hlen ↦ ⟨year, h, hlen⟩⟩
  rintro ⟨year', h', hlen⟩
  rwa [h.unique h' hne (List.ne_nil_of_length_pos (by omega))]

/-- The year that the grammar finds in a date with its offset stood in the date alone. -/
theorem writesYear_of_header (o : Offset) (hs : trim s ≠ []) (h : MailDate.Header)
    (heq : withOffset o s = h.text ++ t) {x : Reading × List Char}
    (hfill : mailDateTime.fill? {} (trim s) = some x) : WritesYear s h.date.year := by
  rw [mailDateTime_eq, Pattern.fill?_append] at hfill
  obtain ⟨⟨r₁, s₁⟩, hday, -⟩ := Option.bind_eq_some_iff.mp hfill
  obtain ⟨w, hw, htransfer⟩ := exists_fill?_withOffset o hs
  obtain ⟨m, y, hy, hfollow, hpad⟩ := htransfer (by decide) hday
  rw [heq, text_header_append] at hy
  obtain ⟨-, -, rfl⟩ := fill?_dayMonth_date h.date hy
  -- The white space before the time keeps the year from being taken for a short hour.
  have hdigit (u : List Char) : Stops isDigit (h.beforeTime ++ u) :=
    h.white_beforeTime.stops_digit h.beforeTime_ne_nil
  have hcolon (u : List Char) : Stops (· == ':') (h.beforeTime ++ u) :=
    stops_colon_of_white h.white_beforeTime h.beforeTime_ne_nil
  obtain ⟨rest, rfl, -, hdigit', hcolon'⟩ :=
    alike_padded.exists_row h.date.digits_year h.date.year_ne_nil (hdigit _) (hcolon _) hpad
  obtain ⟨rest, rfl, -, hstop, -⟩ := (alike_followed_offset o hw).exists_row h.date.digits_year
    h.date.year_ne_nil hdigit' hcolon' hfollow
  exact writesYear_of_fill? hday h.date.digits_year hstop

theorem not_shortYear_of_marked (h : Marked (trim s)) : ¬ShortYear s := by
  rintro ⟨year, hyear, hlen⟩
  obtain ⟨r, rest, hfill, -⟩ := hyear.exists_fill? (List.ne_nil_of_length_pos (by omega))
  rw [dayMonth, h.fill?_day] at hfill
  cases hfill

/-! ## With the offset behind them -/

theorem eq_of_iso (o : Offset) (hs : trim s ≠ []) (hp : p ∈ Pattern.zoneless)
    (hne : p ≠ mailDateTime) (h : p.read? (trim s) = some r) {zone : Zone} {b : Instant}
    (hb : instant? zone (s ++ ' ' :: o.text []) = some b) :
    { r with offset := some o.seconds }.instant? = some b ∧ ¬ShortYear s := by
  obtain ⟨q, rfl⟩ := (mem_zoneless_cases hp).resolve_left hne
  obtain ⟨y, hy, -⟩ := exists_fill?_of_read? o (plain_of_mem_zoneless hp) hs h
  rw [instant?_append_offset zone o hs, (marked_of_isoDate hy).zoned] at hb
  obtain ⟨r', hread, hinstant⟩ := Option.bind_eq_some_iff.mp hb
  rw [← eq_of_isoOffset o hs hp hne h hread]
  exact ⟨hinstant, not_shortYear_of_marked (marked_of_isoDate (Pattern.read?_eq_some_iff.mp h))⟩

/-- The patterns with an offset are not for mail dates with seconds. -/
theorem zoned_read?_of_mailDateTime (hy : mailDateTime.fill? {} s = some (r, rest))
    (hp : p ∈ Pattern.zoned) : p.read? s = none := by
  have hday : mailDateTime = .day :: .blank :: .monthName :: _ := rfl
  have hshort : mailDateTime =
      (Pattern.mailDate ++ [.blank] ++ Pattern.shortTime) ++ (.literal ':' :: _) := rfl
  simp only [Pattern.zoned, List.mem_cons, List.not_mem_nil, or_false] at hp
  refine Pattern.read?_eq_none_of_fill? (Option.eq_none_iff_forall_ne_some.mpr fun x hx ↦ ?_)
  rcases hp with rfl | rfl | rfl
  · rw [hday, (marked_of_isoDate (by simpa using hx)).fill?_day] at hy
    cases hy
  · obtain ⟨⟨r₁, s₁⟩, hfirst, -⟩ := Option.bind_eq_some_iff.mp hy
    obtain ⟨n, hn, -⟩ := Piece.exists_of_map (fun _ _ ↦ rfl) hfirst
    have hweekday (q : Pattern) : Pattern.fill? (.weekdayName :: q) {} s = none :=
      Pattern.fill?_weekdayName_of_stops (Piece.stops_letter_of_twoDigits? hn)
    simp only [List.cons_append, hweekday] at hx
    cases hx
  · -- The colon before the seconds is no offset.
    rw [hshort, Pattern.fill?_append] at hy
    obtain ⟨⟨r₁, s₁⟩, hfirst, hseconds⟩ := Option.bind_eq_some_iff.mp hy
    obtain ⟨t, rfl, -⟩ := Pattern.exists_of_fill?_literal hseconds
    have hcolon : trimStart (':' :: t) = ':' :: t := trimStart_of_stops (stops_cons.mpr (by decide))
    have hread : Piece.offsetForm.read? (':' :: t) = none := rfl
    rw [Pattern.fill?_append_of_eq hfirst, Pattern.fill?_blank, hcolon, Pattern.fill?, Piece.read?,
      hcolon, hread] at hx
    cases hx

/-- With an offset behind it a mail date goes to the grammar of mail headers, which finds the same
numbers and a year in full. -/
theorem exists_header (o : Offset) (hs : trim s ≠ []) (h : mailDateTime.read? (trim s) = some r)
    {zone : Zone} {b : Instant} (hb : instant? zone (s ++ ' ' :: o.text []) = some b) :
    ∃ header : MailDate.Header, header.date.year.length ≤ 4 ∧
      r.year = decimal header.date.year ∧ WritesYear s header.date.year ∧
      { r with
        year := (MailDate.fullYear header.date.year.length (decimal header.date.year) : ℕ)
        offset := some o.seconds }.instant? = some b := by
  obtain ⟨y, hy, htrim⟩ := exists_fill?_of_read? o (by decide) hs h
  have hnone : (Pattern.zoned.findSome? fun p ↦
      (p.read? (withOffset o s)).bind Reading.instant?) = none :=
    List.findSome?_eq_none_iff.mpr fun p hp ↦ by
      rw [zoned_read?_of_mailDateTime hy hp]
      rfl
  rw [instant?_append_offset zone o hs, hnone] at hb
  obtain ⟨r', hread, hinstant⟩ : ∃ r', MailDate.read? (withOffset o s) = some r' ∧
      r'.instant? = some b := by
    simpa [Option.bind_eq_some_iff] using hb
  obtain ⟨header, cs, htext, rfl⟩ := MailDate.read?_eq_some_iff.mp hread
  rw [htext] at hy
  obtain ⟨hlen, hyear, hreading, hzone⟩ := reading_of_fill?_header header hy
  rw [htrim] at hzone
  have hoffset := header.spells_zone.zone?_append (MailDate.stops_letter_textOfAll cs)
  have hoffset' := (MailDate.spellsZone_offset o).zone?_append stops_nil
  rw [List.append_nil, hzone, hoffset] at hoffset'
  rw [hreading, (Prod.mk.inj (Option.some.inj hoffset')).1] at hinstant
  exact ⟨header, hlen, hyear, writesYear_of_header o hs header htext
    (Pattern.read?_eq_some_iff.mp h), hinstant⟩

/-! ## The instants of both texts -/

theorem lt_fullYear {k : ℕ} (h : k = 2 ∨ k = 3) (v : ℕ) : v < MailDate.fullYear k v := by
  rcases h with rfl | rfl
  · rw [MailDate.fullYear, if_pos rfl]
    split <;> omega
  · rw [MailDate.fullYear, if_neg (by decide), if_pos rfl]
    omega

/-- One reading with its year as it stands and with its year in full. -/
theorem eq_iff_of_fullYear (o : Offset) {shown : LocalTime} {a b : Instant} {k v : ℕ} (hlo : 2 ≤ k)
    (hhi : k ≤ 4) (hyear : r.year = v) (hshown : r.localTime? = some shown)
    (ha : shown.instant? o.seconds = some a)
    (hb : { r with
      year := (MailDate.fullYear k v : ℕ)
      offset := some o.seconds }.instant? = some b) : a = b ↔ ¬(k = 2 ∨ k = 3) := by
  rw [Reading.instant?_of_offset rfl o.natAbs_seconds_lt] at hb
  obtain ⟨shown', hshown', hb⟩ := Option.bind_eq_some_iff.mp hb
  by_cases hshort : k = 2 ∨ k = 3
  · have hlt := Int.ofNat_lt.mpr (lt_fullYear hshort v)
    rw [← hyear] at hlt
    exact iff_of_false (Reading.instant_ne_of_year_lt hlt hshown hshown' ha hb)
      (not_not.mpr hshort)
  · obtain rfl : k = 4 := by omega
    have hfour : MailDate.fullYear 4 v = v := rfl
    rw [hfour, ← hyear] at hshown'
    obtain rfl : shown = shown' := Option.some.inj (hshown.symm.trans hshown')
    exact iff_of_true (Option.some.inj (ha.symm.trans hb)) hshort

/-- **A date on the local clock and the same date with the offset of that clock are one instant
unless its year has two or three digits.** Such a year is taken as it stands without the offset, and
as short for a year of the nineteen or twenty hundreds with it. -/
theorem receivedAt_append_offset (o : Offset) {value : String} {a b : Instant}
    (hlocal : zonedInstant? (trim value.toList) = none)
    (ha : receivedAt (.fixed o.seconds) value = .ok a)
    (hb : receivedAt (.fixed o.seconds) (value ++ String.ofList (' ' :: o.text [])) = .ok b) :
    a = b ↔ ¬ShortYear value.toList := by
  generalize hvalue : value.toList = s at hlocal
  rw [receivedAt_eq_ok_iff, hvalue, instant?, hlocal] at ha
  rw [receivedAt_eq_ok_iff, String.toList_append, String.toList_ofList, hvalue] at hb
  obtain ⟨shown, hshown, ha⟩ : ∃ shown, zonelessTime? (trim s) = some shown ∧
      shown.instant? o.seconds = some a := by
    simpa [Option.bind_eq_some_iff, Zone.instant?, Zone.offsetAt?] using ha
  obtain ⟨p, hp, hread⟩ := List.exists_of_findSome?_eq_some hshown
  obtain ⟨r, hr, hshown⟩ := Option.bind_eq_some_iff.mp hread
  have hs : trim s ≠ [] := by
    intro hempty
    have hnone : ∀ p ∈ Pattern.zoneless, p.read? [] = none := by decide
    rw [hempty, hnone p hp] at hr
    cases hr
  rcases eq_or_ne p mailDateTime with rfl | hne
  · obtain ⟨header, hlen, hyear, hwrites, hb⟩ := exists_header o hs hr hb
    rw [hwrites.shortYear_iff header.date.year_ne_nil]
    exact eq_iff_of_fullYear o header.date.length_year hlen hyear hshown ha hb
  · obtain ⟨hb, hyear⟩ := eq_of_iso o hs hp hne hr hb
    have hshown' : { r with offset := some o.seconds }.localTime? = some shown := hshown
    rw [Reading.instant?_of_offset rfl o.natAbs_seconds_lt, hshown', Option.bind_some, ha] at hb
    exact iff_of_true (Option.some.inj hb) hyear

/-- One day in 2024, with the year in full and in two digits, on the clock of India. -/
theorem shortYear_of_two_spellings :
    let o : Offset := ⟨false, 5, 30, by decide, by decide⟩
    (zonedInstant? (trim "10 Jun 2024 09:30:00".toList) = none ∧
      receivedAt (.fixed o.seconds) "10 Jun 2024 09:30:00" = .ok ⟨1717992000, 0⟩ ∧
      receivedAt (.fixed o.seconds) ("10 Jun 2024 09:30:00" ++ String.ofList (' ' :: o.text [])) =
        .ok ⟨1717992000, 0⟩ ∧
      ¬ShortYear "10 Jun 2024 09:30:00".toList) ∧
    zonedInstant? (trim "10 Jun 24 09:30:00".toList) = none ∧
      receivedAt (.fixed o.seconds) "10 Jun 24 09:30:00" = .ok ⟨-61395912000, 0⟩ ∧
      receivedAt (.fixed o.seconds) ("10 Jun 24 09:30:00" ++ String.ofList (' ' :: o.text [])) =
        .ok ⟨1717992000, 0⟩ ∧
      ShortYear "10 Jun 24 09:30:00".toList := by
  intro o
  have hlocal : zonedInstant? (trim "10 Jun 2024 09:30:00".toList) = none := by decide +kernel
  have ha : receivedAt (.fixed o.seconds) "10 Jun 2024 09:30:00" = .ok ⟨1717992000, 0⟩ :=
    receivedAt_eq_ok_iff.mpr (by decide +kernel)
  have hb : receivedAt (.fixed o.seconds)
      ("10 Jun 2024 09:30:00" ++ String.ofList (' ' :: o.text [])) = .ok ⟨1717992000, 0⟩ := by
    rw [receivedAt_eq_ok_iff, String.toList_append, String.toList_ofList]
    decide +kernel
  have hlocal' : zonedInstant? (trim "10 Jun 24 09:30:00".toList) = none := by decide +kernel
  have ha' : receivedAt (.fixed o.seconds) "10 Jun 24 09:30:00" = .ok ⟨-61395912000, 0⟩ :=
    receivedAt_eq_ok_iff.mpr (by decide +kernel)
  have hb' : receivedAt (.fixed o.seconds)
      ("10 Jun 24 09:30:00" ++ String.ofList (' ' :: o.text [])) = .ok ⟨1717992000, 0⟩ := by
    rw [receivedAt_eq_ok_iff, String.toList_append, String.toList_ofList]
    decide +kernel
  refine ⟨⟨hlocal, ha, hb, (receivedAt_append_offset o hlocal ha hb).mp rfl⟩, hlocal', ha', hb', ?_⟩
  by_contra hshort
  cases (receivedAt_append_offset o hlocal' ha' hb').mpr hshort

/-- A date on the clock of UTC that is another date with the offset of UTC. -/
theorem local_date_disagrees_with_offset :
    ¬∀ (o : Offset) (value : String) (a b : Instant),
      zonedInstant? (trim value.toList) = none →
      receivedAt (.fixed o.seconds) value = .ok a →
      receivedAt (.fixed o.seconds) (value ++ String.ofList (' ' :: o.text [])) = .ok b →
      a = b := by
  intro hagree
  have heq := hagree ⟨false, 0, 0, by decide, by decide⟩ "10 Jun 24 09:30:00" ⟨-61395892200, 0⟩
    ⟨1718011800, 0⟩ (by decide +kernel) (receivedAt_eq_ok_iff.mpr (by decide +kernel)) (by
      rw [receivedAt_eq_ok_iff, String.toList_append, String.toList_ofList]
      decide +kernel)
  cases heq

end MailRules.Calendar
