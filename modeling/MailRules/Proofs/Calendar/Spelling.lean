import MailRules.Proofs.Calendar.Date
import MailRules.Proofs.Calendar.Padding
import MailRules.Proofs.Calendar.Pattern
import MailRules.Proofs.Rule.Evaluation

/-!
# Spellings of a moment

A `Stamp` is a moment as a clock with an offset shows it, and a `Spelling` is a way to write it: as
a mail date, with the liberties that senders take, as a timestamp, or as the two with a blank
between them. However it is written, what is received is the instant that exact arithmetic on the
calendar gives (`Stamp.receivedAt_text`).

Each spelling is read by the form it is meant for. That the forms before it leave it alone is part
of the proof: a number with a hyphen is no mail date, and a blank before the offset is no timestamp.
-/

namespace MailRules.Calendar

open MailRules.Text

/-- A moment as a clock with an offset shows it, in the years that have four digits. -/
structure Stamp where
  date : Date
  hour : ℕ
  minute : ℕ
  second : ℕ
  offset : Offset
  exists_date : date.Exists
  year_nonneg : 0 ≤ date.year
  year_le : date.year ≤ 9999
  hour_lt : hour < 24
  minute_lt : minute < 60
  second_lt : second < 60

/-- A comment that has no parenthesis in it. -/
structure Remark where
  text : List Char
  open_not_mem : '(' ∉ text
  close_not_mem : ')' ∉ text

inductive Spelling
  /-- A mail date, with or without the day of the week, leading zeros and a comment. -/
  | mail (weekday shortDay shortHour : Bool) (remark : Option Remark)
  | timestamp
  | spaced

/-- The name with a capital letter. -/
def capitalized (name : String) : List Char :=
  match name.toList with
  | [] => []
  | c :: cs => c.toUpper :: cs

def Date.weekdayText (d : Date) : List Char := capitalized (weekdayNames.getD d.weekday "")

def Date.monthText (d : Date) : List Char := capitalized (monthNames.getD (d.month - 1) "")

def Remark.written (c : Remark) : List Char := ' ' :: '(' :: (c.text ++ [')'])

namespace Stamp

variable (t : Stamp)

def yearText : List Char := padded 4 t.date.year.toNat

/-- 2024-06-10 -/
def dateText : List Char :=
  t.yearText ++ '-' :: (padded 2 t.date.month ++ '-' :: padded 2 t.date.day)

/-- 09:30:00 -/
def clockText (width : ℕ) : List Char :=
  padded width t.hour ++ ':' :: (padded 2 t.minute ++ ':' :: padded 2 t.second)

/-- Mon, 10 Jun 2024 -/
def mailDateText (weekday shortDay : Bool) : List Char :=
  (if weekday then t.date.weekdayText ++ ", ".toList else []) ++
    padded (if shortDay then 1 else 2) t.date.day ++ ' ' :: (t.date.monthText ++ ' ' :: t.yearText)

def text : Spelling → List Char
  | .mail weekday shortDay shortHour remark =>
    t.mailDateText weekday shortDay ++ ' ' :: (t.clockText (if shortHour then 1 else 2) ++
      ' ' :: (t.offset.text [] ++ (remark.map Remark.written).getD []))
  | .timestamp => t.dateText ++ 'T' :: (t.clockText 2 ++ t.offset.text [':'])
  | .spaced => t.dateText ++ ' ' :: (t.clockText 2 ++ ' ' :: t.offset.text [])

/-- What the numbers are, with the day of the week if it is given. -/
def reading (weekday : Option ℕ) : Reading :=
  { year := t.date.year, month := t.date.month, day := t.date.day, hour := t.hour,
    minute := t.minute, second := t.second, weekday, offset := some t.offset.seconds }

def instant (days : Date → ℤ) : Instant :=
  ⟨86400 * days t.date + 3600 * t.hour + 60 * t.minute + t.second - t.offset.seconds, 0⟩

/-! ## The instant -/

theorem dayNumber_bounds : -719528 ≤ t.date.dayNumber ∧ t.date.dayNumber < 2932897 := by
  have hlo := calc
    daysBeforeYear 0 ≤ daysBeforeYear t.date.year := daysBeforeYear_mono t.year_nonneg
    _ ≤ t.date.dayNumber + epochDay := t.exists_date.daysBeforeYear_le
  have hhi := calc
    t.date.dayNumber + epochDay < daysBeforeYear (t.date.year + 1) :=
      t.exists_date.lt_daysBeforeYear
    _ ≤ daysBeforeYear 10000 := daysBeforeYear_mono (by have := t.year_le; omega)
  have hzero : daysBeforeYear 0 = -366 := rfl
  have hlast : daysBeforeYear 10000 = 3652059 := rfl
  rw [hzero, epochDay] at hlo
  rw [hlast, epochDay] at hhi
  omega

theorem instant?_reading {weekday : Option ℕ} (h : ∀ w ∈ weekday, w = t.date.weekday) :
    (t.reading weekday).instant? = some (t.instant Date.dayNumber) := by
  have hhour := t.hour_lt
  have hminute := t.minute_lt
  have hsecond := t.second_lt
  have hoffset := t.offset.natAbs_seconds_lt
  have hyear := t.year_nonneg
  have hyear' := t.year_le
  obtain ⟨hlo, hhi⟩ := t.dayNumber_bounds
  have hshown : (t.reading weekday).Shown :=
    ⟨by simp only [reading, firstYear]; omega, by simp only [reading, lastYear]; omega,
      t.exists_date, hhour, hminute, hsecond.le, h⟩
  have hlocal : (t.reading weekday).localTime? =
      some ⟨t.date, 3600 * t.hour + 60 * t.minute + t.second, 0⟩ := by
    have hmin : min (t.reading weekday).second 59 = t.second :=
      Nat.min_eq_left (Nat.le_of_lt_succ hsecond)
    have hleap : (t.reading weekday).second ≠ 60 := hsecond.ne
    refine Reading.localTime?_eq_some_iff.mpr ⟨hshown, ?_⟩
    rw [hmin, if_neg hleap]
    rfl
  have hrange : Instant.InRange (t.instant Date.dayNumber).secs := by
    simp only [instant, Instant.InRange, Instant.firstSecond, Instant.lastSecond]
    omega
  have hsecs : (LocalTime.mk t.date (3600 * t.hour + 60 * t.minute + t.second) 0).clockSeconds -
      t.offset.seconds = (t.instant Date.dayNumber).secs := by
    simp only [LocalTime.clockSeconds, instant, secondsPerDay]
    push_cast
    ring
  rw [Reading.instant?_of_offset rfl t.offset.natAbs_seconds_lt, hlocal, Option.bind_some,
    LocalTime.instant?_eq_some_iff, hsecs]
  exact ⟨hrange, rfl⟩

/-! ## The parts -/

theorem name?_weekdayText (d : Date) :
    name? weekdayNames d.weekdayText = some (d.weekday, []) := by
  have hnames : ∀ n < 7,
      name? weekdayNames (capitalized (weekdayNames.getD n "")) = some (n, []) := by decide
  exact hnames d.weekday (by rw [Date.weekday]; omega)

theorem name?_monthText {d : Date} (h : d.Exists) :
    name? monthNames d.monthText = some (d.month - 1, []) := by
  have hnames : ∀ n < 12, name? monthNames (capitalized (monthNames.getD n "")) = some (n, []) := by
    decide
  exact hnames (d.month - 1) (by have := h.2.1; omega)

theorem yearText_length : t.yearText.length = 4 :=
  length_padded_of_lt (by decide) (by have := t.year_nonneg; have := t.year_le; omega)

theorem decimal_yearText : (decimal t.yearText : ℤ) = t.date.year := by
  rw [yearText, decimal_padded, Int.toNat_of_nonneg t.year_nonneg]

theorem month_lt : t.date.month < 100 := t.exists_date.2.1.trans_lt (by decide)

theorem day_lt : t.date.day < 100 := by
  obtain ⟨hlo, hhi, -, hle⟩ := t.exists_date
  exact (hle.trans (Date.daysInMonth_le _ hlo hhi)).trans_lt (by decide)

/-- A number below a hundred takes two digits, or one if it is short. -/
theorem length_padded {n : ℕ} (short : Bool) (h : n < 100) :
    1 ≤ (padded (if short then 1 else 2) n).length ∧
      (padded (if short then 1 else 2) n).length ≤ 2 := by
  refine ⟨length_padded_pos _ _, ?_⟩
  cases short with
  | false => exact (length_padded_of_lt (by decide) h).le
  | true =>
    rcases Nat.lt_or_ge n 10 with hlt | hge
    · exact (length_padded_of_lt (by decide) hlt).le.trans (by decide)
    · exact (padded_two_of_le hge ▸ length_padded_of_lt (by decide) h).le

/-! ## As a mail date -/

open MailDate

/-- The date of a mail date and the parts it is written in. -/
def mailDate (weekday shortDay : Bool) : DateText where
  lead := []
  weekday := if weekday then t.date.weekdayText ++ [','] else []
  weekdayNumber := if weekday then some t.date.weekday else none
  pause := if weekday then [' '] else []
  day := padded (if shortDay then 1 else 2) t.date.day
  beforeMonth := [' ']
  month := t.date.monthText
  monthPlace := t.date.month - 1
  beforeYear := [' ']
  year := t.yearText
  white_lead := white_nil
  spells_weekday := by
    cases weekday with
    | false => exact .absent
    | true => exact .named (name?_weekdayText t.date)
  white_pause := by
    cases weekday with
    | false => exact white_nil
    | true => exact white_blank
  digits_day := digits_padded _ _
  length_day_pos := (length_padded shortDay t.day_lt).1
  length_day_le := (length_padded shortDay t.day_lt).2
  white_beforeMonth := white_blank
  beforeMonth_ne_nil := List.cons_ne_nil _ _
  spells_month := name?_monthText t.exists_date
  white_beforeYear := white_blank
  beforeYear_ne_nil := List.cons_ne_nil _ _
  digits_year := digits_padded _ _
  length_year := by
    rw [t.yearText_length]
    decide

theorem text_mailDate (weekday shortDay : Bool) :
    (t.mailDate weekday shortDay).text = t.mailDateText weekday shortDay := by
  cases weekday <;> simp [DateText.text, mailDate, mailDateText]

def mailTime : TimeText where
  hour := padded 2 t.hour
  beforeColon := []
  afterColon := []
  minute := padded 2 t.minute
  seconds := ':' :: padded 2 t.second
  second := t.second
  digits_hour := digits_padded _ _
  length_hour := length_padded_of_lt (by decide) (t.hour_lt.trans (by decide))
  white_beforeColon := white_nil
  white_afterColon := white_nil
  digits_minute := digits_padded _ _
  length_minute := length_padded_of_lt (by decide) (t.minute_lt.trans (by decide))
  spells_seconds := by
    have hlen : (padded 2 t.second).length = 2 :=
      length_padded_of_lt (by decide) (t.second_lt.trans (by decide))
    have hspells := SpellsSeconds.given white_nil (digits_padded 2 t.second) hlen
    rwa [List.nil_append, decimal_padded] at hspells

def header (weekday shortDay : Bool) : Header where
  date := t.mailDate weekday shortDay
  beforeTime := [' ']
  time := t.mailTime
  beforeZone := [' ']
  zone := t.offset.text []
  offset := t.offset.seconds
  white_beforeTime := white_blank
  beforeTime_ne_nil := List.cons_ne_nil _ _
  white_beforeZone := white_blank
  beforeZone_ne_nil := List.cons_ne_nil _ _
  spells_zone := spellsZone_offset t.offset

theorem text_header (weekday shortDay : Bool) :
    (t.header weekday shortDay).text = t.mailDateText weekday shortDay ++
      ' ' :: (t.clockText 2 ++ ' ' :: t.offset.text []) := by
  simp [Header.text, header, text_mailDate, TimeText.text, mailTime, clockText]

theorem reading_header (weekday shortDay : Bool) :
    (t.header weekday shortDay).reading =
      t.reading (if weekday then some t.date.weekday else none) := by
  have hmonth : t.date.month - 1 + 1 = t.date.month := Nat.sub_add_cancel t.exists_date.1
  have hyear : fullYear t.yearText.length (decimal t.yearText) = t.date.year := by
    rw [yearText_length, ← decimal_yearText]
    rfl
  simp [Header.reading, reading, header, mailDate, mailTime, hyear, hmonth]

theorem length_minute : (padded 2 t.minute).length = 2 :=
  length_padded_of_lt (by decide) (t.minute_lt.trans (by decide))

/-- A short hour gets its zero, and an hour of two digits is left alone. -/
theorem padHour_mailDateText (weekday shortDay shortHour : Bool) :
    Received.padHour (t.mailDateText weekday shortDay ++
      ' ' :: (t.clockText (if shortHour then 1 else 2) ++ ' ' :: t.offset.text [])) =
      (t.header weekday shortDay).text := by
  have hfull : Received.padHour (t.mailDateText weekday shortDay ++
      ' ' :: (t.clockText 2 ++ ' ' :: t.offset.text [])) = (t.header weekday shortDay).text := by
    rw [← text_header, Received.padHour_header]
  cases shortHour with
  | false => exact hfull
  | true =>
    rcases Nat.lt_or_ge t.hour 10 with hlt | hge
    · have hshort := Received.startsShortHour_append
        (s := ':' :: (padded 2 t.second ++ ' ' :: t.offset.text [])) (digits_padded 1 t.hour)
        (length_padded_of_lt (by decide) hlt) (digits_padded 2 t.minute) t.length_minute.ge
      rw [text_header, ← text_mailDate, if_pos rfl]
      simp only [clockText, List.append_assoc, List.cons_append]
      rw [Received.padHour_date_append_of_short _ hshort, padded_two_of_lt hlt, List.cons_append]
    · have hclock : t.clockText 1 = t.clockText 2 := by
        rw [clockText, clockText, padded_two_of_le hge]
      rw [if_pos rfl, hclock]
      exact hfull

/-! ## What is received -/

theorem exists_text_mail (weekday shortDay shortHour : Bool) :
    ∃ u, t.mailDateText weekday shortDay ++ ' ' :: (t.clockText (if shortHour then 1 else 2) ++
      ' ' :: t.offset.text []) = u ++ padded 2 t.offset.minutes := by
  obtain ⟨u, hu⟩ := Offset.exists_append_text (t.mailDateText weekday shortDay ++
    ' ' :: (t.clockText (if shortHour then 1 else 2) ++ [' '])) t.offset []
  exact ⟨u, by simpa using hu⟩

/-- What is left of a mail date after its comment and its short hour are gone. -/
theorem strict_text_mail (weekday shortDay shortHour : Bool) (remark : Option Remark) :
    Received.strict (t.text (.mail weekday shortDay shortHour remark)) =
      (t.header weekday shortDay).text := by
  obtain ⟨u, hu⟩ := t.exists_text_mail weekday shortDay shortHour
  have hdigits := digits_padded 2 t.offset.minutes
  have hne := padded_ne_nil 2 t.offset.minutes
  rw [← t.padHour_mailDateText weekday shortDay shortHour, hu]
  cases remark with
  | none =>
    rw [← Received.strict_append_digits hdigits hne, ← hu]
    simp [text]
  | some c =>
    rw [← Received.strict_append_comment hdigits hne white_blank c.open_not_mem, ← hu]
    simp [text, Remark.written]

theorem zonedInstant?_mail (weekday shortDay shortHour : Bool) (remark : Option Remark) :
    Received.zonedInstant? (t.text (.mail weekday shortDay shortHour remark)) =
      some (t.instant Date.dayNumber) := by
  have hread : MailDate.read? (t.header weekday shortDay).text =
      some (t.reading (if weekday then some t.date.weekday else none)) := by
    refine read?_eq_some_iff.mpr ⟨t.header weekday shortDay, [], ?_, ?_⟩
    · rw [Comment.textOfAll_nil, List.append_nil]
    · rw [reading_header]
  have hinstant : (t.reading (if weekday then some t.date.weekday else none)).instant? =
      some (t.instant Date.dayNumber) := by
    refine t.instant?_reading fun w hw ↦ ?_
    cases weekday with
    | false => cases hw
    | true => exact (Option.some.inj hw).symm
  rw [Received.zonedInstant?, strict_text_mail, hread, Option.bind_some, hinstant]
  rfl

/-! ## As a timestamp -/

theorem length_month : (padded 2 t.date.month).length = 2 :=
  length_padded_of_lt (by decide) t.month_lt

theorem length_day : (padded 2 t.date.day).length = 2 := length_padded_of_lt (by decide) t.day_lt

theorem length_hour : (padded 2 t.hour).length = 2 :=
  length_padded_of_lt (by decide) (t.hour_lt.trans (by decide))

theorem length_second : (padded 2 t.second).length = 2 :=
  length_padded_of_lt (by decide) (t.second_lt.trans (by decide))

/-- Padding goes past the year, and what starts with a year and a hyphen is no mail date. -/
theorem mailDate_strict_eq_none {s u ds : List Char} (hs : t.dateText ++ s = u ++ ds)
    (hds : Digits ds) (hne : ds ≠ []) :
    MailDate.read? (Received.strict (t.dateText ++ s)) = none := by
  have hyear : Digits t.yearText := digits_padded _ _
  have hlong : 2 ≤ t.yearText.length := by
    rw [yearText_length]
    decide
  rw [hs, Received.strict_append_digits hds hne, ← hs, dateText, List.append_assoc,
    List.cons_append, Received.padHour, Received.startsShortHour_digits_append hyear hlong,
    if_neg Bool.false_ne_true,
    Received.padAfterWhite_append_of_not_white fun _ ↦ Received.isWhite_eq_false_of_digits hyear]
  -- A hyphen is not white.
  exact read?_eq_none_of_mark (w := []) white_nil hyear (by decide) (by decide) (by decide)

theorem fraction?_of_stops {s : List Char} (h : Stops (· == '.') s) :
    fraction? s = some (0, s) := by
  rw [fraction?]
  rintro rest rfl
  cases stops_cons.mp h

/-- A timestamp up to its offset. -/
theorem timestamp_read? {c : Char} {rest : List Char}
    (hc : ∀ s, Timestamp.separator? (c :: s) = some s) (hrest : Stops (· == '.') rest) :
    Timestamp.read? (t.dateText ++ c :: (t.clockText 2 ++ rest)) =
      (Timestamp.offsetForm.read? rest).bind fun (offset, s) ↦
        if s.isEmpty then some { t.reading none with offset := some offset } else none := by
  have hyear (s : List Char) : digits? 4 4 (t.yearText ++ s) = some (decimal t.yearText, s) :=
    digits?_append (digits_padded _ _) t.yearText_length.ge t.yearText_length.le
      (Or.inl t.yearText_length)
  have htwo {n : ℕ} (h : (padded 2 n).length = 2) (s : List Char) :
      digits? 2 2 (padded 2 n ++ s) = some (n, s) := by
    rw [digits?_append (digits_padded _ _) h.ge h.le (Or.inl h), decimal_padded]
  simp only [dateText, List.append_assoc, List.cons_append, Timestamp.read?, Option.bind_eq_bind,
    hyear, Option.bind_some, literal?_cons_self, htwo t.length_month, htwo t.length_day, hc,
    clockText, htwo t.length_hour, htwo t.length_minute, htwo t.length_second,
    fraction?_of_stops hrest, decimal_yearText]
  rfl

theorem zonedInstant?_timestamp :
    Received.zonedInstant? (t.text .timestamp) = some (t.instant Date.dayNumber) := by
  obtain ⟨u, hu⟩ := Offset.exists_append_text (t.dateText ++ 'T' :: t.clockText 2) t.offset [':']
  have hmail := t.mailDate_strict_eq_none (by simpa using hu)
    (digits_padded 2 t.offset.minutes) (padded_ne_nil 2 t.offset.minutes)
  have hoffset := Timestamp.offsetForm.read?_text t.offset [':'] [] rfl
  rw [List.append_nil] at hoffset
  have hdot : Stops (· == '.') (t.offset.text [':']) :=
    t.offset.stops_text rfl rfl [':']
  have hread : Timestamp.read? (t.text .timestamp) = some (t.reading none) := by
    rw [text, t.timestamp_read? (fun _ ↦ rfl) hdot, hoffset]
    rfl
  rw [Received.zonedInstant?, hread, text, hmail, Option.bind_none, Option.bind_some,
    t.instant?_reading (by simp)]
  rfl

/-! ## As a timestamp with blanks -/

theorem fill?_isoDate (r : Reading) (rest : List Char) :
    Pattern.isoDate.fill? r (t.dateText ++ rest) =
      some ({ r with year := t.date.year, month := t.date.month, day := t.date.day }, rest) := by
  have hdigits : Digits t.yearText := digits_padded _ _
  rw [dateText, List.append_assoc, Pattern.isoDate, Pattern.fill?_year_append hdigits
    (length_padded_pos _ _) t.yearText_length.le (Or.inl t.yearText_length), decimal_yearText]
  simp only [List.append_assoc, List.cons_append, Pattern.fill?, Piece.read?,
    Piece.twoDigits?_padded t.length_month, Piece.twoDigits?_padded t.length_day,
    literal?_cons_self, Option.map_some, Option.bind_eq_bind, Option.bind_some]

theorem fill?_fullTime (r : Reading) (rest : List Char) :
    Pattern.fullTime.fill? r (t.clockText 2 ++ rest) =
      some ({ r with hour := t.hour, minute := t.minute, second := t.second }, rest) := by
  simp only [clockText, List.append_assoc, List.cons_append, Pattern.fullTime, Pattern.shortTime,
    Pattern.fill?, Piece.read?, List.nil_append, Piece.twoDigits?_padded t.length_hour,
    Piece.twoDigits?_padded t.length_minute, Piece.twoDigits?_padded t.length_second,
    literal?_cons_self, Option.map_some, Option.bind_eq_bind, Option.bind_some]

theorem isWhite_eq_false_of_mem_dateText {c : Char} (h : c ∈ t.dateText) : isWhite c = false := by
  simp only [dateText, List.mem_append, List.mem_cons] at h
  rcases h with hc | rfl | hc | rfl | hc
  · exact isWhite_eq_false_of_isDigit (digits_padded _ _ c hc)
  · rfl
  · exact isWhite_eq_false_of_isDigit (digits_padded _ _ c hc)
  · rfl
  · exact isWhite_eq_false_of_isDigit (digits_padded _ _ c hc)

theorem isWhite_eq_false_of_mem_clockText {c : Char} {width : ℕ} (h : c ∈ t.clockText width) :
    isWhite c = false := by
  simp only [clockText, List.mem_append, List.mem_cons] at h
  rcases h with hc | rfl | hc | rfl | hc
  · exact isWhite_eq_false_of_isDigit (digits_padded _ _ c hc)
  · rfl
  · exact isWhite_eq_false_of_isDigit (digits_padded _ _ c hc)
  · rfl
  · exact isWhite_eq_false_of_isDigit (digits_padded _ _ c hc)

open Received in
/-- An hour of two digits is left alone. -/
theorem padHour_text_spaced : padHour (t.text .spaced) = t.text .spaced := by
  have hdate : startsShortHour (t.text .spaced) = false := by
    rw [text, dateText, List.append_assoc]
    exact startsShortHour_digits_append (digits_padded _ _) (by rw [yearText_length]; decide)
  have hclock : startsShortHour (t.clockText 2 ++ ' ' :: t.offset.text []) = false := by
    rw [clockText, List.append_assoc]
    exact startsShortHour_digits_append (digits_padded _ _) t.length_hour.ge
  have hzone : startsShortHour (t.offset.text []) = false :=
    startsShortHour_eq_false_of_stops (t.offset.stops_text rfl rfl [])
  have hend : padAfterWhite (t.offset.text [] ++ []) = t.offset.text [] ++ [] :=
    padAfterWhite_append_of_not_white fun _ ↦ (spellsZone_offset t.offset).isWhite_eq_false
  rw [List.append_nil] at hend
  rw [padHour, hdate, if_neg Bool.false_ne_true, text,
    padAfterWhite_append_of_not_white fun _ ↦ t.isWhite_eq_false_of_mem_dateText,
    padAfterWhite_cons_of_not_short hclock,
    padAfterWhite_append_of_not_white fun _ ↦ t.isWhite_eq_false_of_mem_clockText,
    padAfterWhite_cons_of_not_short hzone, hend]

theorem read?_spaced :
    Pattern.read? (Pattern.isoDate ++ [.blank] ++ Pattern.fullTime ++ [.blank, .offset])
      (t.text .spaced) = some (t.reading none) := by
  have hblank : trimStart (' ' :: (t.clockText 2 ++ ' ' :: t.offset.text [])) =
      t.clockText 2 ++ ' ' :: t.offset.text [] := by
    rw [trimStart_cons_of_white (by decide), clockText, List.append_assoc]
    exact trimStart_of_stops ((digits_padded 2 t.hour).stops_white (padded_ne_nil _ _))
  have hblank' : trimStart (' ' :: t.offset.text []) = t.offset.text [] := by
    rw [trimStart_cons_of_white (by decide), t.offset.trimStart_text]
  rw [Pattern.read?_eq_some_iff]
  simp only [Pattern.fill?_append, text, fill?_isoDate, Option.bind_some, Pattern.fill?_blank,
    Pattern.fill?_nil, hblank, fill?_fullTime, hblank', Pattern.fill?_offset_text]
  rfl

theorem zonedInstant?_spaced :
    Received.zonedInstant? (t.text .spaced) = some (t.instant Date.dayNumber) := by
  obtain ⟨u, hu⟩ :=
    Offset.exists_append_text (t.dateText ++ ' ' :: (t.clockText 2 ++ [' '])) t.offset []
  have htext : t.text .spaced = u ++ padded 2 t.offset.minutes := by
    rw [← hu, text]
    simp
  have hdigits := digits_padded 2 t.offset.minutes
  have hne := padded_ne_nil 2 t.offset.minutes
  have hmail : MailDate.read? (Received.strict (t.text .spaced)) = none :=
    t.mailDate_strict_eq_none htext hdigits hne
  have hstamp : Timestamp.read? (t.text .spaced) = none := by
    rw [text, t.timestamp_read? (fun _ ↦ rfl) (stops_cons.mpr rfl)]
    rfl
  have hstrict : Received.strict (t.text .spaced) = t.text .spaced := by
    rw [htext, Received.strict_append_digits hdigits hne, ← htext, padHour_text_spaced]
  rw [Received.zonedInstant?, hmail, hstamp, hstrict, Pattern.zoned, List.findSome?_cons,
    read?_spaced, Option.bind_some, t.instant?_reading (by simp)]
  rfl

/-! ## However it is written -/

theorem zonedInstant?_text (spelling : Spelling) :
    Received.zonedInstant? (t.text spelling) = some (t.instant Date.dayNumber) := by
  cases spelling with
  | mail weekday shortDay shortHour remark =>
    exact t.zonedInstant?_mail weekday shortDay shortHour remark
  | timestamp => exact t.zonedInstant?_timestamp
  | spaced => exact t.zonedInstant?_spaced

theorem stops_white_dateText (s : List Char) : Stops isWhite (t.dateText ++ s) := by
  rw [dateText, List.append_assoc]
  exact (digits_padded 4 _).stops_white (padded_ne_nil _ _)

theorem stops_white_mailDateText (weekday shortDay : Bool) (s : List Char) :
    Stops isWhite (t.mailDateText weekday shortDay ++ s) := by
  cases weekday with
  | false =>
    simp only [mailDateText, List.append_assoc]
    exact (digits_padded _ _).stops_white (padded_ne_nil _ _)
  | true =>
    obtain ⟨hne, hletters⟩ := isLetter_of_weekdayName? (name?_weekdayText t.date)
    simp only [mailDateText, if_pos, List.append_assoc]
    exact stops_white_of_letters hne hletters

theorem trimmed_text (spelling : Spelling) : Trimmed (t.text spelling) := by
  cases spelling with
  | mail weekday shortDay shortHour remark =>
    refine ⟨t.stops_white_mailDateText weekday shortDay _, ?_⟩
    cases remark with
    | none =>
      have h := Offset.stops_white_reverse (t.mailDateText weekday shortDay ++
        ' ' :: (t.clockText (if shortHour then 1 else 2) ++ [' '])) t.offset []
      simpa [text] using h
    | some c =>
      have hclose : isWhite ')' = false := by decide
      simp [text, Remark.written, hclose]
  | timestamp =>
    refine ⟨t.stops_white_dateText _, ?_⟩
    have h := Offset.stops_white_reverse (t.dateText ++ 'T' :: t.clockText 2) t.offset [':']
    simpa [text] using h
  | spaced =>
    refine ⟨t.stops_white_dateText _, ?_⟩
    have h := Offset.stops_white_reverse (t.dateText ++ ' ' :: (t.clockText 2 ++ [' '])) t.offset []
    simpa [text] using h

/-- **However a moment is written, it is received as the instant that counting days gives.** White
space around it and the zone of the reader make no difference. -/
theorem receivedAt_text {days : Date → ℤ} (hdays : CountsDays days) (t : Stamp)
    (spelling : Spelling) {before after : List Char} (hbefore : White before)
    (hafter : White after) (zone : Zone) :
    receivedAt zone (String.ofList (before ++ t.text spelling ++ after)) = .ok
      ⟨86400 * days t.date + 3600 * t.hour + 60 * t.minute + t.second - t.offset.seconds, 0⟩ := by
  rw [hdays.eq_dayNumber t.exists_date, receivedAt_eq_ok_iff, String.toList_ofList,
    Received.instant?, trim_of_trimmed hbefore hafter (t.trimmed_text spelling),
    zonedInstant?_text]
  rfl

/-- A morning in Newfoundland. -/
def leapDay : Stamp where
  date := ⟨2024, 2, 29⟩
  hour := 9
  minute := 30
  second := 5
  offset := ⟨true, 3, 30, by decide, by decide⟩
  exists_date := by decide
  year_nonneg := by decide
  year_le := by decide
  hour_lt := by decide
  minute_lt := by decide
  second_lt := by decide

/-- Ideographic blanks are white space too. -/
theorem receivedAt_leapDay :
    CountsDays Date.dayNumber ∧ White ['\u3000'] ∧ White ['\n'] ∧
      receivedAt .india "\u3000Thu, 29 Feb 2024 9:30:05 -0330 (NST)\n" = .ok ⟨1709211605, 0⟩ := by
  have hbefore : White ['\u3000'] := by simpa using (by decide : isWhite '\u3000' = true)
  have hafter : White ['\n'] := by simpa using (by decide : isWhite '\n' = true)
  refine ⟨countsDays_dayNumber, hbefore, hafter, ?_⟩
  exact receivedAt_text countsDays_dayNumber leapDay
    (.mail true true true (some ⟨"NST".toList, by decide, by decide⟩)) hbefore hafter .india

end Stamp

end MailRules.Calendar
