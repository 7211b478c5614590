import MailRules.Proofs.Calendar.Comment
import MailRules.Proofs.Calendar.Scan

/-!
# The grammar of mail dates

A mail date is a `Header` followed by comments. A header holds the parts of the date as they are
written, white space included, and what each of them spells; its fields say what a part has to be
like. `MailDate.read?` accepts exactly the texts of headers followed by comments, and gives the
reading of the header (`read?_eq_some_iff`).

The parts are taken off the text from the front, and the white space between them makes every
number and every name stop where it should. Only the zone may be followed by anything but white
space, namely by a comment; there a letter would go on with it, and nothing else would.
-/

namespace MailRules.Calendar.MailDate

open MailRules.Text

variable {s u w rest : List Char} {n : ℕ}

/-! ## Day of the week -/

/-- No day of the week at all, or a name and a comma. -/
inductive SpellsWeekday : List Char → Option ℕ → Prop
  | absent : SpellsWeekday [] none
  | named {u : List Char} {n : ℕ} (h : name? weekdayNames u = some (n, [])) :
      SpellsWeekday (u ++ [',']) (some n)

theorem SpellsWeekday.weekday?_append {day : Option ℕ} (h : SpellsWeekday u day)
    (hrest : Stops isLetter rest) : weekday? (u ++ rest) = some (day, rest) := by
  cases h with
  | absent => rw [List.nil_append, weekday?, weekdayName?_eq_none_of_stops hrest]
  | named h =>
    rw [weekday?, weekdayName?, List.append_assoc, name?_append h]
    simp

theorem exists_of_weekday? {day : Option ℕ} (h : weekday? s = some (day, rest)) :
    ∃ u, s = u ++ rest ∧ SpellsWeekday u day := by
  rw [weekday?] at h
  split at h
  · obtain ⟨rfl, rfl⟩ := Prod.mk.inj (Option.some.inj h)
    exact ⟨[], rfl, .absent⟩
  · rename_i n after hname
    obtain ⟨after', hcomma, hday⟩ := Option.map_eq_some_iff.mp h
    obtain ⟨rfl, rfl⟩ := Prod.mk.inj hday
    obtain rfl := literal?_eq_some_iff.mp hcomma
    obtain ⟨u, rfl, hu⟩ := name?_eq_some_iff.mp hname
    exact ⟨u ++ [','], by simp, .named hu⟩

/-! ## Time -/

/-- No seconds at all, or a colon and two digits. -/
inductive SpellsSeconds : List Char → ℕ → Prop
  | absent : SpellsSeconds [] 0
  | given {w ds : List Char} (white : White w) (digits : Digits ds) (length : ds.length = 2) :
      SpellsSeconds (w ++ ':' :: ds) (decimal ds)

/-- A time of the day as it is written. White space may stand around the first colon. -/
structure TimeText where
  hour : List Char
  beforeColon : List Char
  afterColon : List Char
  minute : List Char
  seconds : List Char
  second : ℕ
  digits_hour : Digits hour
  length_hour : hour.length = 2
  white_beforeColon : White beforeColon
  white_afterColon : White afterColon
  digits_minute : Digits minute
  length_minute : minute.length = 2
  spells_seconds : SpellsSeconds seconds second

theorem stops_white_colon : Stops isWhite (':' :: s) := by
  simpa using (by decide : isWhite ':' = false)

namespace TimeText

def text (t : TimeText) : List Char :=
  t.hour ++ (t.beforeColon ++ ':' :: (t.afterColon ++ (t.minute ++ t.seconds)))

theorem minute_ne_nil (t : TimeText) : t.minute ≠ [] :=
  List.ne_nil_of_length_pos (by rw [t.length_minute]; decide)

theorem hour_ne_nil (t : TimeText) : t.hour ≠ [] :=
  List.ne_nil_of_length_pos (by rw [t.length_hour]; decide)

theorem time?_append (t : TimeText) (hrest : Stops (· == ':') (trimStart rest)) :
    time? (t.text ++ rest) = some ((decimal t.hour, decimal t.minute, t.second), rest) := by
  simp only [text, List.append_assoc, List.cons_append, time?, Option.bind_eq_bind]
  rw [digits?_append t.digits_hour t.length_hour.ge t.length_hour.le (Or.inl t.length_hour)]
  simp only [Option.bind_some]
  rw [trimStart_append_of_white t.white_beforeColon, trimStart_of_stops stops_white_colon,
    literal?_cons_self]
  simp only [Option.bind_some]
  rw [trimStart_append_of_white t.white_afterColon,
    trimStart_of_stops (t.digits_minute.stops_white t.minute_ne_nil),
    digits?_append t.digits_minute t.length_minute.ge t.length_minute.le (Or.inl t.length_minute)]
  simp only [Option.bind_some]
  have hspells := t.spells_seconds
  generalize t.seconds = seconds, t.second = second at hspells ⊢
  cases hspells with
  | absent => rw [List.nil_append, literal?_eq_none_of_stops hrest]
  | @given w ds hw hds hlen =>
    rw [List.append_assoc, List.cons_append, trimStart_append_of_white hw,
      trimStart_of_stops stops_white_colon, literal?_cons_self]
    simp only
    rw [digits?_append hds hlen.ge hlen.le (Or.inl hlen)]
    rfl

theorem exists_of_time? {hour minute second : ℕ}
    (h : time? s = some ((hour, minute, second), rest)) :
    ∃ t : TimeText, s = t.text ++ rest ∧ hour = decimal t.hour ∧ minute = decimal t.minute ∧
      second = t.second := by
  simp only [time?, Option.bind_eq_bind, Option.bind_eq_some_iff, Prod.exists] at h
  obtain ⟨_, s₁, hhour, s₂, hcolon, _, s₃, hminute, hseconds⟩ := h
  obtain ⟨hs, rfl, hdigits, hlo, hhi, -, rfl⟩ := digits?_eq_some_iff.mp hhour
  obtain ⟨w, hw, hs₁⟩ := exists_trimStart s₁
  rw [literal?_eq_some_iff.mp hcolon] at hs₁
  obtain ⟨w', hw', hs₂⟩ := exists_trimStart s₂
  obtain ⟨ms, hms, hdigits', hlo', hhi', -, rfl⟩ := digits?_eq_some_iff.mp hminute
  rw [hms] at hs₂
  obtain ⟨seconds, rfl, hspells, rfl, rfl⟩ : ∃ seconds, s₃ = seconds ++ rest ∧
      SpellsSeconds seconds second ∧ decimal hs = hour ∧ decimal ms = minute := by
    split at hseconds
    · obtain ⟨htime, rfl⟩ := Prod.mk.inj (Option.some.inj hseconds)
      obtain ⟨rfl, hrest⟩ := Prod.mk.inj htime
      obtain ⟨rfl, rfl⟩ := Prod.mk.inj hrest
      exact ⟨[], rfl, .absent, rfl, rfl⟩
    · rename_i s₄ hcolon'
      obtain ⟨⟨_, s₅⟩, hsecond, hfound⟩ := Option.bind_eq_some_iff.mp hseconds
      obtain ⟨htime, rfl⟩ := Prod.mk.inj (Option.some.inj hfound)
      obtain ⟨rfl, hrest⟩ := Prod.mk.inj htime
      obtain ⟨rfl, rfl⟩ := Prod.mk.inj hrest
      obtain ⟨ss, rfl, hdigits'', hlo'', hhi'', -, rfl⟩ := digits?_eq_some_iff.mp hsecond
      obtain ⟨w'', hw'', hs₃⟩ := exists_trimStart s₃
      rw [literal?_eq_some_iff.mp hcolon'] at hs₃
      exact ⟨w'' ++ ':' :: ss, by simp [hs₃], .given hw'' hdigits'' (le_antisymm hhi'' hlo''),
        rfl, rfl⟩
  refine ⟨⟨hs, w, w', ms, seconds, second, hdigits, le_antisymm hhi hlo, hw, hw', hdigits',
    le_antisymm hhi' hlo', hspells⟩, ?_, rfl, rfl, rfl⟩
  simp only [text, List.append_assoc, List.cons_append]
  rw [hs₁, hs₂]

end TimeText

/-! ## Zone -/

/-- Letters that name a zone, or a sign and four digits. -/
inductive SpellsZone : List Char → ℤ → Prop
  | named {u : List Char} {hours : ℤ} (letters : ∀ c ∈ u, isLetter c = true) (ne_nil : u ≠ [])
      (name : namedZone? (String.ofList (u.map Char.toLower)) = some hours) :
      SpellsZone u (3600 * hours)
  | offset {c : Char} {sign : ℤ} {hours minutes : List Char} (signs : c = '+' ∨ c = '-')
      (sign_eq : ∀ t, offsetForm.sign? (c :: t) = some (sign, t)) (digits_hours : Digits hours)
      (length_hours : hours.length = 2) (digits_minutes : Digits minutes)
      (length_minutes : minutes.length = 2) (minutes_lt : decimal minutes < 60) :
      SpellsZone (c :: (hours ++ minutes))
        (sign * (3600 * decimal hours + 60 * decimal minutes : ℕ))

theorem isLetter_sign {c : Char} (h : c = '+' ∨ c = '-') : isLetter c = false := by
  rcases h with rfl | rfl <;> decide

namespace SpellsZone

variable {v : ℤ}

theorem ne_nil (h : SpellsZone u v) : u ≠ [] := by
  cases h with
  | named _ hne _ => exact hne
  | offset => exact List.cons_ne_nil _ _

/-- The characters of zones. -/
theorem char_cases (h : SpellsZone u v) {c : Char} (hc : c ∈ u) :
    isLetter c = true ∨ isDigit c = true ∨ c = '+' ∨ c = '-' := by
  cases h with
  | named hletters _ _ => exact Or.inl (hletters c hc)
  | offset hsigns _ hhours _ hminutes _ _ =>
    rcases List.mem_cons.mp hc with rfl | hc
    · exact Or.inr (Or.inr hsigns)
    · rcases List.mem_append.mp hc with hc | hc
      · exact Or.inr (Or.inl (hhours c hc))
      · exact Or.inr (Or.inl (hminutes c hc))

theorem isWhite_eq_false (h : SpellsZone u v) {c : Char} (hc : c ∈ u) : isWhite c = false := by
  rcases h.char_cases hc with hletter | hdigit | rfl | rfl
  · exact isWhite_eq_false_of_isLetter hletter
  · exact isWhite_eq_false_of_isDigit hdigit
  · decide
  · decide

theorem stops_white (h : SpellsZone u v) : Stops isWhite (u ++ rest) := by
  rw [stops_append_of_ne_nil h.ne_nil]
  exact fun c hc ↦ h.isWhite_eq_false (List.mem_of_mem_head? hc)

theorem zone?_append (h : SpellsZone u v) (hrest : Stops isLetter rest) :
    zone? (u ++ rest) = some (v, rest) := by
  cases h with
  | named hletters hne hname =>
    rw [zone?, takeWhile_append_of_stops hletters hrest, if_neg (by simpa using hne), hname,
      List.drop_left]
    rfl
  | offset hsigns hsign hhours hlen hminutes hlen' hlt =>
    have hstop {t : List Char} : Stops isLetter (_ :: t) := stops_cons.mpr (isLetter_sign hsigns)
    rw [List.cons_append, List.append_assoc, zone?, takeWhile_of_stops hstop]
    simp only [List.isEmpty_nil, if_true]
    rw [OffsetForm.read?_eq_signed? fun hzulu ↦ absurd hzulu (by decide)]
    exact OffsetForm.signed?_append hsign hhours hlen rfl hminutes hlen' hlt

end SpellsZone

theorem spellsZone_offset (o : Offset) : SpellsZone (o.text []) o.seconds := by
  have hsigns : o.sign = '+' ∨ o.sign = '-' := o.sign_eq.symm
  have hsign (t : List Char) :
      offsetForm.sign? (o.sign :: t) = some (if o.negative then -1 else 1, t) := by
    rw [Offset.sign]
    cases o.negative <;> rfl
  have hspells := SpellsZone.offset hsigns hsign (digits_padded 2 o.hours) o.length_hours
    (digits_padded 2 o.minutes) o.length_minutes (by simpa using o.minutes_lt)
  simpa [Offset.text, Offset.seconds] using hspells

theorem exists_of_zone? {v : ℤ} (h : zone? s = some (v, rest)) :
    ∃ u, s = u ++ rest ∧ SpellsZone u v := by
  obtain ⟨letters, tail, rfl, hletters, htail⟩ := exists_scan isLetter s
  rw [zone?, takeWhile_append_of_stops hletters htail, List.drop_left] at h
  split at h
  · rename_i hempty
    obtain rfl := List.isEmpty_iff.mp hempty
    rw [OffsetForm.read?_eq_signed? fun hzulu ↦ absurd hzulu (by decide)] at h
    obtain ⟨c, sign, hours, middle, minutes, hs, hc, hsign, hhours, hlen, hskip, hminutes, hlen',
      hlt, rfl⟩ := OffsetForm.signed?_eq_some h
    obtain rfl : middle = minutes ++ rest := Option.some.inj hskip
    -- Mail dates know no typographic minus sign.
    have hsigns : c = '+' ∨ c = '-' := by
      rcases hc with hc | hc | ⟨hminus, -⟩
      · exact Or.inl hc
      · exact Or.inr hc
      · cases hminus
    exact ⟨c :: (hours ++ minutes), by simp [hs],
      .offset hsigns hsign hhours hlen hminutes hlen' hlt⟩
  · rename_i hne
    obtain ⟨hours, hname, hv⟩ := Option.map_eq_some_iff.mp h
    obtain ⟨rfl, rfl⟩ := Prod.mk.inj hv
    exact ⟨letters, rfl, .named hletters (by simpa using hne) hname⟩

/-! ## Year -/

theorem year?_append (hds : Digits u) (hlen : 2 ≤ u.length) (hrest : Stops isDigit rest) :
    year? (u ++ rest) = some (fullYear u.length (decimal u), rest) := by
  have hne : u ≠ [] := List.ne_nil_of_length_pos (by omega)
  rw [year?, numeral?_append hds hne hrest]
  simp only [Option.bind_eq_bind, Option.bind_some, List.length_append, Nat.add_sub_cancel]
  rw [if_neg (by omega)]

theorem exists_of_year? (h : year? s = some (n, rest)) :
    ∃ u, s = u ++ rest ∧ Digits u ∧ 2 ≤ u.length ∧ n = fullYear u.length (decimal u) := by
  simp only [year?, Option.bind_eq_bind, Option.bind_eq_some_iff, Prod.exists] at h
  obtain ⟨value, s', hnumeral, hyear⟩ := h
  obtain ⟨u, rfl, hds, -, -, rfl⟩ := numeral?_eq_some_iff.mp hnumeral
  rw [List.length_append, Nat.add_sub_cancel] at hyear
  split at hyear
  · cases hyear
  · obtain ⟨rfl, rfl⟩ := Prod.mk.inj (Option.some.inj hyear)
    exact ⟨u, rfl, hds, by omega, rfl⟩

/-! ## Headers -/

/-- A date as it is written in front of the time. -/
structure DateText where
  lead : List Char
  weekday : List Char
  weekdayNumber : Option ℕ
  pause : List Char
  day : List Char
  beforeMonth : List Char
  month : List Char
  /-- Months before this one in the year. -/
  monthPlace : ℕ
  beforeYear : List Char
  year : List Char
  white_lead : White lead
  spells_weekday : SpellsWeekday weekday weekdayNumber
  white_pause : White pause
  digits_day : Digits day
  length_day_pos : 1 ≤ day.length
  length_day_le : day.length ≤ 2
  white_beforeMonth : White beforeMonth
  beforeMonth_ne_nil : beforeMonth ≠ []
  spells_month : name? monthNames month = some (monthPlace, [])
  white_beforeYear : White beforeYear
  beforeYear_ne_nil : beforeYear ≠ []
  digits_year : Digits year
  length_year : 2 ≤ year.length

namespace DateText

variable (d : DateText)

def text : List Char :=
  d.lead ++ (d.weekday ++ (d.pause ++ (d.day ++ (d.beforeMonth ++ (d.month ++
    (d.beforeYear ++ d.year))))))

theorem day_ne_nil : d.day ≠ [] := List.ne_nil_of_length_pos d.length_day_pos

theorem year_ne_nil : d.year ≠ [] :=
  List.ne_nil_of_length_pos (lt_of_lt_of_le (by decide) d.length_year)

end DateText

/-- A mail date as it is written, without the comments at its end. -/
structure Header where
  date : DateText
  beforeTime : List Char
  time : TimeText
  beforeZone : List Char
  zone : List Char
  offset : ℤ
  white_beforeTime : White beforeTime
  beforeTime_ne_nil : beforeTime ≠ []
  white_beforeZone : White beforeZone
  beforeZone_ne_nil : beforeZone ≠ []
  spells_zone : SpellsZone zone offset

namespace Header

variable (h : Header)

def text : List Char :=
  h.date.text ++ (h.beforeTime ++ (h.time.text ++ (h.beforeZone ++ h.zone)))

def reading : Reading where
  year := fullYear h.date.year.length (decimal h.date.year)
  month := h.date.monthPlace + 1
  day := decimal h.date.day
  hour := decimal h.time.hour
  minute := decimal h.time.minute
  second := h.time.second
  weekday := h.date.weekdayNumber
  offset := some h.offset

end Header

theorem stops_white_of_letters (hne : u ≠ []) (hu : ∀ c ∈ u, isLetter c = true) :
    Stops isWhite (u ++ rest) :=
  stops_append_of_all hu hne fun _ ↦ isWhite_eq_false_of_isLetter

/-- The day of the week and the white space around it are passed over. -/
theorem DateText.weekday?_trimStart (d : DateText) (rest : List Char) :
    ∃ s, weekday? (trimStart (d.lead ++ (d.weekday ++ (d.pause ++ (d.day ++ rest))))) =
      some (d.weekdayNumber, s) ∧ trimStart s = d.day ++ rest := by
  have hday : Stops isWhite (d.day ++ rest) := d.digits_day.stops_white d.day_ne_nil
  have hletter : Stops isLetter (d.day ++ rest) :=
    stops_append_of_all d.digits_day d.day_ne_nil fun _ ↦ isLetter_eq_false_of_isDigit
  rw [trimStart_append_of_white d.white_lead]
  have hspells := d.spells_weekday
  generalize d.weekday = u, d.weekdayNumber = number at hspells ⊢
  cases hspells with
  | absent =>
    refine ⟨d.day ++ rest, ?_, trimStart_of_stops hday⟩
    rw [List.nil_append, trimStart_append_of_white d.white_pause, trimStart_of_stops hday]
    exact SpellsWeekday.absent.weekday?_append hletter
  | @named u n hname =>
    obtain ⟨hne, hletters⟩ := isLetter_of_weekdayName? hname
    refine ⟨d.pause ++ (d.day ++ rest), ?_, ?_⟩
    · rw [List.append_assoc, trimStart_of_stops (stops_white_of_letters hne hletters),
        ← List.append_assoc]
      refine (SpellsWeekday.named hname).weekday?_append ?_
      rcases eq_or_ne d.pause [] with hnil | hpause
      · rw [hnil]
        exact hletter
      · exact stops_append_of_all d.white_pause hpause fun _ ↦ isLetter_eq_false_of_isWhite
    · rw [trimStart_append_of_white d.white_pause, trimStart_of_stops hday]

/-- A date starts with its day, or else with no digit. -/
theorem DateText.exists_start (d : DateText) (s : List Char) :
    Stops isDigit (d.text ++ s) ∨ ∃ t, d.text ++ s = d.day ++ (d.beforeMonth ++ t) := by
  simp only [text, List.append_assoc]
  rcases eq_or_ne d.lead [] with hlead | hlead
  · rw [hlead, List.nil_append]
    have hspells := d.spells_weekday
    generalize d.weekday = u, d.weekdayNumber = number at hspells
    cases hspells with
    | absent =>
      rw [List.nil_append]
      rcases eq_or_ne d.pause [] with hpause | hpause
      · exact Or.inr ⟨_, by rw [hpause, List.nil_append]⟩
      · exact Or.inl (d.white_pause.stops_digit hpause)
    | named hname =>
      obtain ⟨hne, hletters⟩ := isLetter_of_weekdayName? hname
      left
      rw [List.append_assoc]
      exact stops_append_of_all hletters hne fun _ ↦ isDigit_eq_false_of_isLetter
  · exact Or.inl (d.white_lead.stops_digit hlead)

/-- What follows a header is read as comments, whatever it is. -/
theorem Header.read?_append (h : Header) (hrest : Stops isLetter rest) :
    read? (h.text ++ rest) = if onlyComments rest then some h.reading else none := by
  obtain ⟨hmonth, hletters⟩ := isLetter_of_monthName? h.date.spells_month
  have hzone : trimStart (h.beforeZone ++ (h.zone ++ rest)) = h.zone ++ rest := by
    rw [trimStart_append_of_white h.white_beforeZone, trimStart_of_stops h.spells_zone.stops_white]
  have hcolon : Stops (· == ':') (h.zone ++ rest) := by
    rw [stops_append_of_ne_nil h.spells_zone.ne_nil]
    intro c hc
    rcases h.spells_zone.char_cases (List.mem_of_mem_head? hc) with hc | hc | rfl | rfl
    · exact beq_eq_false_of hc rfl
    · exact beq_eq_false_of hc rfl
    · rfl
    · rfl
  simp only [text, DateText.text, List.append_assoc, read?, Option.bind_eq_bind]
  obtain ⟨s, hweekday, hs⟩ := h.date.weekday?_trimStart (h.date.beforeMonth ++ (h.date.month ++
    (h.date.beforeYear ++ (h.date.year ++ (h.beforeTime ++ (h.time.text ++
      (h.beforeZone ++ (h.zone ++ rest))))))))
  rw [hweekday]
  simp only [Option.bind_some]
  rw [hs, digits?_append h.date.digits_day h.date.length_day_pos h.date.length_day_le
    (Or.inr (h.date.white_beforeMonth.stops_digit h.date.beforeMonth_ne_nil))]
  simp only [Option.bind_some]
  rw [gap?_append h.date.white_beforeMonth h.date.beforeMonth_ne_nil
    (stops_white_of_letters hmonth hletters)]
  simp only [Option.bind_some]
  rw [monthName?_append h.date.spells_month]
  simp only [Option.bind_some]
  rw [gap?_append h.date.white_beforeYear h.date.beforeYear_ne_nil
    (h.date.digits_year.stops_white h.date.year_ne_nil)]
  simp only [Option.bind_some]
  rw [year?_append h.date.digits_year h.date.length_year
    (h.white_beforeTime.stops_digit h.beforeTime_ne_nil)]
  simp only [Option.bind_some]
  rw [gap?_append h.white_beforeTime h.beforeTime_ne_nil (by
    rw [TimeText.text, List.append_assoc]
    exact h.time.digits_hour.stops_white h.time.hour_ne_nil)]
  simp only [Option.bind_some]
  rw [h.time.time?_append (by rwa [hzone])]
  simp only [Option.bind_some]
  rw [gap?_append h.white_beforeZone h.beforeZone_ne_nil h.spells_zone.stops_white]
  simp only [Option.bind_some]
  rw [h.spells_zone.zone?_append hrest]
  rfl

theorem exists_of_read? {r : Reading} (hread : read? s = some r) :
    ∃ (h : Header) (rest : List Char), s = h.text ++ rest ∧ onlyComments rest = true ∧
      r = h.reading := by
  simp only [read?, Option.bind_eq_bind, Option.bind_eq_some_iff, Prod.exists] at hread
  obtain ⟨weekday, s₁, hweekday, day, s₂, hday, s₃, hgap₃, month, s₄, hmonth, s₅, hgap₅,
    year, s₆, hyear, s₇, hgap₇, hour, minute, second, s₈, htime, s₉, hgap₉, offset, rest,
    hzone, hrest⟩ := hread
  split at hrest
  · rename_i honly
    obtain ⟨lead, hlead, hs⟩ := exists_trimStart s
    obtain ⟨u, hu, hspells⟩ := exists_of_weekday? hweekday
    obtain ⟨pause, hpause, hs₁⟩ := exists_trimStart s₁
    obtain ⟨ds, hds, hdigits, hlo, hhi, -, rfl⟩ := digits?_eq_some_iff.mp hday
    obtain ⟨w₃, hne₃, hw₃, rfl, -⟩ := gap?_eq_some_iff.mp hgap₃
    obtain ⟨m, place, rfl, hm, rfl⟩ := exists_of_monthName? hmonth
    obtain ⟨w₅, hne₅, hw₅, rfl, -⟩ := gap?_eq_some_iff.mp hgap₅
    obtain ⟨ys, rfl, hys, hlen, rfl⟩ := exists_of_year? hyear
    obtain ⟨w₇, hne₇, hw₇, rfl, -⟩ := gap?_eq_some_iff.mp hgap₇
    obtain ⟨t, rfl, rfl, rfl, rfl⟩ := TimeText.exists_of_time? htime
    obtain ⟨w₉, hne₉, hw₉, rfl, -⟩ := gap?_eq_some_iff.mp hgap₉
    obtain ⟨z, rfl, hz⟩ := exists_of_zone? hzone
    refine ⟨⟨⟨lead, u, weekday, pause, ds, w₃, m, place, w₅, ys, hlead, hspells, hpause, hdigits,
      hlo, hhi, hw₃, hne₃, hm, hw₅, hne₅, hys, hlen⟩, w₇, t, w₉, z, offset, hw₇, hne₇, hw₉, hne₉,
      hz⟩, rest, ?_, honly, (Option.some.inj hrest).symm⟩
    rw [hs, hu, hs₁, hds]
    simp only [Header.text, DateText.text, List.append_assoc]
  · cases hrest

/-- Comments start with white space or with a parenthesis. -/
theorem stops_letter_textOfAll (cs : List Comment) : Stops isLetter (Comment.textOfAll cs) := by
  cases cs with
  | nil => exact stops_nil
  | cons c cs =>
    rw [Comment.textOfAll_cons, Comment.text, List.append_assoc]
    rcases eq_or_ne c.space [] with hnil | hne
    · rw [hnil, List.nil_append, List.cons_append, stops_cons]
      decide
    · exact stops_append_of_all c.white_space hne fun _ ↦ isLetter_eq_false_of_isWhite

/-- **The reader of mail dates accepts exactly headers that are followed by comments.** -/
theorem read?_eq_some_iff {r : Reading} :
    read? s = some r ↔
      ∃ (h : Header) (cs : List Comment), s = h.text ++ Comment.textOfAll cs ∧ r = h.reading := by
  constructor
  · intro hread
    obtain ⟨h, rest, rfl, honly, rfl⟩ := exists_of_read? hread
    obtain ⟨cs, rfl⟩ := onlyComments_eq_true_iff.mp honly
    exact ⟨h, cs, rfl, rfl⟩
  · rintro ⟨h, cs, rfl, rfl⟩
    rw [h.read?_append (stops_letter_textOfAll cs), if_pos (onlyComments_eq_true_iff.mpr ⟨cs, rfl⟩)]

/-- A date that starts with a number and a mark, such as a hyphen, is no mail date. -/
theorem read?_eq_none_of_mark {c : Char} {ds : List Char} (hw : White w) (hds : Digits ds)
    (hwhite : isWhite c = false) (hdigit : isDigit c = false) (hletter : isLetter c = false) :
    read? (w ++ (ds ++ c :: rest)) = none := by
  have hstops {p : Char → Bool} (hp : ∀ d, isDigit d = true → p d = false) (hc : p c = false) :
      Stops p (ds ++ c :: rest) := by
    cases ds with
    | nil => exact stops_cons.mpr hc
    | cons d ds => exact stops_cons.mpr (hp d (digits_cons.mp hds).1)
  have htrim := trimStart_of_stops (hstops (fun _ ↦ isWhite_eq_false_of_isDigit) hwhite)
  have hweekday := SpellsWeekday.absent.weekday?_append
    (hstops (fun _ ↦ isLetter_eq_false_of_isDigit) hletter)
  rw [List.nil_append] at hweekday
  simp only [read?, Option.bind_eq_bind]
  rw [trimStart_append_of_white hw, htrim, hweekday]
  simp only [Option.bind_some]
  rw [htrim, digits?_append_of_stops hds (stops_cons.mpr hdigit)]
  split
  · rfl
  · simp only [Option.bind_some]
    have hgap : gap? (ds.drop 2 ++ c :: rest) = none := by
      match ds with
      | [] | [_] | [_, _] => simp [gap?, hwhite]
      | _ :: _ :: d :: ds =>
        have hd := isWhite_eq_false_of_isDigit (hds d (by simp))
        simp [gap?, hd]
    rw [hgap]
    rfl

end MailRules.Calendar.MailDate
