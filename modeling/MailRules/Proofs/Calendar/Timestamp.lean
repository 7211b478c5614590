import Mathlib
import MailRules.Calendar.Timestamp
import MailRules.Proofs.Calendar.DayNumber
import MailRules.Proofs.Calendar.Instant
import MailRules.Proofs.Calendar.Pattern

/-!
# Timestamps are read back

A timestamp is written in UTC with as many digits of year as the year has and as few digits of
fraction as are exact. The relaxed reader takes each of its pieces back, and so the instant
(`Timestamp.instant?_write`): the day is that of its number, and a leap second is the sixtieth
second of its minute, which is why it has to be at the end of one.
-/

namespace MailRules.Calendar.Timestamp

open MailRules.Text

variable {rest : List Char}

/-! ## The pieces -/

theorem stops_white_writtenYear (year : ℤ) : Stops isWhite (writtenYear year ++ rest) := by
  have hdigits := (digits_padded 4 year.natAbs).stops_white (s := rest) (padded_ne_nil _ _)
  rw [writtenYear]
  split
  · exact stops_cons.mpr (by decide)
  · split
    · exact stops_cons.mpr (by decide)
    · exact hdigits

/-- The sign keeps a long year together. -/
theorem signedYear?_writtenYear (year : ℤ) (hrest : Stops isDigit rest) :
    Piece.signedYear? (writtenYear year ++ rest) = some (year, rest) := by
  have hnumeral := numeral?_append (digits_padded 4 year.natAbs) (padded_ne_nil _ _) hrest
  rw [decimal_padded] at hnumeral
  rw [writtenYear]
  split
  · rw [List.cons_append, Piece.signedYear?, hnumeral, Option.map_some]
    have hneg : -(year.natAbs : ℤ) = year := by omega
    exact congrArg (fun n ↦ some (n, rest)) hneg
  · split
    · rw [List.cons_append, Piece.signedYear?, hnumeral, Option.map_some]
      have hpos : (year.natAbs : ℤ) = year := by omega
      exact congrArg (fun n ↦ some (n, rest)) hpos
    · have hlength : (padded 4 year.natAbs).length = 4 :=
        length_padded_of_lt (by decide) (by omega)
      have hpos : (year.natAbs : ℤ) = year := by omega
      rw [Piece.signedYear?_append (digits_padded _ _) (by omega) (by omega) (Or.inl hlength),
        decimal_padded, hpos]

/-- The fraction of three, six or nine digits. -/
theorem fraction?_padded {width n : ℕ} (hwidth : 0 < width) (hnine : width ≤ 9)
    (hn : n < 10 ^ width) (hrest : Stops isDigit rest) :
    fraction? ('.' :: padded width n ++ rest) = some (n * 10 ^ (9 - width), rest) := by
  have hlength := length_padded_of_lt hwidth hn
  have htake : (padded width n).take 9 = padded width n :=
    List.take_of_length_le (hlength.le.trans hnine)
  have hvalue : nanosOfDigits (padded width n) = n * 10 ^ (9 - width) := by
    rw [nanosOfDigits, htake, decimal_padded, hlength]
    rfl
  rw [List.cons_append, fraction?, takeWhile_append_of_stops (digits_padded _ _) hrest,
    if_neg (by simpa using padded_ne_nil width n), hvalue, List.drop_left]

theorem fraction?_writtenFraction {nanos : ℕ} (h : nanos < nanosPerSecond) :
    fraction? (writtenFraction nanos ++ ['Z']) = some (nanos, ['Z']) := by
  have hstop : Stops isDigit ['Z'] := stops_cons.mpr (by decide)
  rw [nanosPerSecond] at h
  rw [writtenFraction]
  split
  · rename_i hzero
    rw [hzero]
    rfl
  split
  · rw [fraction?_padded (by decide) (by decide) (by omega) hstop]
    have hnanos : nanos / 1000000 * 10 ^ (9 - 3) = nanos := by omega
    rw [hnanos]
  split
  · rw [fraction?_padded (by decide) (by decide) (by omega) hstop]
    have hnanos : nanos / 1000 * 10 ^ (9 - 6) = nanos := by omega
    rw [hnanos]
  · rw [fraction?_padded (by decide) (by decide) h hstop]
    have hnanos : nanos * 10 ^ (9 - 9) = nanos := by omega
    rw [hnanos]

theorem trimStart_mark {c : Char} (h : isWhite c = false) (s : List Char) :
    trimStart (c :: s) = c :: s :=
  trimStart_of_stops (stops_cons.mpr h)

theorem fill?_date (year : ℤ) {month day : ℕ} (hmonth : month < 100) (hday : day < 100)
    (r : Reading) (rest : List Char) :
    Pattern.fill? [.year, .blank, .literal '-', .month, .blank, .literal '-', .day] r
        (writtenYear year ++ '-' :: (padded 2 month ++ '-' :: (padded 2 day ++ rest))) =
      some ({ r with year, month, day }, rest) := by
  have hdash (s : List Char) : trimStart ('-' :: s) = '-' :: s := trimStart_mark (by decide) s
  have hyear (s : List Char) :
      Piece.signedYear? (writtenYear year ++ '-' :: s) = some (year, '-' :: s) :=
    signedYear?_writtenYear year (stops_cons.mpr (by decide))
  simp only [Pattern.fill?, Piece.read?, trimStart_of_stops (stops_white_writtenYear year), hyear,
    hdash, literal?, Piece.twoDigits?_padded (length_padded_of_lt (by decide) hmonth),
    Piece.twoDigits?_padded (length_padded_of_lt (by decide) hday), Option.map_some,
    Option.bind_eq_bind, Option.bind_some, if_true]

theorem fill?_time {hour minute second : ℕ} (hhour : hour < 100) (hminute : minute < 100)
    (hsecond : second < 100) (r : Reading) (rest : List Char) :
    Pattern.fill? [.hour, .blank, .literal ':', .minute, .blank, .literal ':', .second] r
        (padded 2 hour ++ ':' :: (padded 2 minute ++ ':' :: (padded 2 second ++ rest))) =
      some ({ r with hour, minute, second }, rest) := by
  have hcolon (s : List Char) : trimStart (':' :: s) = ':' :: s := trimStart_mark (by decide) s
  simp only [Pattern.fill?, Piece.read?, hcolon, literal?,
    Piece.twoDigits?_padded (length_padded_of_lt (by decide) hhour),
    Piece.twoDigits?_padded (length_padded_of_lt (by decide) hminute),
    Piece.twoDigits?_padded (length_padded_of_lt (by decide) hsecond), Option.map_some,
    Option.bind_eq_bind, Option.bind_some, if_true]

/-! ## The whole -/

/-- The numbers that a timestamp is written with. -/
def numbers (t : Instant) : Reading :=
  let date := Date.ofDayNumber (t.secs / secondsPerDay)
  let secondOfDay := (t.secs % secondsPerDay).toNat
  { year := date.year, month := date.month, day := date.day, hour := secondOfDay / 3600,
    minute := secondOfDay / 60 % 60,
    second := secondOfDay % 60 + (if t.isLeapSecond then 1 else 0),
    nanos := t.nanos % nanosPerSecond, offset := some 0 }

/-- They are numbers that a clock shows. -/
theorem shown_numbers {t : Instant} (h : Instant.InRange t.secs) : (numbers t).Shown := by
  obtain ⟨hexists, -⟩ := Date.exists_ofDayNumber (t.secs / secondsPerDay)
  obtain ⟨hfirst, hlast⟩ := Date.year_ofDayNumber_of_inRange h
  have hday : (t.secs % secondsPerDay).toNat < 86400 := by
    rw [secondsPerDay]
    omega
  refine ⟨hfirst, hlast, hexists, ?_, ?_, ?_, by simp [numbers]⟩
  · rw [numbers]
    dsimp only
    omega
  · rw [numbers]
    dsimp only
    omega
  · rw [numbers]
    dsimp only
    split <;> omega

theorem relaxed?_write {t : Instant} (h : Instant.InRange t.secs) :
    relaxed? (write t) = some (numbers t) := by
  obtain ⟨-, -, ⟨hmonth, hmonth', hday, hday'⟩, hhour, hminute, hsecond, -⟩ := shown_numbers h
  have hday31 := hday'.trans (Date.daysInMonth_le _ hmonth hmonth')
  dsimp only at hmonth' hday31
  have hwrite : write t = writtenYear (numbers t).year ++ '-' :: (padded 2 (numbers t).month ++
      '-' :: (padded 2 (numbers t).day ++ 'T' :: (padded 2 (numbers t).hour ++
      ':' :: (padded 2 (numbers t).minute ++ ':' :: (padded 2 (numbers t).second ++
      (writtenFraction (numbers t).nanos ++ ['Z'])))))) := by
    simp [write, numbers]
  have hdate := fill?_date (numbers t).year (show (numbers t).month < 100 by omega)
    (show (numbers t).day < 100 by omega)
  have htime := fill?_time (show (numbers t).hour < 100 by omega)
    (show (numbers t).minute < 100 by omega) (show (numbers t).second < 100 by omega)
  have hfraction := fraction?_writtenFraction
    (show (numbers t).nanos < nanosPerSecond from Nat.mod_lt _ (by decide))
  rw [relaxed?, hwrite]
  simp only [hdate, Option.bind_eq_bind, Option.bind_some, separator?, htime, hfraction]
  rfl

/-- A leap second is the sixtieth second of its minute, and every other second is below. -/
theorem second_numbers {t : Instant} (h : t.Valid) :
    min (numbers t).second 59 = (t.secs % 60).toNat ∧
      (numbers t).nanos + (if (numbers t).second = 60 then nanosPerSecond else 0) = t.nanos := by
  have hsecond : (numbers t).second = (t.secs % 60).toNat + if t.isLeapSecond then 1 else 0 := by
    rw [numbers, secondsPerDay]
    dsimp only
    omega
  have hfraction : (numbers t).nanos = t.nanos % nanosPerSecond := rfl
  have hnanos := h.nanos_lt
  have hleap := Instant.isLeapSecond_iff (t := t)
  rw [nanosPerSecond] at hnanos hleap hfraction
  rw [hsecond, hfraction, nanosPerSecond]
  by_cases h : t.isLeapSecond = true
  · have hle := hleap.mp h
    rw [if_pos h, if_pos (by omega)]
    omega
  · have hlt := mt hleap.mpr h
    rw [if_neg h, if_neg (by omega)]
    omega

/-- **A timestamp is read back as its instant.** -/
theorem instant?_write {t : Instant} (h : t.Valid) : instant? (write t) = some t := by
  have hday : (Date.mk (numbers t).year (numbers t).month (numbers t).day).dayNumber =
      t.secs / secondsPerDay := (Date.exists_ofDayNumber (t.secs / secondsPerDay)).2
  obtain ⟨hsecond, hnanos⟩ := second_numbers h
  have hclock : secondsPerDay *
      (Date.mk (numbers t).year (numbers t).month (numbers t).day).dayNumber +
      (3600 * (numbers t).hour + 60 * (numbers t).minute + min (numbers t).second 59 : ℕ) =
        t.secs := by
    rw [hday, hsecond, numbers, secondsPerDay]
    dsimp only
    omega
  have hlocal := Reading.localTime?_eq_some_iff.mpr ⟨shown_numbers h.inRange, rfl⟩
  rw [instant?, relaxed?_write h.inRange, Option.bind_some,
    Reading.instant?_of_offset (rfl : (numbers t).offset = some 0) (by decide), hlocal,
    Option.bind_some, LocalTime.instant?_eq_some_iff, LocalTime.clockSeconds, sub_zero]
  dsimp only
  rw [hclock, hnanos]
  exact ⟨h.inRange, rfl⟩

/-! ## What is read exists -/

section Read

variable {s : List Char} {nanos : ℕ} {offset : ℤ} {r : Reading} {t : Instant}

theorem nanosOfDigits_lt {ds : List Char} (h : Digits ds) : nanosOfDigits ds < nanosPerSecond := by
  have hlt := decimal_lt (fun c hc ↦ h c (List.mem_of_mem_take hc) : Digits (ds.take 9))
  have hle : (ds.take 9).length ≤ 9 := List.length_take_le 9 ds
  have hpos : 0 < 10 ^ (9 - (ds.take 9).length) := Nat.pow_pos (by decide)
  calc nanosOfDigits ds
      = decimal (ds.take 9) * 10 ^ (9 - (ds.take 9).length) := rfl
    _ < 10 ^ (ds.take 9).length * 10 ^ (9 - (ds.take 9).length) :=
        Nat.mul_lt_mul_of_pos_right hlt hpos
    _ = nanosPerSecond := by
      rw [← pow_add, Nat.add_sub_cancel' hle]
      rfl

theorem fraction?_lt (h : fraction? s = some (nanos, rest)) : nanos < nanosPerSecond := by
  unfold fraction? at h
  split at h
  · dsimp only at h
    split at h
    · cases h
    · obtain ⟨rfl, -⟩ := Prod.mk.inj (Option.some.inj h)
      exact nanosOfDigits_lt fun c hc ↦ List.mem_takeWhile_imp hc
  · obtain ⟨rfl, -⟩ := Prod.mk.inj (Option.some.inj h)
    decide

theorem relaxedOffset?_mod (h : relaxedOffset? s = some (offset, rest)) : offset % 60 = 0 := by
  unfold relaxedOffset? at h
  split at h
  · obtain ⟨rfl, -⟩ := Prod.mk.inj (Option.some.inj h)
    rfl
  · exact OffsetForm.read?_mod h

theorem fine_of_relaxed? (h : relaxed? s = some r) : r.Fine := by
  simp only [relaxed?, Option.bind_eq_bind, Option.bind_eq_some_iff, Prod.exists] at h
  obtain ⟨_, _, -, _, -, _, _, -, _, _, hfraction, _, _, hoffset, h⟩ := h
  split at h
  · obtain rfl := Option.some.inj h
    exact .of_offset (fraction?_lt hfraction) rfl (relaxedOffset?_mod hoffset)
  · cases h

/-- **The calendar has every instant that is read**: offsets are whole minutes, so that the sixtieth
second stays the last one of a minute. -/
theorem valid_of_instant? (h : instant? s = some t) : t.Valid := by
  obtain ⟨r, hr, ht⟩ := Option.bind_eq_some_iff.mp h
  exact (fine_of_relaxed? hr).valid ht

end Read

end MailRules.Calendar.Timestamp
