import Mathlib
import MailRules.Calendar.LocalTime
import MailRules.Proofs.Calendar.Instant

/-!
# Counting days

The number of a day is what one gets by counting: the epoch has number zero, and the day after a day
has the next number. `CountsDays` says this of a function on dates, `Date.next` is the day after a
day, and on days that exist no two functions count differently (`CountsDays.eq_dayNumber`).

Two facts carry this. Day numbers grow with the year and, within a year, with the month, so that an
existing day is given by its number; and counting on from either of two days reaches the other.

The instant of a written date follows its day, so that another year is another instant
(`Reading.instant_ne_of_year_lt`). It is one that exists if the offset is in whole minutes, which
leave the sixtieth second where it was shown (`Reading.Fine.valid`).
-/

namespace MailRules.Calendar

variable {y z : ℤ} {m n : ℕ} {d e : Date}

/-! ## Lengths of years -/

theorem daysBeforeMonth_twelve (y : ℤ) :
    daysBeforeMonth y 12 = if isLeap y then 366 else 365 := by
  simp only [daysBeforeMonth, daysInMonth]
  split <;> rfl

theorem daysBeforeYear_succ (y : ℤ) :
    daysBeforeYear (y + 1) = daysBeforeYear y + daysBeforeMonth y 12 := by
  have hleap : isLeap y = true ↔ y % 4 = 0 ∧ (y % 100 ≠ 0 ∨ y % 400 = 0) := by simp [isLeap]
  rw [daysBeforeMonth_twelve, daysBeforeYear, daysBeforeYear]
  split
  · have := hleap.mp ‹_›
    push_cast
    omega
  · have := mt hleap.mpr ‹_›
    push_cast
    omega

theorem daysBeforeYear_mono : Monotone daysBeforeYear :=
  monotone_int_of_le_succ fun y ↦ by
    rw [daysBeforeYear_succ]
    omega

theorem daysBeforeMonth_mono (y : ℤ) : Monotone (daysBeforeMonth y) :=
  monotone_nat_of_le_succ fun m ↦ by
    rw [daysBeforeMonth]
    omega

/-- The months before a month, and the month. -/
theorem daysBeforeMonth_pred_add (y : ℤ) (h : 1 ≤ m) :
    daysBeforeMonth y (m - 1) + daysInMonth y m = daysBeforeMonth y m := by
  obtain ⟨m, rfl⟩ := Nat.exists_eq_add_of_le' h
  rfl

/-! ## Days in order -/

namespace Date

theorem Exists.dayOfYear_le (h : d.Exists) :
    daysBeforeMonth d.year (d.month - 1) + d.day ≤ daysBeforeMonth d.year d.month := by
  rw [← daysBeforeMonth_pred_add d.year h.1]
  exact Nat.add_le_add_left h.2.2.2 _

theorem Exists.daysBeforeYear_le (h : d.Exists) :
    daysBeforeYear d.year ≤ d.dayNumber + epochDay := by
  have hday := h.2.2.1
  rw [dayNumber]
  omega

theorem Exists.lt_daysBeforeYear (h : d.Exists) :
    d.dayNumber + epochDay < daysBeforeYear (d.year + 1) := by
  have hmonth := h.dayOfYear_le.trans (daysBeforeMonth_mono d.year h.2.1)
  rw [daysBeforeYear_succ, dayNumber]
  omega

theorem Exists.lt_of_year_lt (hd : d.Exists) (he : e.Exists) (h : d.year < e.year) :
    d.dayNumber < e.dayNumber := by
  have hlt := calc
    d.dayNumber + epochDay < daysBeforeYear (d.year + 1) := hd.lt_daysBeforeYear
    _ ≤ daysBeforeYear e.year := daysBeforeYear_mono h
    _ ≤ e.dayNumber + epochDay := he.daysBeforeYear_le
  exact lt_of_add_lt_add_right hlt

theorem Exists.lt_of_month_lt (hd : d.Exists) (he : e.Exists) (hyear : d.year = e.year)
    (h : d.month < e.month) : d.dayNumber < e.dayNumber := by
  have hday := he.2.2.1
  have hmonth : daysBeforeMonth d.year d.month ≤ daysBeforeMonth d.year (e.month - 1) :=
    daysBeforeMonth_mono d.year (Nat.le_sub_one_of_lt h)
  have hle := hd.dayOfYear_le
  rw [dayNumber, dayNumber, ← hyear]
  omega

/-- A day is given by its number. -/
theorem Exists.eq_of_dayNumber_eq (hd : d.Exists) (he : e.Exists)
    (h : d.dayNumber = e.dayNumber) : d = e := by
  have hyear : d.year = e.year := by
    rcases lt_trichotomy d.year e.year with hlt | heq | hlt
    · exact absurd h (hd.lt_of_year_lt he hlt).ne
    · exact heq
    · exact absurd h (he.lt_of_year_lt hd hlt).ne'
  have hmonth : d.month = e.month := by
    rcases lt_trichotomy d.month e.month with hlt | heq | hlt
    · exact absurd h (hd.lt_of_month_lt he hyear hlt).ne
    · exact heq
    · exact absurd h (he.lt_of_month_lt hd hyear.symm hlt).ne'
  obtain ⟨year, month, day⟩ := d
  obtain ⟨year', month', day'⟩ := e
  obtain rfl : year = year' := hyear
  obtain rfl : month = month' := hmonth
  simp only [dayNumber] at h
  obtain rfl : day = day' := by omega
  rfl

/-! ## The day after -/

/-- The day after a day. -/
def next (d : Date) : Date :=
  if d.day < daysInMonth d.year d.month then { d with day := d.day + 1 }
  else if d.month < 12 then ⟨d.year, d.month + 1, 1⟩
  else ⟨d.year + 1, 1, 1⟩

theorem daysInMonth_pos (y : ℤ) (hlo : 1 ≤ m) (hhi : m ≤ 12) : 1 ≤ daysInMonth y m := by
  interval_cases m <;> grind [daysInMonth]

theorem daysInMonth_le (y : ℤ) (hlo : 1 ≤ m) (hhi : m ≤ 12) : daysInMonth y m ≤ 31 := by
  interval_cases m <;> grind [daysInMonth]

theorem Exists.next (h : d.Exists) : d.next.Exists := by
  obtain ⟨hlo, hhi, hday, hle⟩ := h
  rw [Date.next]
  split
  · exact ⟨hlo, hhi, Nat.le_add_left 1 _, ‹_›⟩
  · -- The last day of a month, and then of the year.
    split
    · exact ⟨Nat.le_add_left 1 _, ‹_›, le_rfl, daysInMonth_pos _ (Nat.le_add_left 1 _) ‹_›⟩
    · have hjan : 1 ≤ 12 := by decide
      exact ⟨le_rfl, hjan, le_rfl, daysInMonth_pos _ le_rfl hjan⟩

theorem Exists.dayNumber_next (h : d.Exists) : d.next.dayNumber = d.dayNumber + 1 := by
  obtain ⟨hlo, hhi, hday, hle⟩ := h
  have hmonth := daysBeforeMonth_pred_add d.year hlo
  rw [Date.next]
  split
  · simp only [dayNumber]
    omega
  · split
    · simp only [dayNumber, Nat.add_sub_cancel]
      omega
    · -- What was counted within the year is the length of the year.
      have hyear := daysBeforeYear_succ d.year
      have hjan : daysBeforeMonth (d.year + 1) (1 - 1) = 0 := rfl
      have hdec : daysBeforeMonth d.year 12 = daysBeforeMonth d.year d.month := by
        rw [show d.month = 12 by omega]
      simp only [dayNumber, hjan]
      omega

theorem Exists.iterate_next (h : d.Exists) (k : ℕ) :
    (Date.next^[k] d).Exists ∧ (Date.next^[k] d).dayNumber = d.dayNumber + k := by
  induction k with
  | zero => exact ⟨h, by simp⟩
  | succ k ih =>
    rw [Function.iterate_succ_apply']
    refine ⟨ih.1.next, ?_⟩
    rw [ih.1.dayNumber_next, ih.2]
    push_cast
    ring

end Date

/-! ## Counting -/

/-- The function gives the first of January 1970 the number zero, and the day after each day the
next number. -/
structure CountsDays (days : Date → ℤ) : Prop where
  epoch : days ⟨1970, 1, 1⟩ = 0
  next : ∀ d : Date, d.Exists → days d.next = days d + 1

theorem countsDays_dayNumber : CountsDays Date.dayNumber :=
  ⟨by decide, fun _ h ↦ h.dayNumber_next⟩

namespace CountsDays

variable {days : Date → ℤ}

theorem iterate_next (hdays : CountsDays days) (h : d.Exists) (k : ℕ) :
    days (Date.next^[k] d) = days d + k := by
  induction k with
  | zero => simp
  | succ k ih =>
    rw [Function.iterate_succ_apply', hdays.next _ (h.iterate_next k).1, ih]
    push_cast
    ring

/-- **There is one way to count days.** -/
theorem eq_dayNumber (hdays : CountsDays days) (h : d.Exists) : days d = d.dayNumber := by
  have hepoch : (Date.mk 1970 1 1).Exists := by decide
  have hzero : (Date.mk 1970 1 1).dayNumber = 0 := by decide
  rcases le_total 0 d.dayNumber with hle | hle
  · -- The day is reached from the epoch.
    obtain ⟨k, hk⟩ := Int.eq_ofNat_of_zero_le hle
    obtain ⟨hexists, hnumber⟩ := hepoch.iterate_next k
    rw [hzero, zero_add, ← hk] at hnumber
    rw [← hexists.eq_of_dayNumber_eq h hnumber, hdays.iterate_next hepoch, hdays.epoch,
      (hepoch.iterate_next k).2, hzero]
  · -- The epoch is reached from the day.
    obtain ⟨k, hk⟩ := Int.eq_ofNat_of_zero_le (neg_nonneg.mpr hle)
    obtain ⟨hexists, hnumber⟩ := h.iterate_next k
    have hreach : Date.next^[k] d = ⟨1970, 1, 1⟩ :=
      hexists.eq_of_dayNumber_eq hepoch (by omega)
    have hcount := hdays.iterate_next h k
    rw [hreach, hdays.epoch] at hcount
    omega

end CountsDays

/-! ## The instant of a reading -/

section Reading

variable {r : Reading} {shown shown' : LocalTime} {offset : ℤ}

theorem Reading.localTime?_eq_some_iff :
    r.localTime? = some shown ↔ r.Shown ∧ shown =
      ⟨⟨r.year, r.month, r.day⟩, 3600 * r.hour + 60 * r.minute + min r.second 59,
        r.nanos + if r.second = 60 then nanosPerSecond else 0⟩ := by
  rw [localTime?]
  split
  · simp [*, eq_comm]
  · simp [*]

theorem LocalTime.instant?_eq_some_iff {i : Instant} :
    shown.instant? offset = some i ↔
      Instant.InRange (shown.clockSeconds - offset) ∧
        i = ⟨shown.clockSeconds - offset, shown.nanos⟩ := by
  rw [instant?, Instant.of?_eq_some_iff]

theorem Reading.instant?_of_offset (h : r.offset = some offset) (hlt : offset.natAbs < 86400) :
    r.instant? = r.localTime?.bind (·.instant? offset) := by
  simp only [instant?, h, Option.bind_eq_bind, Option.bind_some, if_pos hlt]

theorem Reading.instant?_eq_some_iff {i : Instant} :
    r.instant? = some i ↔ ∃ offset shown, r.offset = some offset ∧ offset.natAbs < 86400 ∧
      r.localTime? = some shown ∧ shown.instant? offset = some i := by
  simp only [instant?, Option.bind_eq_bind, Option.bind_eq_some_iff, Option.ite_none_right_eq_some]
  constructor
  · rintro ⟨offset, hoffset, shown, hshown, hlt, hinstant⟩
    exact ⟨offset, shown, hoffset, hlt, hshown, hinstant⟩
  · rintro ⟨offset, shown, hoffset, hlt, hshown, hinstant⟩
    exact ⟨offset, hoffset, shown, hshown, hlt, hinstant⟩

theorem Reading.instant?_eq_none_iff :
    r.instant? = none ↔ ∀ shown offset, r.localTime? = some shown → r.offset = some offset →
      86400 ≤ offset.natAbs ∨ ¬Instant.InRange (shown.clockSeconds - offset) := by
  simp only [Option.eq_none_iff_forall_ne_some, Ne, instant?_eq_some_iff,
    LocalTime.instant?_eq_some_iff]
  constructor
  · intro h shown offset hshown hoffset
    by_contra! hnot
    exact h _ ⟨offset, shown, hoffset, hnot.1, hshown, hnot.2, rfl⟩
  · rintro h t ⟨offset, shown, hoffset, hday, hshown, hrange, -⟩
    exact (h shown offset hshown hoffset).elim (not_le.mpr hday) (· hrange)

/-- A time of a day that exists. Only the last second of a minute goes on for another one. -/
structure LocalTime.Proper (t : LocalTime) : Prop where
  year : firstYear ≤ t.date.year ∧ t.date.year ≤ lastYear
  exists_date : t.date.Exists
  secondOfDay_lt : t.secondOfDay < 86400
  nanos_lt : t.nanos < nanosPerSecond ∨ t.nanos < 2 * nanosPerSecond ∧ t.secondOfDay % 60 = 59

theorem LocalTime.Proper.valid {i : Instant} (h : shown.Proper) (hminutes : offset % 60 = 0)
    (hinstant : shown.instant? offset = some i) : i.Valid := by
  obtain ⟨hrange, rfl⟩ := instant?_eq_some_iff.mp hinstant
  refine ⟨hrange, h.nanos_lt.imp_right fun ⟨hnanos, hlast⟩ ↦ ⟨hnanos, ?_⟩⟩
  dsimp only [clockSeconds, secondsPerDay]
  omega

/-- The part of a second is less than a second, and the offset is in whole minutes. -/
structure Reading.Fine (r : Reading) : Prop where
  nanos_lt : r.nanos < nanosPerSecond
  offset_mod : ∀ v ∈ r.offset, v % 60 = 0

namespace Reading.Fine

theorem of_offset (hnanos : r.nanos < nanosPerSecond) (h : r.offset = some offset)
    (hminutes : offset % 60 = 0) : r.Fine :=
  ⟨hnanos, fun _ hv ↦ Option.some.inj (h.symm.trans hv) ▸ hminutes⟩

theorem proper (hr : r.Fine) (h : r.localTime? = some shown) : shown.Proper := by
  obtain ⟨⟨hlo, hhi, hexists, hhour, hminute, -, -⟩, rfl⟩ := localTime?_eq_some_iff.mp h
  have hnanos := hr.nanos_lt
  refine ⟨⟨hlo, hhi⟩, hexists, by dsimp only; omega, ?_⟩
  dsimp only
  by_cases hsecond : r.second = 60
  · rw [if_pos hsecond]
    omega
  · rw [if_neg hsecond]
    exact Or.inl hnanos

theorem valid {i : Instant} (hr : r.Fine) (h : r.instant? = some i) : i.Valid := by
  obtain ⟨offset, shown, hoffset, -, hshown, hinstant⟩ := instant?_eq_some_iff.mp h
  exact (hr.proper hshown).valid (hr.offset_mod offset hoffset) hinstant

end Reading.Fine

/-- The same numbers in another year are another instant. -/
theorem Reading.instant_ne_of_year_lt {y : ℤ} {x : Option ℤ} {a b : Instant} (hyear : r.year < y)
    (h : r.localTime? = some shown)
    (h' : { r with year := y, offset := x }.localTime? = some shown')
    (ha : shown.instant? offset = some a) (hb : shown'.instant? offset = some b) : a ≠ b := by
  obtain ⟨hshown, rfl⟩ := localTime?_eq_some_iff.mp h
  obtain ⟨hshown', rfl⟩ := localTime?_eq_some_iff.mp h'
  obtain ⟨-, rfl⟩ := LocalTime.instant?_eq_some_iff.mp ha
  obtain ⟨-, rfl⟩ := LocalTime.instant?_eq_some_iff.mp hb
  have hday : (Date.mk r.year r.month r.day).dayNumber < (Date.mk y r.month r.day).dayNumber :=
    Date.Exists.lt_of_year_lt hshown.2.2.1 hshown'.2.2.1 hyear
  intro heq
  have hsecs := congrArg Instant.secs heq
  simp only [LocalTime.clockSeconds, secondsPerDay] at hsecs
  omega

end Reading

end MailRules.Calendar
