import Mathlib
import MailRules.Proofs.Calendar.Date
import MailRules.Proofs.Calendar.Pattern
import MailRules.Proofs.Rule.Threshold

/-!
# Dates on the local clock keep their order

A clock that is put forward and back shows some readings twice and others never. But the later of
two readings is never the earlier instant. Where the offset gets smaller, instants only move apart,
and where it gets larger, the clock has skipped an hour in between, which is all that it got larger
by (`Zone.exists_seam`).

For this the clock has to be put forward inside the year that the rule is applied to. So it is in
every year, since every month has four Sundays (`SundayRule.Regular`), and nothing goes wrong at the
new year, also where the clock is ahead over it.

Readings compare field by field, from the year down, as they are written (`LocalTime.face`). A
sixtieth second comes after the fifty-ninth and before the next minute. The clock is put forward on
the minute, where a reading has no part of a second that could be ahead of the hour after it
(`LocalTime.Whole.nanos_eq_zero`).
-/

namespace MailRules.Calendar

open Text Received

variable {t u : LocalTime} {zone : Zone} {s : List Char} {year x y : ℤ}

/-! ## What a clock shows -/

/-- The clock reading at which a year begins. -/
def yearStart (year : ℤ) : ℤ := secondsPerDay * (daysBeforeYear year - epochDay)

theorem yearStart_mono : Monotone yearStart := fun y z h ↦ by
  have hdays := daysBeforeYear_mono h
  rw [yearStart, yearStart, secondsPerDay]
  omega

namespace LocalTime

/-- What the clock shows, from the year down to the part of a second. -/
def face (t : LocalTime) : ℤ ×ₗ ℕ ×ₗ ℕ ×ₗ ℕ ×ₗ ℕ :=
  toLex (t.date.year, toLex (t.date.month, toLex (t.date.day, toLex (t.secondOfDay, t.nanos))))

/-- What the clock shows, counted in seconds. -/
def count (t : LocalTime) : Instant := ⟨t.clockSeconds, t.nanos⟩

/-- A time in whole seconds: of a day that exists, and if it is a sixtieth second, then one that
follows the fifty-ninth of some minute. -/
structure Whole (t : LocalTime) : Prop where
  exists_date : t.date.Exists
  secondOfDay_lt : t.secondOfDay < 86400
  nanos_eq : t.nanos = 0 ∨ t.secondOfDay % 60 = 59

/-- **The order of what clocks show is the order of the fields.** -/
theorem key_count_le (ht : t.Whole) (hu : u.Whole) (h : t.face ≤ u.face) :
    t.count.key ≤ u.count.key := by
  have hsecs := ht.secondOfDay_lt
  simp only [face, Prod.Lex.toLex_le_toLex] at h
  simp only [Instant.key, count, clockSeconds, secondsPerDay, Prod.Lex.toLex_le_toLex]
  rcases h with hyear | ⟨hyear, hmonth | ⟨hmonth, hday⟩⟩
  · have hlt := ht.exists_date.lt_of_year_lt hu.exists_date hyear
    omega
  · have hlt := ht.exists_date.lt_of_month_lt hu.exists_date hyear hmonth
    omega
  · -- within a month the days are counted as they are numbered
    rw [Date.dayNumber, Date.dayNumber, hyear, hmonth]
    omega

theorem Whole.yearStart_le (h : t.Whole) : yearStart t.date.year ≤ t.clockSeconds := by
  have hday := h.exists_date.daysBeforeYear_le
  rw [yearStart, clockSeconds, secondsPerDay]
  omega

theorem Whole.lt_yearStart (h : t.Whole) : t.clockSeconds < yearStart (t.date.year + 1) := by
  have hday := h.exists_date.lt_daysBeforeYear
  have hsecs := h.secondOfDay_lt
  rw [yearStart, clockSeconds, secondsPerDay]
  omega

theorem Whole.year_le (ht : t.Whole) (hu : u.Whole) (h : t.clockSeconds ≤ u.clockSeconds) :
    t.date.year ≤ u.date.year := by
  by_contra hlt
  have hyears := yearStart_mono (Int.add_one_le_of_lt (not_le.mp hlt))
  have := hu.lt_yearStart
  have := ht.yearStart_le
  omega

/-- On the minute there is no part of a second. -/
theorem Whole.nanos_eq_zero (h : t.Whole) (hminute : t.clockSeconds % 60 = 0) : t.nanos = 0 := by
  rw [clockSeconds, secondsPerDay] at hminute
  exact h.nanos_eq.resolve_right (by omega)

end LocalTime

/-- Dates without a zone are written in whole seconds. -/
theorem whole_of_zonelessTime? (h : zonelessTime? s = some t) : t.Whole := by
  obtain ⟨p, -, hread⟩ := List.exists_of_findSome?_eq_some h
  obtain ⟨r, hr, hshown⟩ := Option.bind_eq_some_iff.mp hread
  have hnanos : r.nanos = 0 := Pattern.nanos_fill? (Pattern.read?_eq_some_iff.mp hr)
  obtain ⟨⟨-, -, hexists, hhour, hminute, -, -⟩, rfl⟩ := Reading.localTime?_eq_some_iff.mp hshown
  refine ⟨hexists, ?_, ?_⟩
  · dsimp only
    omega
  · dsimp only
    split <;> omega

/-! ## Sundays -/

theorem daysInMonth_ge {m : ℕ} (hlo : 1 ≤ m) (hhi : m ≤ 12) : 28 ≤ daysInMonth year m := by
  interval_cases m <;> grind [daysInMonth]

namespace SundayRule

variable {rule : SundayRule}

/-- Every year has this Sunday. -/
structure Regular (rule : SundayRule) : Prop where
  month : 1 ≤ rule.month ∧ rule.month ≤ 12
  nth : 1 ≤ rule.nth ∧ rule.nth ≤ 4

/-- The rule gives the Sunday of this number. -/
theorem Regular.date_spec (h : rule.Regular) (year : ℤ) :
    (rule.date year).Exists ∧ (rule.date year).weekday = 6 ∧
      7 * (rule.nth - 1) < (rule.date year).day ∧ (rule.date year).day ≤ 7 * rule.nth := by
  have hlength : 28 ≤ daysInMonth year rule.month := daysInMonth_ge h.month.1 h.month.2
  have hnth := h.nth
  refine ⟨⟨h.month.1, h.month.2, ?_, ?_⟩, ?_, ?_, ?_⟩
  · simp only [date]
    omega
  · simp only [date]
    omega
  · simp only [date, Date.weekday, Date.dayNumber]
    omega
  · simp only [date]
    omega
  · simp only [date]
    omega

end SundayRule

namespace Season

variable {season : Season}

/-- The clock is put forward between two new years. -/
theorem forwardAt_mem (h : season.forward.Regular) (year : ℤ) :
    yearStart year ≤ season.forwardAt year ∧
      season.forwardAt year + 3600 ≤ yearStart (year + 1) := by
  obtain ⟨hexists, -⟩ := h.date_spec year
  have hlow := hexists.daysBeforeYear_le
  have hhigh := hexists.lt_daysBeforeYear
  have hyear : (season.forward.date year).year = year := rfl
  rw [hyear] at hlow hhigh
  rw [forwardAt, yearStart, yearStart, secondsPerDay]
  omega

theorem forwardAt_mod (year : ℤ) : season.forwardAt year % 60 = 0 := by
  rw [forwardAt, secondsPerDay]
  omega

end Season

/-! ## Offsets -/

namespace Zone

/-- If the clock is put forward, then on a day that every year has. -/
def Regular : Zone → Prop
  | .fixed _ => True
  | .northern season | .southern season => season.forward.Regular

/-- So it is in every zone that a rule describes. -/
theorem regular_of_ofRule? {rule : String} (h : ofRule? rule = some zone) : zone.Regular := by
  rw [ofRule?.eq_def] at h
  split at h
  · exact Option.some.inj h ▸ trivial
  · exact Option.some.inj h ▸ trivial
  · exact Option.some.inj h ▸ ⟨by decide, by decide⟩
  · exact Option.some.inj h ▸ ⟨by decide, by decide⟩
  · cases h

theorem offsetAt?_northern_iff {season : Season} :
    (northern season).offsetAt? t = some x ↔
      x = season.standard ∧ (t.clockSeconds ≤ season.forwardAt t.date.year ∨
          season.forwardAt t.date.year + 3600 ≤ t.clockSeconds ∧
            season.backAt t.date.year - 3600 ≤ t.clockSeconds) ∨
        x = season.daylight ∧ season.forwardAt t.date.year + 3600 ≤ t.clockSeconds ∧
          t.clockSeconds < season.backAt t.date.year - 3600 := by
  simp only [offsetAt?]
  split_ifs <;> simp only [Option.some.injEq, false_iff] <;> omega

theorem offsetAt?_southern_iff {season : Season} :
    (southern season).offsetAt? t = some x ↔
      x = season.standard ∧ season.backAt t.date.year - 3600 ≤ t.clockSeconds ∧
          t.clockSeconds < season.forwardAt t.date.year ∨
        x = season.daylight ∧ (t.clockSeconds < season.backAt t.date.year - 3600 ∨
          season.forwardAt t.date.year + 3600 ≤ t.clockSeconds) := by
  simp only [offsetAt?]
  split_ifs <;> simp only [Option.some.injEq, false_iff] <;> omega

/-- **An offset gets larger only by an hour that the clock has skipped.** -/
theorem exists_seam (hzone : zone.Regular) (ht : t.Whole) (hu : u.Whole)
    (hle : t.clockSeconds ≤ u.clockSeconds) (hx : zone.offsetAt? t = some x)
    (hy : zone.offsetAt? u = some y) (hlt : x < y) :
    ∃ seam, seam % 60 = 0 ∧ t.clockSeconds ≤ seam ∧ seam + 3600 ≤ u.clockSeconds ∧
      y = x + 3600 := by
  have hyear := ht.year_le hu hle
  have hnext (h : t.date.year < u.date.year) := yearStart_mono (Int.add_one_le_of_lt h)
  have htop := ht.lt_yearStart
  have hbottom := hu.yearStart_le
  cases zone with
  | fixed offset =>
    rw [offsetAt?, Option.some.injEq] at hx hy
    omega
  | northern season =>
    -- the clock has been put forward in the year of the later reading
    rw [offsetAt?_northern_iff] at hx hy
    have hforward := Season.forwardAt_mem hzone u.date.year
    refine ⟨season.forwardAt u.date.year, Season.forwardAt_mod _, ?_⟩
    rw [Season.daylight] at hx hy
    rcases hyear.eq_or_lt with heq | hyears
    · rw [heq] at hx
      omega
    · have := hnext hyears
      omega
  | southern season =>
    -- the clock has been put forward in the year of the earlier reading
    rw [offsetAt?_southern_iff] at hx hy
    have hforward := Season.forwardAt_mem hzone t.date.year
    refine ⟨season.forwardAt t.date.year, Season.forwardAt_mod _, ?_⟩
    rw [Season.daylight] at hx hy
    rcases hyear.eq_or_lt with heq | hyears
    · rw [heq] at hx ⊢
      omega
    · have := hnext hyears
      omega

theorem instant?_eq_some_iff {i : Instant} :
    zone.instant? t = some i ↔ ∃ offset, zone.offsetAt? t = some offset ∧
      Instant.InRange (t.clockSeconds - offset) ∧ i = ⟨t.clockSeconds - offset, t.nanos⟩ := by
  simp only [instant?, Option.bind_eq_bind, Option.bind_eq_some_iff,
    LocalTime.instant?_eq_some_iff]

/-- **The later reading of a clock is not the earlier instant.** -/
theorem key_le_of_count_le {a b : Instant} (hzone : zone.Regular) (ht : t.Whole) (hu : u.Whole)
    (hle : t.count.key ≤ u.count.key) (ha : zone.instant? t = some a)
    (hb : zone.instant? u = some b) : a.key ≤ b.key := by
  obtain ⟨x, hx, -, rfl⟩ := instant?_eq_some_iff.mp ha
  obtain ⟨y, hy, -, rfl⟩ := instant?_eq_some_iff.mp hb
  simp only [Instant.key, LocalTime.count, Prod.Lex.toLex_le_toLex] at hle ⊢
  rcases le_or_gt y x with hoffset | hoffset
  · omega
  · obtain ⟨seam, hminute, hbefore, hafter, rfl⟩ :=
      exists_seam hzone ht hu (by omega) hx hy hoffset
    -- both sides of the seam are one instant, and before it there is no sixtieth second
    rcases hbefore.eq_or_lt with rfl | hbefore
    · have hnanos := ht.nanos_eq_zero hminute
      omega
    · omega

end Zone

end MailRules.Calendar

namespace MailRules

open Calendar Text Received

/-- The value is a date without a zone, and this is what the local clock shows. -/
structure ShowsLocal (value : String) (t : LocalTime) : Prop where
  noZone : zonedInstant? (trim value.toList) = none
  shown : zonelessTime? (trim value.toList) = some t

theorem ShowsLocal.receivedAt_eq_ok_iff {value : String} {t : LocalTime} {zone : Zone}
    {i : Instant} (h : ShowsLocal value t) :
    receivedAt zone value = .ok i ↔ zone.instant? t = some i := by
  rw [MailRules.receivedAt_eq_ok_iff, instant?, h.noZone, h.shown]
  rfl

theorem evaluateDate_of_receivedAt {moment : Moment} {value predicate target : String}
    {p : DatePredicate} {i : Instant} (hname : DatePredicate.named? predicate = some p)
    (h : receivedAt moment.zone value = .ok i) :
    evaluateDate moment value predicate target =
      (threshold moment.now target).map (p.holds i ·) := by
  rw [Condition.evaluateDate_of_named hname, h]
  cases threshold moment.now target <;> rfl

/-- Of two records the later one is younger if the earlier one is, and the earlier one older if the
later one is. -/
theorem evaluateDate_of_key_le (moment : Moment) {earlier later : String} {a b : Instant}
    (ha : receivedAt moment.zone earlier = .ok a) (hb : receivedAt moment.zone later = .ok b)
    (hle : a.key ≤ b.key) (target : String) :
    (evaluateDate moment earlier "less_than" target = .ok true →
      evaluateDate moment later "less_than" target = .ok true) ∧
    (evaluateDate moment later "greater_than" target = .ok true →
      evaluateDate moment earlier "greater_than" target = .ok true) := by
  rw [evaluateDate_of_receivedAt (p := .younger) rfl ha,
    evaluateDate_of_receivedAt (p := .younger) rfl hb,
    evaluateDate_of_receivedAt (p := .older) rfl ha,
    evaluateDate_of_receivedAt (p := .older) rfl hb]
  cases threshold moment.now target with
  | error fault => exact ⟨id, id⟩
  | ok limit =>
    simp only [Except.map, Except.ok.injEq, DatePredicate.holds, Instant.before_iff_key_lt]
    exact ⟨fun h ↦ h.trans_le hle, fun h ↦ hle.trans_lt h⟩

/-- **Dates on the local clock keep their order.** In every zone that a rule describes, the later of
two dates without a zone is not the earlier instant, whatever the clock does in between; so the
record with the later date is never judged older than the other one. -/
theorem receivedAt_mono_of_local {rule : String} {zone : Zone} {earlier later : String}
    {t u : LocalTime} {a b : Instant} (hzone : Zone.ofRule? rule = some zone)
    (ht : ShowsLocal earlier t) (hu : ShowsLocal later u)
    (ha : receivedAt zone earlier = .ok a) (hb : receivedAt zone later = .ok b)
    (hle : t.face ≤ u.face) :
    a.key ≤ b.key ∧ ∀ now target,
      (evaluateDate ⟨now, zone⟩ earlier "less_than" target = .ok true →
        evaluateDate ⟨now, zone⟩ later "less_than" target = .ok true) ∧
      (evaluateDate ⟨now, zone⟩ later "greater_than" target = .ok true →
        evaluateDate ⟨now, zone⟩ earlier "greater_than" target = .ok true) := by
  have hwhole := whole_of_zonelessTime? ht.shown
  have hwhole' := whole_of_zonelessTime? hu.shown
  have hkey : a.key ≤ b.key :=
    Zone.key_le_of_count_le (Zone.regular_of_ofRule? hzone) hwhole hwhole'
      (LocalTime.key_count_le hwhole hwhole' hle) (ht.receivedAt_eq_ok_iff.mp ha)
      (hu.receivedAt_eq_ok_iff.mp hb)
  exact ⟨hkey, fun now target ↦ evaluateDate_of_key_le ⟨now, zone⟩ ha hb hkey target⟩

/-- A sixtieth second before the hour that New York skipped in 2024, and the end of that hour. -/
theorem receivedAt_mono_over_skipped_hour :
    let zone := Zone.usEastern
    let t : LocalTime := ⟨⟨2024, 3, 10⟩, 7199, 1000000000⟩
    let u : LocalTime := ⟨⟨2024, 3, 10⟩, 10800, 0⟩
    Zone.ofRule? "EST5EDT,M3.2.0,M11.1.0" = some zone ∧
      ShowsLocal "2024-03-10 01:59:60" t ∧ ShowsLocal "2024-03-10 03:00" u ∧
      receivedAt zone "2024-03-10 01:59:60" = .ok ⟨1710053999, 1000000000⟩ ∧
      receivedAt zone "2024-03-10 03:00" = .ok ⟨1710054000, 0⟩ ∧ t.face ≤ u.face ∧
      (Instant.mk 1710053999 1000000000).key ≤ (Instant.mk 1710054000 0).key := by
  intro zone t u
  have hzone : Zone.ofRule? "EST5EDT,M3.2.0,M11.1.0" = some zone := rfl
  have ht : ShowsLocal "2024-03-10 01:59:60" t := ⟨by decide +kernel, by decide +kernel⟩
  have hu : ShowsLocal "2024-03-10 03:00" u := ⟨by decide +kernel, by decide +kernel⟩
  have ha : receivedAt zone "2024-03-10 01:59:60" = .ok ⟨1710053999, 1000000000⟩ :=
    MailRules.receivedAt_eq_ok_iff.mpr (by decide +kernel)
  have hb : receivedAt zone "2024-03-10 03:00" = .ok ⟨1710054000, 0⟩ :=
    MailRules.receivedAt_eq_ok_iff.mpr (by decide +kernel)
  have hle : t.face ≤ u.face := by decide
  exact ⟨hzone, ht, hu, ha, hb, hle, (receivedAt_mono_of_local hzone ht hu ha hb hle).1⟩

end MailRules
