import Mathlib
import MailRules.Calendar.Received
import MailRules.Proofs.Calendar.Timestamp
import MailRules.Proofs.Rule.Evaluation

/-!
# Received dates stay inside the calendar

A date may be written with a year of any size, with an offset that leads out of the first or the
last year, on a day that no month has, or in a sixtieth second. It is refused, or it is the instant
that was written: what some clock shows, less the offset of that clock, as an exact number. So the
calendar is never left, and nothing that leaves it comes back in at its other end
(`receivedAt_inside_calendar`).

Leaving the calendar is not the only reason to refuse a text. It may have none of the forms, or be
read as no time that a clock shows, such as a day that does not exist or a year outside the
calendar. An offset may be a day or more, and the local clock may skip the time. There are no other
reasons (`Refused`).

The calendar ends with a second that may go on for another one. That is because a sixtieth second is
read in every minute, also in the last one, and it is the only way past the last full second
(`leap_second_after_calendar`). It follows the fifty-ninth second on the clock that shows it. In UTC
it does so too if the offset is in whole minutes, as all written offsets are (`Reading.Fine`), and
those of the local clocks that have a rule (`Zone.wholeMinutes_of_ofRule?`). But a clock may be set
otherwise.
-/

namespace MailRules.Calendar

open Text Received

variable {s rest : List Char} {r r' : Reading} {shown : LocalTime} {offset : ℤ} {t : Instant}
  {zone : Zone}

/-! ## What the forms read -/

theorem MailDate.zone?_mod (h : zone? s = some (offset, rest)) : offset % 60 = 0 := by
  rw [zone?] at h
  split at h
  · exact OffsetForm.read?_mod h
  · obtain ⟨hours, -, hv⟩ := Option.map_eq_some_iff.mp h
    obtain ⟨rfl, -⟩ := Prod.mk.inj hv
    omega

theorem MailDate.fine_of_read? (h : read? s = some r) : r.Fine := by
  simp only [read?, Option.bind_eq_bind, Option.bind_eq_some_iff, Prod.exists] at h
  obtain ⟨_, _, -, _, _, -, _, -, _, _, -, _, -, _, _, -, _, -, _, _, _, _, -, _, -, _, _, hzone,
    h⟩ := h
  split at h
  · obtain rfl := Option.some.inj h
    have hnanos : 0 < nanosPerSecond := by decide
    exact .of_offset hnanos rfl (zone?_mod hzone)
  · cases h

theorem Timestamp.fine_of_read? (h : read? s = some r) : r.Fine := by
  simp only [read?, Option.bind_eq_bind, Option.bind_eq_some_iff, Prod.exists] at h
  obtain ⟨_, _, -, _, -, _, _, -, _, -, _, _, -, _, -, _, _, -, _, -, _, _, -, _, -, _, _, -,
    _, _, hfraction, _, _, hoffset, h⟩ := h
  split at h
  · obtain rfl := Option.some.inj h
    exact .of_offset (fraction?_lt hfraction) rfl (OffsetForm.read?_mod hoffset)
  · cases h

theorem Piece.fine_read? {piece : Piece} (hr : r.Fine)
    (h : piece.read? r s = some (r', rest)) : r'.Fine := by
  refine ⟨(nanos_read? h).trans_lt hr.nanos_lt, ?_⟩
  cases piece with
  | offset =>
    obtain ⟨v, hread, rfl⟩ := exists_of_map (fun _ _ ↦ rfl) h
    rintro _ ⟨⟩
    exact OffsetForm.read?_mod hread
  | blank =>
    obtain ⟨rfl, -⟩ := Prod.mk.inj (Option.some.inj h)
    exact hr.offset_mod
  | literal c =>
    obtain ⟨_, -, heq⟩ := Option.map_eq_some_iff.mp h
    obtain ⟨rfl, -⟩ := Prod.mk.inj heq
    exact hr.offset_mod
  | _ =>
    obtain ⟨_, -, rfl⟩ := exists_of_map (fun _ _ ↦ rfl) h
    exact hr.offset_mod

theorem Pattern.fine_fill? {p : Pattern} (hr : r.Fine)
    (h : p.fill? r s = some (r', rest)) : r'.Fine := by
  induction p generalizing r s with
  | nil =>
    obtain ⟨rfl, -⟩ := Prod.mk.inj (Option.some.inj h)
    exact hr
  | cons piece p ih =>
    obtain ⟨⟨r₁, s₁⟩, hread, hfill⟩ := Option.bind_eq_some_iff.mp h
    exact ih (Piece.fine_read? hr hread) hfill

theorem Pattern.fine_of_read? {p : Pattern} (h : p.read? s = some r) : r.Fine :=
  fine_fill? ⟨by decide, by rintro _ ⟨⟩⟩ (read?_eq_some_iff.mp h)

/-! ## What a date may stand for -/

theorem Zone.instant?_eq_none_iff {zone : Zone} :
    zone.instant? shown = none ↔ zone.offsetAt? shown = none ∨
      ∃ offset, zone.offsetAt? shown = some offset ∧
        ¬Instant.InRange (shown.clockSeconds - offset) := by
  rw [instant?, Option.bind_eq_bind]
  cases zone.offsetAt? shown with
  | none => simp
  | some offset => simp [LocalTime.instant?, Instant.of?_eq_none_iff]

namespace Received

/-- Some form with an offset reads the trimmed text. -/
inductive ReadsZoned (trimmed : List Char) (r : Reading) : Prop
  | mail (h : MailDate.read? (strict trimmed) = some r)
  | timestamp (h : Timestamp.read? trimmed = some r)
  | pattern {p : Pattern} (hp : p ∈ Pattern.zoned) (h : p.read? (strict trimmed) = some r)

theorem ReadsZoned.fine (h : ReadsZoned s r) : r.Fine := by
  cases h with
  | mail h => exact MailDate.fine_of_read? h
  | timestamp h => exact Timestamp.fine_of_read? h
  | pattern _ h => exact Pattern.fine_of_read? h

theorem exists_of_zonedInstant? (h : zonedInstant? s = some t) :
    ∃ r, ReadsZoned s r ∧ r.instant? = some t := by
  rw [zonedInstant?, Option.orElse_eq_some, Option.orElse_eq_some] at h
  rcases h with h | ⟨-, h | ⟨-, h⟩⟩
  · obtain ⟨r, hr, ht⟩ := Option.bind_eq_some_iff.mp h
    exact ⟨r, .mail hr, ht⟩
  · obtain ⟨r, hr, ht⟩ := Option.bind_eq_some_iff.mp h
    exact ⟨r, .timestamp hr, ht⟩
  · obtain ⟨p, hp, hread⟩ := List.exists_of_findSome?_eq_some h
    obtain ⟨r, hr, ht⟩ := Option.bind_eq_some_iff.mp hread
    exact ⟨r, .pattern hp hr, ht⟩

theorem zonedInstant?_eq_none_iff :
    zonedInstant? s = none ↔ ∀ r, ReadsZoned s r → r.instant? = none := by
  constructor
  · intro hnone r hr
    rw [zonedInstant?, Option.orElse_eq_none, Option.orElse_eq_none,
      List.findSome?_eq_none_iff] at hnone
    obtain ⟨hmail, htimestamp, hpattern⟩ := hnone
    cases hr with
    | mail h => rwa [h] at hmail
    | timestamp h => rwa [h] at htimestamp
    | pattern hp h =>
      have hread := hpattern _ hp
      rwa [h] at hread
  · refine fun h ↦ Option.eq_none_iff_forall_ne_some.mpr fun t ht ↦ ?_
    obtain ⟨r, hr, hinstant⟩ := exists_of_zonedInstant? ht
    rw [h r hr] at hinstant
    cases hinstant

/-- Some form reads the text as what a clock shows that is so many seconds east of UTC. A written
offset is less than a day. Without one it is the local clock, which must not skip the time. -/
inductive Reads (zone : Zone) (s : List Char) : LocalTime → ℤ → Prop
  | zoned {r : Reading} {shown : LocalTime} {offset : ℤ} (form : ReadsZoned (trim s) r)
      (offset_eq : r.offset = some offset) (within_day : offset.natAbs < 86400)
      (shown_eq : r.localTime? = some shown) : Reads zone s shown offset
  | zoneless {shown : LocalTime} {offset : ℤ} (form : zonelessTime? (trim s) = some shown)
      (offset_eq : zone.offsetAt? shown = some offset) : Reads zone s shown offset

theorem Reads.proper (h : Reads zone s shown offset) : shown.Proper := by
  cases h with
  | zoned form _ _ hshown => exact form.fine.proper hshown
  | zoneless form _ =>
    obtain ⟨p, -, hread⟩ := List.exists_of_findSome?_eq_some form
    obtain ⟨r, hr, hshown⟩ := Option.bind_eq_some_iff.mp hread
    exact (Pattern.fine_of_read? hr).proper hshown

theorem exists_of_instant? (h : instant? zone s = some t) :
    ∃ shown offset, Reads zone s shown offset ∧ shown.instant? offset = some t := by
  rw [instant?, Option.orElse_eq_some] at h
  rcases h with h | ⟨-, h⟩
  · obtain ⟨r, form, ht⟩ := exists_of_zonedInstant? h
    obtain ⟨offset, shown, hoffset, hday, hshown, hinstant⟩ := Reading.instant?_eq_some_iff.mp ht
    exact ⟨shown, offset, .zoned form hoffset hday hshown, hinstant⟩
  · obtain ⟨shown, form, ht⟩ := Option.bind_eq_some_iff.mp h
    obtain ⟨offset, hoffset, hinstant⟩ := Option.bind_eq_some_iff.mp ht
    exact ⟨shown, offset, .zoneless form hoffset, hinstant⟩

/-- No form gives an instant. A form with an offset reads the text as what no clock shows, or the
offset is a day or more, or the instant would be outside the calendar. So it would be in a form
without one, or the local clock skips the time. -/
structure Refused (zone : Zone) (s : List Char) : Prop where
  zoned : ∀ r, ReadsZoned (trim s) r →
    ∀ shown offset, r.localTime? = some shown → r.offset = some offset →
      86400 ≤ offset.natAbs ∨ ¬Instant.InRange (shown.clockSeconds - offset)
  zoneless : ∀ shown, zonelessTime? (trim s) = some shown →
    zone.offsetAt? shown = none ∨
      ∃ offset, zone.offsetAt? shown = some offset ∧
        ¬Instant.InRange (shown.clockSeconds - offset)

theorem instant?_eq_none_iff : instant? zone s = none ↔ Refused zone s := by
  simp only [instant?, Option.orElse_eq_none, zonedInstant?_eq_none_iff,
    Reading.instant?_eq_none_iff, Option.bind_eq_none_iff, Zone.instant?_eq_none_iff]
  exact ⟨fun h ↦ ⟨h.1, h.2⟩, fun h ↦ ⟨h.zoned, h.zoneless⟩⟩

-- The clock skips this hour.
example : instant? .usEastern "2024-03-10 02:30:00".toList = none := by decide +kernel

end Received

/-! ## Local clocks in whole minutes -/

/-- The clock is always a whole number of minutes off UTC. -/
def Zone.WholeMinutes : Zone → Prop
  | .fixed offset => offset % 60 = 0
  | .northern season | .southern season => season.standard % 60 = 0

theorem Zone.WholeMinutes.offset_mod (h : zone.WholeMinutes)
    (hoffset : zone.offsetAt? shown = some offset) : offset % 60 = 0 := by
  cases zone with
  | fixed o => exact Option.some.inj hoffset ▸ h
  | northern season =>
    have hstandard : season.standard % 60 = 0 := h
    simp only [Zone.offsetAt?, Season.daylight] at hoffset
    split_ifs at hoffset <;> cases hoffset <;> omega
  | southern season =>
    have hstandard : season.standard % 60 = 0 := h
    simp only [Zone.offsetAt?, Season.daylight] at hoffset
    split_ifs at hoffset <;> cases hoffset <;> omega

/-- So it is in every zone that a rule describes. -/
theorem Zone.wholeMinutes_of_ofRule? {rule : String} (h : ofRule? rule = some zone) :
    zone.WholeMinutes := by
  rw [ofRule?.eq_def] at h
  split at h <;> cases h <;> rfl

theorem Received.Reads.offset_mod (h : Reads zone s shown offset)
    (hzone : zone.WholeMinutes ∨ zonelessTime? (trim s) = none) : offset % 60 = 0 := by
  cases h with
  | zoned form hoffset _ _ => exact form.fine.offset_mod offset hoffset
  | zoneless form hoffset =>
    rcases hzone with hzone | hnone
    · exact hzone.offset_mod hoffset
    · rw [hnone] at form
      cases form

/-! ## The calendar and its end -/

theorem Instant.inRange_iff {secs : ℤ} : InRange secs ↔
    secondsPerDay * (Date.mk firstYear 1 1).dayNumber ≤ secs ∧
      secs ≤ secondsPerDay * (Date.mk lastYear 12 31).dayNumber + 86399 := by
  have hlast : lastSecond = secondsPerDay * (Date.mk lastYear 12 31).dayNumber + 86399 := by decide
  rw [InRange, firstSecond_eq, hlast]

end MailRules.Calendar

namespace MailRules

open Calendar Text Received

/-- **A date is refused, or it is the instant that was written, and inside the calendar.** It is
refused only for the reasons of `Refused`. Otherwise the seconds of the instant are those that the
clock shows less its offset, from the first one of the first year to the last one of the last year.
A second goes on for another one only if it is the last of its minute, on the clock that shows it,
and also in UTC if that is not a local clock or one that is whole minutes off. -/
theorem receivedAt_inside_calendar (zone : Zone) (value : String) :
    (receivedAt zone value = .error (.date value) ∧ Refused zone value.toList) ∨
    ∃ t shown offset, receivedAt zone value = .ok t ∧ Reads zone value.toList shown offset ∧
      shown.Proper ∧ t.secs = shown.clockSeconds - offset ∧ t.nanos = shown.nanos ∧
      secondsPerDay * (Date.mk firstYear 1 1).dayNumber ≤ t.secs ∧
      t.secs ≤ secondsPerDay * (Date.mk lastYear 12 31).dayNumber + 86399 ∧
      t.nanos < 2 * nanosPerSecond ∧
      (nanosPerSecond ≤ t.nanos → shown.secondOfDay % 60 = 59) ∧
      (zone.WholeMinutes ∨ zonelessTime? (trim value.toList) = none →
        nanosPerSecond ≤ t.nanos → t.secs % 60 = 59) := by
  cases hinstant : Received.instant? zone value.toList with
  | none =>
    exact Or.inl ⟨receivedAt_eq_error_iff.mpr ⟨hinstant, rfl⟩, instant?_eq_none_iff.mp hinstant⟩
  | some t =>
    obtain ⟨shown, offset, hreads, ht⟩ := exists_of_instant? hinstant
    have hproper := hreads.proper
    obtain ⟨hrange, heq⟩ := LocalTime.instant?_eq_some_iff.mp ht
    have hsecs : t.secs = shown.clockSeconds - offset := congrArg Instant.secs heq
    have hnanos : t.nanos = shown.nanos := congrArg Instant.nanos heq
    rw [← hsecs, Instant.inRange_iff] at hrange
    refine Or.inr ⟨t, shown, offset, receivedAt_eq_ok_iff.mpr hinstant, hreads, hproper, hsecs,
      hnanos, hrange.1, hrange.2, ?_, fun hleap ↦ ?_, fun hzone hleap ↦ ?_⟩
    · rcases hproper.nanos_lt with hlt | ⟨hlt, -⟩ <;> omega
    · exact (hproper.nanos_lt.resolve_left (by omega)).2
    · have hvalid := hproper.valid (hreads.offset_mod hzone) ht
      exact (hvalid.nanos_lt.resolve_left (by omega)).2

/-- The last minute of the calendar has a sixtieth second, after all that its fifty-ninth holds. On
a clock that is half a minute off UTC a sixtieth second follows the twenty-ninth one of UTC. -/
theorem leap_second_after_calendar :
    receivedAt .utc "+262142-12-31 23:59:60" = .ok ⟨Instant.lastSecond, nanosPerSecond⟩ ∧
    (Instant.mk Instant.lastSecond (nanosPerSecond - 1)).before
      ⟨Instant.lastSecond, nanosPerSecond⟩ = true ∧
    receivedAt (.fixed 30) "2024-06-10 12:00:60" = .ok ⟨1718020829, nanosPerSecond⟩ ∧
    (1718020829 : ℤ) % 60 = 29 :=
  ⟨receivedAt_eq_ok_iff.mpr (by decide +kernel), by decide,
    receivedAt_eq_ok_iff.mpr (by decide +kernel), by decide⟩

end MailRules
