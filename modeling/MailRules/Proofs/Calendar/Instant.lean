import Mathlib
import MailRules.Calendar.Instant

/-!
# Instants that exist, and moving on from them

An instant is a pair of numbers, and not every pair is one: the second has to lie inside the
calendar, and only the last second of a minute can be a leap second. `Instant.Valid` says so. Moving
by seconds either leaves the calendar or ends at an instant that exists again
(`Instant.Valid.addSeconds?`). Moving on ends in the plain sum, and a leap second counts as the end
of its minute.
-/

namespace MailRules.Calendar.Instant

/-- The calendar has this instant. -/
structure Valid (t : Instant) : Prop where
  inRange : InRange t.secs
  nanos_lt : t.nanos < nanosPerSecond ∨ t.nanos < 2 * nanosPerSecond ∧ t.secs % 60 = 59

instance (t : Instant) : Decidable t.Valid :=
  decidable_of_iff (InRange t.secs ∧
      (t.nanos < nanosPerSecond ∨ t.nanos < 2 * nanosPerSecond ∧ t.secs % 60 = 59))
    ⟨fun ⟨h, h'⟩ ↦ ⟨h, h'⟩, fun ⟨h, h'⟩ ↦ ⟨h, h'⟩⟩

variable {t u : Instant} {seconds secs : ℤ} {nanos : ℕ}

theorem of?_eq_some_iff : of? secs nanos = some u ↔ InRange secs ∧ u = ⟨secs, nanos⟩ := by
  rw [of?]
  split <;> simp [*, eq_comm]

theorem of?_eq_none_iff : of? secs nanos = none ↔ ¬InRange secs := by
  rw [of?]
  split <;> simp [*]

theorem isLeapSecond_iff : t.isLeapSecond = true ↔ nanosPerSecond ≤ t.nanos := by
  simp [isLeapSecond]

theorem addSeconds?_of_nanos_lt (h : t.nanos < nanosPerSecond) :
    t.addSeconds? seconds = of? (t.secs + seconds) t.nanos := by
  have hleap : t.isLeapSecond = false := by simpa [isLeapSecond] using h
  rw [addSeconds?, hleap, Bool.false_and, if_neg Bool.false_ne_true]

theorem addSeconds?_of_pos (h : 0 < seconds) :
    t.addSeconds? seconds =
      of? (t.secs + seconds)
        (if t.isLeapSecond then t.nanos - nanosPerSecond else t.nanos) := by
  have hzero : (seconds != 0) = true := bne_iff_ne.mpr h.ne'
  rw [addSeconds?, hzero, Bool.and_true]
  split
  · simp [not_lt.mpr h.le]
  · rfl

theorem addSeconds?_eq_some_iff_of_pos (h : 0 < seconds) :
    t.addSeconds? seconds = some u ↔ InRange (t.secs + seconds) ∧
      u = ⟨t.secs + seconds, if t.isLeapSecond then t.nanos - nanosPerSecond else t.nanos⟩ := by
  rw [addSeconds?_of_pos h, of?_eq_some_iff]

theorem addSeconds?_eq_none_iff_of_pos (h : 0 < seconds) :
    t.addSeconds? seconds = none ↔ ¬InRange (t.secs + seconds) := by
  rw [addSeconds?_of_pos h, of?_eq_none_iff]

/-- **Moving inside the calendar ends at an instant that exists.** -/
theorem Valid.addSeconds? (ht : t.Valid) (h : t.addSeconds? seconds = some u) : u.Valid := by
  have hnanos := ht.nanos_lt
  rw [Instant.addSeconds?] at h
  split at h
  · -- a move out of a leap second keeps its fraction
    obtain ⟨hrange, rfl⟩ := of?_eq_some_iff.mp h
    exact ⟨hrange, Or.inl (by dsimp only; omega)⟩
  · rename_i hstay
    obtain ⟨hrange, rfl⟩ := of?_eq_some_iff.mp h
    refine ⟨hrange, ?_⟩
    by_cases hleap : nanosPerSecond ≤ t.nanos
    · obtain rfl : seconds = 0 := by simpa [isLeapSecond, hleap] using hstay
      simpa using hnanos
    · exact Or.inl (not_le.mp hleap)

end MailRules.Calendar.Instant
