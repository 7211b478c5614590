import Mathlib
import MailRules.Proofs.Rule.Age

/-!
# Dates against a threshold

A date condition compares the date of a record with the instant that lies the age of the target
before now. All of it is arithmetic of integers. An age is an amount of 64 bits times the days of
its unit, or nothing if that is longer than a span of time may be (`Age.days_of_spells`); the
threshold is a difference of seconds, if the calendar has it (`threshold_eq_ok_iff`); and instants
compare as pairs of seconds and nanoseconds, which is the order of their `Instant.key`.

So the two date predicates have an answer for the same values and targets, fail with the same fault
for the others, and leave out exactly the threshold itself between them (`evaluateDate_exact`). A
record that is younger than an age is younger than any longer one, and was so at any earlier time.
-/

namespace MailRules

open Calendar Text

/-! ## The order of instants -/

namespace Calendar.Instant

variable {t u : Instant} {days longer : ℤ}

/-- Instants compare by the second, and within a second by the nanosecond. -/
def key (t : Instant) : ℤ ×ₗ ℕ := toLex (t.secs, t.nanos)

theorem before_iff_key_lt : t.before u = true ↔ t.key < u.key := by
  simp [before, key, Prod.Lex.toLex_lt_toLex]

/-- The instant so many days earlier, whether or not the calendar has it. -/
def ago (t : Instant) (days : ℤ) : Instant := ⟨t.secs - 86400 * days, t.nanos⟩

theorem key_ago_le (htime : t.key ≤ u.key) (hage : days ≤ longer) :
    (t.ago longer).key ≤ (u.ago days).key := by
  simp only [key, ago, Prod.Lex.toLex_le_toLex] at htime ⊢
  omega

end Calendar.Instant

/-! ## Thresholds -/

section Threshold

variable {now : Instant} {target : String} {fault : ConditionFault}

theorem threshold_eq_ok_iff (hnow : now.nanos < nanosPerSecond) {t : Instant} :
    threshold now target = .ok t ↔
      ∃ days, Age.days target = .ok days ∧ Instant.InRange (now.secs - 86400 * days) ∧
        t = now.ago days := by
  rw [threshold]
  cases hage : targetAge target with
  | error e =>
    constructor
    · intro h
      cases h
    · rintro ⟨days, hdays, -⟩
      rw [targetAge_eq_ok_iff.mpr ⟨days, hdays, rfl⟩] at hage
      cases hage
  | ok seconds =>
    obtain ⟨days, hdays, rfl⟩ := targetAge_eq_ok_iff.mp hage
    have hsum : now.addSeconds? (-(86400 * days)) = some t ↔
        Instant.InRange (now.secs - 86400 * days) ∧ t = now.ago days := by
      rw [Instant.addSeconds?_of_nanos_lt hnow, Instant.of?_eq_some_iff, ← sub_eq_add_neg,
        Instant.ago]
    simp only [hdays, Except.ok.injEq, exists_eq_left', ← hsum]
    cases hthere : now.addSeconds? (-(86400 * days)) with
    | none => simp [bind, Except.bind, hthere]
    | some u => simp [bind, Except.bind, pure, Except.pure, hthere]

theorem threshold_fails_iff (hnow : now.nanos < nanosPerSecond) :
    threshold now target = .error fault ↔
      targetAge target = .error fault ∨
        ∃ days, Age.days target = .ok days ∧ ¬Instant.InRange (now.secs - 86400 * days) ∧
          fault = .amount target := by
  cases hage : targetAge target with
  | error e =>
    rw [Condition.threshold_of_error hage, Except.error.injEq, Except.error.injEq]
    refine ⟨Or.inl, fun h ↦ h.resolve_right ?_⟩
    rintro ⟨days, hdays, -⟩
    rw [targetAge_eq_ok_iff.mpr ⟨days, hdays, rfl⟩] at hage
    cases hage
  | ok seconds =>
    obtain ⟨days, hdays, -⟩ := targetAge_eq_ok_iff.mp hage
    simp [Condition.threshold_eq_error_iff hnow hdays, hdays]

end Threshold

/-! ## Date conditions -/

/-- The target is an age that the calendar goes back from now, and the value is a date. -/
structure Dated (moment : Moment) (value target : String) (days : ℤ) (received : Instant) :
    Prop where
  age : Age.days target = .ok days
  inRange : Instant.InRange (moment.now.secs - 86400 * days)
  date : Received.instant? moment.zone value.toList = some received

/-- What is wrong first: the target is no age, or leads out of the calendar, or the value is no
date. -/
inductive Undated (moment : Moment) (value target : String) : ConditionFault → Prop
  | age {fault : ConditionFault} (noAge : targetAge target = .error fault) :
      Undated moment value target fault
  | beyond {days : ℤ} (age : Age.days target = .ok days)
      (outOfRange : ¬Instant.InRange (moment.now.secs - 86400 * days)) :
      Undated moment value target (.amount target)
  | date {days : ℤ} (age : Age.days target = .ok days)
      (inRange : Instant.InRange (moment.now.secs - 86400 * days))
      (noDate : Received.instant? moment.zone value.toList = none) :
      Undated moment value target (.date value)

section Evaluation

variable {moment : Moment} {value target predicate : String} {p : DatePredicate}

theorem evaluateDate_eq_ok_iff (hname : DatePredicate.named? predicate = some p)
    (hnow : moment.now.nanos < nanosPerSecond) {b : Bool} :
    evaluateDate moment value predicate target = .ok b ↔
      ∃ days received, Dated moment value target days received ∧
        b = p.holds received (moment.now.ago days) := by
  rw [Condition.evaluateDate_of_named hname]
  constructor
  · intro h
    cases hthreshold : threshold moment.now target with
    | error e => simp [hthreshold, Except.bind] at h
    | ok t =>
      cases hreceived : receivedAt moment.zone value with
      | error e => simp [hthreshold, hreceived, Except.bind, Except.map] at h
      | ok received =>
        obtain rfl : p.holds received t = b := by
          simpa [hthreshold, hreceived, Except.bind, Except.map] using h
        obtain ⟨days, hdays, hrange, rfl⟩ := (threshold_eq_ok_iff hnow).mp hthreshold
        exact ⟨days, received, ⟨hdays, hrange, receivedAt_eq_ok_iff.mp hreceived⟩, rfl⟩
  · rintro ⟨days, received, h, rfl⟩
    rw [(threshold_eq_ok_iff hnow).mpr ⟨days, h.age, h.inRange, rfl⟩,
      receivedAt_eq_ok_iff.mpr h.date]
    rfl

theorem evaluateDate_eq_error_iff (hname : DatePredicate.named? predicate = some p)
    (hnow : moment.now.nanos < nanosPerSecond) {fault : ConditionFault} :
    evaluateDate moment value predicate target = .error fault ↔
      Undated moment value target fault := by
  have hbefore : threshold moment.now target = .error fault →
      Undated moment value target fault := by
    intro h
    rcases (threshold_fails_iff hnow).mp h with hage | ⟨days, hdays, hrange, rfl⟩
    · exact .age hage
    · exact .beyond hdays hrange
  rw [Condition.evaluateDate_of_named hname]
  constructor
  · intro h
    cases hthreshold : threshold moment.now target with
    | error e =>
      obtain rfl : e = fault := by simpa [hthreshold, Except.bind] using h
      exact hbefore hthreshold
    | ok t =>
      obtain ⟨days, hdays, hrange, -⟩ := (threshold_eq_ok_iff hnow).mp hthreshold
      cases hreceived : receivedAt moment.zone value with
      | error e =>
        obtain rfl : e = fault := by
          simpa [hthreshold, hreceived, Except.bind, Except.map] using h
        obtain ⟨hnone, rfl⟩ := receivedAt_eq_error_iff.mp hreceived
        exact .date hdays hrange hnone
      | ok received => simp [hthreshold, hreceived, Except.bind, Except.map] at h
  · rintro (hage | ⟨hdays, hrange⟩ | ⟨hdays, hrange, hnone⟩)
    · rw [(threshold_fails_iff hnow).mpr (Or.inl hage)]
      rfl
    · rw [(threshold_fails_iff hnow).mpr (Or.inr ⟨_, hdays, hrange, rfl⟩)]
      rfl
    · rw [(threshold_eq_ok_iff hnow).mpr ⟨_, hdays, hrange, rfl⟩,
        receivedAt_eq_error_iff.mpr ⟨hnone, rfl⟩]
      rfl

theorem Dated.evaluateDate_eq {days : ℤ} {received : Instant}
    (h : Dated moment value target days received) (hnow : moment.now.nanos < nanosPerSecond)
    (hname : DatePredicate.named? predicate = some p) :
    evaluateDate moment value predicate target = .ok (p.holds received (moment.now.ago days)) :=
  (evaluateDate_eq_ok_iff hname hnow).mpr ⟨days, received, h, rfl⟩

theorem Dated.younger_iff {days : ℤ} {received : Instant}
    (h : Dated moment value target days received) (hnow : moment.now.nanos < nanosPerSecond) :
    evaluateDate moment value "less_than" target = .ok true ↔
      (moment.now.ago days).key < received.key := by
  rw [h.evaluateDate_eq hnow (p := .younger) rfl, Except.ok.injEq, DatePredicate.holds,
    Instant.before_iff_key_lt]

theorem Dated.older_iff {days : ℤ} {received : Instant}
    (h : Dated moment value target days received) (hnow : moment.now.nanos < nanosPerSecond) :
    evaluateDate moment value "greater_than" target = .ok true ↔
      received.key < (moment.now.ago days).key := by
  rw [h.evaluateDate_eq hnow (p := .older) rfl, Except.ok.injEq, DatePredicate.holds,
    Instant.before_iff_key_lt]

/-- Neither predicate holds at the threshold, and only there. -/
theorem Dated.neither_iff {days : ℤ} {received : Instant}
    (h : Dated moment value target days received) (hnow : moment.now.nanos < nanosPerSecond) :
    (evaluateDate moment value "less_than" target = .ok false ∧
        evaluateDate moment value "greater_than" target = .ok false) ↔
      received.key = (moment.now.ago days).key := by
  rw [h.evaluateDate_eq hnow (p := .younger) rfl, h.evaluateDate_eq hnow (p := .older) rfl]
  simp only [Except.ok.injEq, DatePredicate.holds, ← Bool.not_eq_true, Instant.before_iff_key_lt,
    not_lt]
  exact ⟨fun h ↦ le_antisymm h.1 h.2, fun h ↦ ⟨h.le, h.ge⟩⟩

/-- Nothing that is worked out on the way to a threshold has more than 64 bits, milliseconds
included. -/
theorem span_fits {now : Instant} {days : ℤ} (hnow : now.Valid)
    (hdays : Age.days target = .ok days) :
    |86400 * 1000 * days| < 2 ^ 63 ∧ |now.secs - 86400 * days| < 2 ^ 63 := by
  obtain ⟨-, -, -, -, hspan⟩ := Age.days_eq_ok_iff.mp hdays
  obtain ⟨hfirst, hlast⟩ := hnow.inRange
  rw [abs_le, Age.maxDays] at hspan
  rw [Instant.firstSecond] at hfirst
  rw [Instant.lastSecond] at hlast
  rw [abs_lt, abs_lt]
  omega

end Evaluation

/-! ## Longer ages and earlier times -/

section Monotone

variable {now earlier : Instant} {zone : Zone} {value target longTarget : String}
  {days longer : ℤ}

/-- A record that is younger than an age is younger than any longer one, and so it was before. -/
theorem younger_of_longer (hnow : now.nanos < nanosPerSecond)
    (hearlier : earlier.nanos < nanosPerSecond) (htime : earlier.key ≤ now.key)
    (hdays : Age.days target = .ok days) (hlonger : Age.days longTarget = .ok longer)
    (hage : days ≤ longer)
    (h : evaluateDate ⟨now, zone⟩ value "less_than" target = .ok true)
    (hok : ∃ b, evaluateDate ⟨earlier, zone⟩ value "less_than" longTarget = .ok b) :
    evaluateDate ⟨earlier, zone⟩ value "less_than" longTarget = .ok true := by
  obtain ⟨_, received, hdated, -⟩ := (evaluateDate_eq_ok_iff (p := .younger) rfl hnow).mp h
  obtain ⟨_, hb⟩ := hok
  obtain ⟨_, received', hdated', -⟩ :=
    (evaluateDate_eq_ok_iff (p := .younger) rfl hearlier).mp hb
  obtain rfl := Except.ok.inj (hdays.symm.trans hdated.age)
  obtain rfl := Except.ok.inj (hlonger.symm.trans hdated'.age)
  obtain rfl := Option.some.inj (hdated.date.symm.trans hdated'.date)
  rw [hdated'.younger_iff hearlier]
  exact (Instant.key_ago_le htime hage).trans_lt ((hdated.younger_iff hnow).mp h)

/-- A record that is older than an age is older than any shorter one, and so it will stay. -/
theorem older_of_shorter (hnow : now.nanos < nanosPerSecond)
    (hearlier : earlier.nanos < nanosPerSecond) (htime : earlier.key ≤ now.key)
    (hdays : Age.days target = .ok days) (hlonger : Age.days longTarget = .ok longer)
    (hage : days ≤ longer)
    (h : evaluateDate ⟨earlier, zone⟩ value "greater_than" longTarget = .ok true)
    (hok : ∃ b, evaluateDate ⟨now, zone⟩ value "greater_than" target = .ok b) :
    evaluateDate ⟨now, zone⟩ value "greater_than" target = .ok true := by
  obtain ⟨_, received, hdated, -⟩ := (evaluateDate_eq_ok_iff (p := .older) rfl hearlier).mp h
  obtain ⟨_, hb⟩ := hok
  obtain ⟨_, received', hdated', -⟩ := (evaluateDate_eq_ok_iff (p := .older) rfl hnow).mp hb
  obtain rfl := Except.ok.inj (hlonger.symm.trans hdated.age)
  obtain rfl := Except.ok.inj (hdays.symm.trans hdated'.age)
  obtain rfl := Option.some.inj (hdated.date.symm.trans hdated'.date)
  rw [hdated'.older_iff hnow]
  exact ((hdated.older_iff hearlier).mp h).trans_le (Instant.key_ago_le htime hage)

end Monotone

/-! ## The two predicates together -/

/-- **Date conditions are exact comparisons.** Both predicates have an answer for the same values
and targets, and the same fault for all others. They say on which side of the threshold the date of
the record lies, and neither holds at the threshold itself. No amount is too large for this: an age
is the exact product or the fault, and nothing on the way has more than 64 bits. A record that is
younger than an age was younger than any longer one before, and one that is older than an age will
be older than any shorter one. -/
theorem evaluateDate_exact {now : Instant} (hvalid : now.Valid)
    (hnow : now.nanos < nanosPerSecond) (zone : Zone) (value target : String) :
    (∀ predicate ∈ ["less_than", "greater_than"],
      ((∃ b, evaluateDate ⟨now, zone⟩ value predicate target = .ok b) ↔
        ∃ days received, Dated ⟨now, zone⟩ value target days received) ∧
      ∀ fault, evaluateDate ⟨now, zone⟩ value predicate target = .error fault ↔
        Undated ⟨now, zone⟩ value target fault) ∧
    (∀ days received, Dated ⟨now, zone⟩ value target days received →
      (evaluateDate ⟨now, zone⟩ value "less_than" target = .ok true ↔
        (now.ago days).key < received.key) ∧
      (evaluateDate ⟨now, zone⟩ value "greater_than" target = .ok true ↔
        received.key < (now.ago days).key) ∧
      (evaluateDate ⟨now, zone⟩ value "less_than" target = .ok false ∧
          evaluateDate ⟨now, zone⟩ value "greater_than" target = .ok false ↔
        received.key = (now.ago days).key)) ∧
    ¬(evaluateDate ⟨now, zone⟩ value "less_than" target = .ok true ∧
      evaluateDate ⟨now, zone⟩ value "greater_than" target = .ok true) ∧
    (∀ amount daysPerUnit, Age.Spells target amount daysPerUnit →
      Age.days target = if |amount * daysPerUnit| ≤ Age.maxDays
        then .ok (amount * daysPerUnit) else .error .amount) ∧
    ∀ days, Age.days target = .ok days →
      (|86400 * 1000 * days| < 2 ^ 63 ∧ |now.secs - 86400 * days| < 2 ^ 63) ∧
      ∀ earlier longTarget longer, earlier.nanos < nanosPerSecond → earlier.key ≤ now.key →
        Age.days longTarget = .ok longer → days ≤ longer →
        (evaluateDate ⟨now, zone⟩ value "less_than" target = .ok true →
          (∃ b, evaluateDate ⟨earlier, zone⟩ value "less_than" longTarget = .ok b) →
          evaluateDate ⟨earlier, zone⟩ value "less_than" longTarget = .ok true) ∧
        (evaluateDate ⟨earlier, zone⟩ value "greater_than" longTarget = .ok true →
          (∃ b, evaluateDate ⟨now, zone⟩ value "greater_than" target = .ok b) →
          evaluateDate ⟨now, zone⟩ value "greater_than" target = .ok true) := by
  have hasked {predicate : String} {p : DatePredicate}
      (hname : DatePredicate.named? predicate = some p) :
      ((∃ b, evaluateDate ⟨now, zone⟩ value predicate target = .ok b) ↔
        ∃ days received, Dated ⟨now, zone⟩ value target days received) ∧
      ∀ fault, evaluateDate ⟨now, zone⟩ value predicate target = .error fault ↔
        Undated ⟨now, zone⟩ value target fault := by
    refine ⟨⟨?_, ?_⟩, fun fault ↦ evaluateDate_eq_error_iff hname hnow⟩
    · rintro ⟨b, h⟩
      obtain ⟨days, received, hdated, -⟩ := (evaluateDate_eq_ok_iff hname hnow).mp h
      exact ⟨days, received, hdated⟩
    · rintro ⟨days, received, hdated⟩
      exact ⟨_, hdated.evaluateDate_eq hnow hname⟩
  refine ⟨?_, fun days received hdated ↦ ⟨hdated.younger_iff hnow, hdated.older_iff hnow,
    hdated.neither_iff hnow⟩, ?_, fun amount daysPerUnit ↦ Age.days_of_spells, ?_⟩
  · simp only [List.mem_cons, List.not_mem_nil, or_false, forall_eq_or_imp, forall_eq]
    exact ⟨hasked (p := .younger) rfl, hasked (p := .older) rfl⟩
  · rintro ⟨hyounger, holder⟩
    obtain ⟨days, received, hdated, -⟩ :=
      (evaluateDate_eq_ok_iff (p := .younger) rfl hnow).mp hyounger
    exact lt_asymm ((hdated.younger_iff hnow).mp hyounger) ((hdated.older_iff hnow).mp holder)
  · intro days hdays
    refine ⟨span_fits hvalid hdays, fun earlier longTarget longer hearlier htime hlonger hage ↦ ?_⟩
    exact ⟨younger_of_longer hnow hearlier htime hdays hlonger hage,
      older_of_shorter hnow hearlier htime hdays hlonger hage⟩

/-- A day ago to the nanosecond: neither more nor less than a day. -/
theorem evaluateDate_exact_of_day_ago :
    let noon : Instant := ⟨1718020800, 0⟩
    noon.Valid ∧ noon.nanos < nanosPerSecond ∧
      evaluateDate ⟨noon, .utc⟩ "2024-06-09T12:00:00Z" "less_than" "1 days" = .ok false ∧
      evaluateDate ⟨noon, .utc⟩ "2024-06-09T12:00:00Z" "greater_than" "1 days" = .ok false := by
  intro noon
  have hvalid : noon.Valid := by decide
  have hnow : noon.nanos < nanosPerSecond := by decide
  have hdated : Dated ⟨noon, .utc⟩ "2024-06-09T12:00:00Z" "1 days" 1 ⟨1717934400, 0⟩ :=
    ⟨by decide +kernel, by decide, by decide +kernel⟩
  obtain ⟨-, hcompares, -⟩ := evaluateDate_exact hvalid hnow .utc "2024-06-09T12:00:00Z" "1 days"
  exact ⟨hvalid, hnow, (hcompares 1 _ hdated).2.2.mpr rfl⟩

end MailRules
