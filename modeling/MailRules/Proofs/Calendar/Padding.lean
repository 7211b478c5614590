import MailRules.Proofs.Calendar.Header
import MailRules.Proofs.Calendar.Strict

/-!
# Padding of mail dates

A header has its hour in two digits and nothing else that looks like a short one, so padding goes
past it into the comments (`padHour_header_append`). There it may well find something, but a zero
behind white space neither opens nor closes a comment and is not escaped, so that comments stay what
they are (`onlyComments_padAfterWhite`).
-/

namespace MailRules.Calendar.Received

open MailRules.Text MailDate

variable {c : Char} {s t u w : List Char}

/-! ## Headers -/

theorem startsShortHour_white_append (hw : White w) (hs : startsShortHour s = false) :
    startsShortHour (w ++ s) = false := by
  cases w with
  | nil => exact hs
  | cons c w =>
    exact startsShortHour_eq_false_of_stops
      (stops_cons.mpr (isDigit_eq_false_of_isWhite (white_cons.mp hw).1))

theorem startsShortHour_of_letters (hne : u ≠ []) (hu : ∀ c ∈ u, isLetter c = true) :
    startsShortHour (u ++ s) = false :=
  startsShortHour_eq_false_of_stops
    (stops_append_of_all hu hne fun _ ↦ isDigit_eq_false_of_isLetter)

theorem startsShortHour_weekday_append {day : Option ℕ} (hu : SpellsWeekday u day)
    (hs : startsShortHour s = false) : startsShortHour (u ++ s) = false := by
  cases hu with
  | absent => exact hs
  | named hname =>
    obtain ⟨hne, hletters⟩ := isLetter_of_weekdayName? hname
    rw [List.append_assoc]
    exact startsShortHour_of_letters hne hletters

theorem startsShortHour_day_append (d : DateText) :
    startsShortHour (d.day ++ (d.beforeMonth ++ s)) = false := by
  rcases Nat.lt_or_ge d.day.length 2 with hlen | hlen
  · obtain ⟨c, hday⟩ :=
      List.length_eq_one_iff.mp (le_antisymm (Nat.le_of_lt_succ hlen) d.length_day_pos)
    have hwhite := d.white_beforeMonth
    have hne := d.beforeMonth_ne_nil
    generalize d.beforeMonth = w at hwhite hne
    cases w with
    | nil => exact absurd rfl hne
    | cons b w =>
      -- A day of one digit has white space behind it and no colon.
      rw [hday]
      refine startsShortHour_eq_false_of_ne_colon fun hcolon ↦ ?_
      rw [white_cons, hcolon] at hwhite
      exact absurd hwhite.1 (by decide)
  · exact startsShortHour_digits_append d.digits_day hlen

theorem startsShortHour_date_append (d : DateText) : startsShortHour (d.text ++ s) = false := by
  rcases d.exists_start s with h | ⟨t, h⟩
  · exact startsShortHour_eq_false_of_stops h
  · rw [h]
    exact startsShortHour_day_append d

theorem isWhite_eq_false_of_spellsWeekday {day : Option ℕ} (hu : SpellsWeekday u day) (hc : c ∈ u) :
    isWhite c = false := by
  cases hu with
  | absent => cases hc
  | named hname =>
    rcases List.mem_append.mp hc with hc | hc
    · exact isWhite_eq_false_of_isLetter ((isLetter_of_weekdayName? hname).2 c hc)
    · rw [List.mem_singleton.mp hc]
      decide

theorem isWhite_eq_false_of_digits (hu : Digits u) (hc : c ∈ u) : isWhite c = false :=
  isWhite_eq_false_of_isDigit (hu c hc)

theorem padAfterWhite_date_append (d : DateText) (s : List Char) :
    padAfterWhite (d.text ++ s) = d.text ++ padAfterWhite s := by
  obtain ⟨hmonth, hletters⟩ := isLetter_of_monthName? d.spells_month
  have hday := startsShortHour_day_append (s := d.month ++ (d.beforeYear ++ (d.year ++ s))) d
  simp only [DateText.text, List.append_assoc]
  rw [padAfterWhite_append_of_white d.white_lead (startsShortHour_weekday_append d.spells_weekday
      (startsShortHour_white_append d.white_pause hday)),
    padAfterWhite_append_of_not_white fun _ ↦ isWhite_eq_false_of_spellsWeekday d.spells_weekday,
    padAfterWhite_append_of_white d.white_pause hday,
    padAfterWhite_append_of_not_white fun _ ↦ isWhite_eq_false_of_digits d.digits_day,
    padAfterWhite_append_of_white d.white_beforeMonth (startsShortHour_of_letters hmonth hletters),
    padAfterWhite_append_of_not_white fun c hc ↦ isWhite_eq_false_of_isLetter (hletters c hc),
    padAfterWhite_append_of_white d.white_beforeYear
      (startsShortHour_digits_append d.digits_year d.length_year),
    padAfterWhite_append_of_not_white fun _ ↦ isWhite_eq_false_of_digits d.digits_year]

theorem startsShortHour_colon : startsShortHour (':' :: s) = false :=
  startsShortHour_eq_false_of_stops (stops_cons.mpr rfl)

theorem padAfterWhite_seconds_append {n : ℕ} (hu : SpellsSeconds u n) (s : List Char) :
    padAfterWhite (u ++ s) = u ++ padAfterWhite s := by
  cases hu with
  | absent => rfl
  | @given w ds hw hds hlen =>
    rw [List.append_assoc, List.cons_append, padAfterWhite_append_of_white hw startsShortHour_colon,
      padAfterWhite_cons_of_not_short (startsShortHour_digits_append hds hlen.ge),
      padAfterWhite_append_of_not_white fun _ ↦ isWhite_eq_false_of_digits hds, List.append_assoc,
      List.cons_append]

theorem padAfterWhite_time_append (t : TimeText) (s : List Char) :
    padAfterWhite (t.text ++ s) = t.text ++ padAfterWhite s := by
  have hminute (r : List Char) : startsShortHour (t.minute ++ r) = false :=
    startsShortHour_digits_append t.digits_minute t.length_minute.ge
  simp only [TimeText.text, List.append_assoc, List.cons_append]
  rw [padAfterWhite_append_of_not_white fun _ ↦ isWhite_eq_false_of_digits t.digits_hour,
    padAfterWhite_append_of_white t.white_beforeColon startsShortHour_colon,
    padAfterWhite_cons_of_not_short (startsShortHour_white_append t.white_afterColon (hminute _)),
    padAfterWhite_append_of_white t.white_afterColon (hminute _),
    padAfterWhite_append_of_not_white fun _ ↦ isWhite_eq_false_of_digits t.digits_minute,
    padAfterWhite_seconds_append t.spells_seconds]

theorem startsShortHour_zone_append {v : ℤ} (hu : SpellsZone u v) :
    startsShortHour (u ++ s) = false := by
  cases hu with
  | named hletters hne _ => exact startsShortHour_of_letters hne hletters
  | offset hsigns _ _ _ _ _ _ =>
    refine startsShortHour_eq_false_of_stops (stops_cons.mpr ?_)
    rcases hsigns with rfl | rfl <;> rfl

theorem padAfterWhite_header_append (h : Header) (s : List Char) :
    padAfterWhite (h.text ++ s) = h.text ++ padAfterWhite s := by
  simp only [Header.text, List.append_assoc]
  rw [padAfterWhite_date_append,
    padAfterWhite_append_of_white h.white_beforeTime (by
      rw [TimeText.text, List.append_assoc]
      exact startsShortHour_digits_append h.time.digits_hour h.time.length_hour.ge),
    padAfterWhite_time_append,
    padAfterWhite_append_of_white h.white_beforeZone (startsShortHour_zone_append h.spells_zone),
    padAfterWhite_append_of_not_white fun _ ↦ h.spells_zone.isWhite_eq_false]

/-- **The first short hour of a header with something behind it is in what is behind it.** -/
theorem padHour_header_append (h : Header) (s : List Char) :
    padHour (h.text ++ s) = h.text ++ padAfterWhite s := by
  have hstart : startsShortHour (h.text ++ s) = false := by
    rw [Header.text, List.append_assoc]
    exact startsShortHour_date_append h.date
  rw [padHour, hstart, if_neg Bool.false_ne_true, padAfterWhite_header_append]

theorem padHour_header (h : Header) : padHour h.text = h.text := by
  have hpad := padHour_header_append h []
  rwa [padAfterWhite, List.append_nil] at hpad

/-- A short hour after a date is the first. -/
theorem padHour_date_append_of_short (d : DateText) (hs : startsShortHour s = true) :
    padHour (d.text ++ ' ' :: s) = d.text ++ ' ' :: '0' :: s := by
  rw [padHour, startsShortHour_date_append, if_neg Bool.false_ne_true, padAfterWhite_date_append,
    padAfterWhite_blank_cons, padHour, if_pos hs]

/-! ## Padding among comments -/

theorem padAfterWhite_cons (c : Char) (s : List Char) :
    (isWhite c = true ∧ padAfterWhite (c :: s) = c :: '0' :: s) ∨
      padAfterWhite (c :: s) = c :: padAfterWhite s := by
  rw [padAfterWhite]
  split
  · rename_i hshort
    exact Or.inl ⟨(Bool.and_eq_true_iff.mp hshort).1, rfl⟩
  · exact Or.inr rfl

theorem mem_padAfterWhite (h : c ∈ s) : c ∈ padAfterWhite s := by
  induction s with
  | nil => cases h
  | cons d s ih =>
    rcases padAfterWhite_cons d s with ⟨-, hpad⟩ | hpad
    · rw [hpad]
      rcases List.mem_cons.mp h with rfl | h
      · exact List.mem_cons_self
      · exact List.mem_cons_of_mem _ (List.mem_cons_of_mem _ h)
    · rw [hpad]
      rcases List.mem_cons.mp h with rfl | h
      · exact List.mem_cons_self
      · exact List.mem_cons_of_mem _ (ih h)

theorem rel_padded_refl : ∀ o : Option (List Char), Option.Rel Padded o o
  | none => .none
  | some _ => .some (Or.inl rfl)

theorem closeComment?_cons {d : ℕ} (hescape : c ≠ '\\') (hopen : c ≠ '(') (hclose : c ≠ ')')
    (s : List Char) : closeComment? d (c :: s) = closeComment? d s := by
  rw [closeComment?]
  · rintro e v rfl -
    exact hescape rfl
  · exact hopen
  · exact hclose

/-- The zero of an hour is neither escaped nor a parenthesis. -/
theorem closeComment?_padded {d : ℕ} (h : Padded s t) :
    Option.Rel Padded (closeComment? d s) (closeComment? d t) := by
  have hzero (d : ℕ) (s : List Char) : closeComment? d ('0' :: s) = closeComment? d s :=
    closeComment?_cons (by decide) (by decide) (by decide) s
  rcases h with rfl | rfl | ⟨-, rfl⟩
  · exact rel_padded_refl _
  · -- Along the comment, up to the white space before the hour if it is inside.
    fun_induction closeComment? d s with
    | case1 => exact .none
    | case2 d c s ih =>
      -- That white space may be escaped, but the zero behind it is not.
      have hskip : padAfterWhite ('\\' :: c :: s) = '\\' :: padAfterWhite (c :: s) := rfl
      rw [hskip]
      rcases padAfterWhite_cons c s with ⟨-, hpad⟩ | hpad
      · rw [hpad, closeComment?, hzero]
        exact rel_padded_refl _
      · rw [hpad]
        exact ih
    | case3 d s ih => exact ih
    | case4 s => exact .some (Or.inr (Or.inl rfl))
    | case5 s d ih => exact ih
    | case6 d c s hescape hopen hclose ih =>
      rcases padAfterWhite_cons c s with ⟨hwhite, hpad⟩ | hpad
      · rw [hpad, closeComment?_cons (by rintro rfl; cases hwhite) hopen hclose, hzero]
        exact rel_padded_refl _
      · rw [hpad]
        rcases eq_or_ne c '\\' with rfl | hc
        · -- A backslash that escapes nothing is the end of the text.
          cases s with
          | nil => exact .none
          | cons e s => exact absurd rfl (hescape e s rfl)
        · rw [closeComment?_cons hc hopen hclose]
          exact ih
  · rw [hzero]
    exact rel_padded_refl _

theorem comment?_trimStart (s : List Char) : comment? (trimStart s) = comment? s := by
  rw [comment?, comment?, trimStart_of_stops (stops_trimStart s)]

theorem comment?_of_stops (hwhite : Stops isWhite s) (hopen : Stops (· == '(') s) :
    comment? s = none := by
  rw [comment?, trimStart_of_stops hwhite]
  split
  · cases stops_cons.mp hopen
  · rfl

theorem comment?_padded (h : Padded s t) : Option.Rel Padded (comment? s) (comment? t) := by
  have hpad := h.trimStart
  have hwhite := stops_trimStart s
  have hwhite' := stops_trimStart t
  rw [← comment?_trimStart s, ← comment?_trimStart t]
  generalize trimStart s = u, trimStart t = v at hpad hwhite hwhite'
  by_cases hopen : Stops (· == '(') u
  · rw [comment?_of_stops hwhite hopen, comment?_of_stops hwhite' (hpad.stops hopen (by decide))]
    exact .none
  · cases u with
    | nil => exact absurd stops_nil hopen
    | cons c u =>
      obtain rfl : c = '(' := by simpa using hopen
      obtain ⟨v, rfl, hbody⟩ := hpad.exists_cons (by decide) (by decide)
      exact closeComment?_padded hbody

theorem onlyComments_padded (h : Padded s t) : onlyComments t = onlyComments s := by
  fun_induction onlyComments s generalizing t with
  | case1 s hnone =>
    have hrel := comment?_padded h
    rw [hnone] at hrel
    have hnone' : comment? t = none := by
      generalize comment? t = o at hrel
      cases hrel
      rfl
    rw [onlyComments_of_comment?_eq_none hnone']
    exact h.isEmpty_eq
  | case2 s rest hsome ih =>
    have hrel := comment?_padded h
    rw [hsome] at hrel
    obtain ⟨rest', hrest', hpadded⟩ : ∃ rest', comment? t = some rest' ∧ Padded rest rest' := by
      generalize comment? t = o at hrel
      cases hrel with
      | some hpadded => exact ⟨_, rfl, hpadded⟩
    rw [onlyComments_of_comment? hrest', ih hpadded]

theorem onlyComments_padAfterWhite (s : List Char) :
    onlyComments (padAfterWhite s) = onlyComments s := onlyComments_padded (Or.inr (Or.inl rfl))

end MailRules.Calendar.Received
