import MailRules.Calendar.Received
import MailRules.Proofs.Text.Numeral

/-!
# What making a form strict does to a text

Each of the three rewritings is told by the shape of the text it changes and is nothing on all
others: a comment is dropped from the last opening parenthesis of a text that ends in a closing one,
a zone is spelled anew behind a blank at the very end, and a zero is put before the first hour of
one digit.

The hour is the only one that is looked for inside the text. Padding walks over a stretch without
white space, and over white space that no short hour follows (`padAfterWhite_append_of_not_white`,
`padAfterWhite_append_of_white`), so where the first short hour stands is found part by part.
-/

namespace MailRules.Calendar.Received

open MailRules.Text

variable {c : Char} {s t u v w before suffix : List Char}

/-! ## Comments -/

theorem beforeLastOpen?_append (hv : '(' ∉ v) : beforeLastOpen? (u ++ '(' :: v) = some u := by
  have hscan : ((u ++ '(' :: v).reverse).dropWhile (· != '(') = '(' :: u.reverse := by
    rw [List.reverse_append, List.reverse_cons, List.append_assoc]
    refine dropWhile_append_of_stops (fun c hc ↦ ?_) (by simp)
    rw [bne_iff_ne]
    rintro rfl
    exact hv (List.mem_reverse.mp hc)
  simp only [beforeLastOpen?, hscan, List.reverse_reverse]

theorem dropComment_append (hv : '(' ∉ v) :
    dropComment (u ++ '(' :: (v ++ [')'])) = trimEnd u := by
  have hlast : (u ++ '(' :: (v ++ [')'])).getLast? = some ')' := by
    rw [← List.cons_append, ← List.append_assoc, List.getLast?_concat]
  rw [dropComment, if_pos hlast, beforeLastOpen?_append (by simpa using hv)]

theorem dropComment_of_getLast? (h : s.getLast? ≠ some ')') : dropComment s = s := by
  rw [dropComment, if_neg h]

/-! ## Zones -/

theorem beforeSuffix?_eq_some_iff :
    beforeSuffix? suffix s = some before ↔ s = before ++ suffix := by
  rw [beforeSuffix?]
  constructor
  · intro h
    split at h
    · rename_i hsuffix
      obtain ⟨t, rfl⟩ := List.isSuffixOf_iff_suffix.mp hsuffix
      rw [List.length_append, Nat.add_sub_cancel, List.take_left] at h
      rw [Option.some.inj h]
    · cases h
  · rintro rfl
    rw [if_pos (List.isSuffixOf_iff_suffix.mpr (List.suffix_append _ _)), List.length_append,
      Nat.add_sub_cancel, List.take_left]

/-- The endings that are spelled anew. -/
def ZoneWord (suffix : List Char) : Prop := suffix = " UTC".toList ∨ suffix = " Z".toList

theorem spellZone_append (h : ZoneWord suffix) :
    spellZone (before ++ suffix) = trimEnd before ++ " +0000".toList := by
  rw [spellZone]
  rcases h with rfl | rfl
  · rw [beforeSuffix?_eq_some_iff.mpr rfl]
    rfl
  · -- The two words end in different letters.
    have hutc : beforeSuffix? " UTC".toList (before ++ " Z".toList) = none := by
      rw [Option.eq_none_iff_forall_ne_some]
      intro before' h
      have hlast := congrArg List.getLast? (beforeSuffix?_eq_some_iff.mp h)
      simp at hlast
    rw [hutc, beforeSuffix?_eq_some_iff.mpr rfl]
    rfl

theorem spellZone_cases (s : List Char) :
    spellZone s = s ∨ ∃ before suffix, ZoneWord suffix ∧ s = before ++ suffix ∧
      spellZone s = trimEnd before ++ " +0000".toList := by
  by_cases hword : ∃ before suffix, ZoneWord suffix ∧ s = before ++ suffix
  · obtain ⟨before, suffix, hsuffix, rfl⟩ := hword
    exact Or.inr ⟨before, suffix, hsuffix, rfl, spellZone_append hsuffix⟩
  · left
    have hnone {suffix : List Char} (h : ZoneWord suffix) : beforeSuffix? suffix s = none := by
      rw [Option.eq_none_iff_forall_ne_some]
      intro before hbefore
      exact hword ⟨before, suffix, h, beforeSuffix?_eq_some_iff.mp hbefore⟩
    rw [spellZone, hnone (Or.inl rfl), hnone (Or.inr rfl)]
    rfl

theorem spellZone_concat (hc : c ≠ 'C') (hz : c ≠ 'Z') : spellZone (u ++ [c]) = u ++ [c] := by
  rcases spellZone_cases (u ++ [c]) with h | ⟨before, suffix, hsuffix, h, -⟩
  · exact h
  · have hlast := congrArg List.getLast? h
    rcases hsuffix with rfl | rfl
    · exact absurd (by simpa using hlast) hc
    · exact absurd (by simpa using hlast) hz

theorem spellZone_append_digits {ds : List Char} (hds : Digits ds) (hne : ds ≠ []) :
    spellZone (u ++ ds) = u ++ ds := by
  obtain ⟨es, c, rfl, hc⟩ := hds.exists_concat hne
  rw [← List.append_assoc,
    spellZone_concat (by rintro rfl; cases hc) (by rintro rfl; cases hc)]

/-- A text that ends in a digit has neither a comment nor a zone to spell anew. -/
theorem strict_append_digits {ds : List Char} (hds : Digits ds) (hne : ds ≠ []) :
    strict (u ++ ds) = padHour (u ++ ds) := by
  obtain ⟨es, c, rfl, hc⟩ := hds.exists_concat hne
  have hcomment : (u ++ (es ++ [c])).getLast? ≠ some ')' := by
    rw [← List.append_assoc, List.getLast?_concat]
    rintro heq
    cases heq
    cases hc
  rw [strict, dropComment_of_getLast? hcomment, spellZone_append_digits hds hne]

theorem strict_append_comment {ds : List Char} (hds : Digits ds) (hne : ds ≠ []) (hw : White w)
    (hv : '(' ∉ v) : strict (u ++ ds ++ w ++ '(' :: (v ++ [')'])) = padHour (u ++ ds) := by
  have hend : trimEnd (u ++ ds) = u ++ ds := by
    refine trimEnd_of_stops ?_
    obtain ⟨es, c, rfl, hc⟩ := hds.exists_concat hne
    simpa using isWhite_eq_false_of_isDigit hc
  rw [strict, dropComment_append hv, trimEnd_append_of_white hw, hend,
    spellZone_append_digits hds hne]

/-! ## Short hours -/

theorem startsShortHour_eq_false_of_stops (h : Stops isDigit s) : startsShortHour s = false := by
  rw [startsShortHour.eq_def]
  split
  · rw [stops_cons.mp h]
    rfl
  · rfl

/-- A character that is not a colon keeps the one before it from being an hour. -/
theorem startsShortHour_eq_false_of_ne_colon {d : Char} (h : d ≠ ':') :
    startsShortHour (c :: d :: s) = false := by
  rw [startsShortHour.eq_def]
  split
  · rename_i heq
    cases heq
    exact absurd rfl h
  · rfl

theorem startsShortHour_digits_append (hu : Digits u) (hlen : 2 ≤ u.length) :
    startsShortHour (u ++ s) = false := by
  match u with
  | [] | [_] => simp at hlen
  | d :: e :: u =>
    obtain ⟨-, he, -⟩ := digits_cons.mp hu |>.imp_right digits_cons.mp
    exact startsShortHour_eq_false_of_ne_colon fun heq ↦ by rw [heq] at he; cases he

theorem exists_of_startsShortHour (h : startsShortHour s = true) :
    ∃ d t, s = d :: ':' :: t ∧ isDigit d = true := by
  rw [startsShortHour.eq_def] at h
  split at h
  · rename_i d m n t
    simp only [Bool.and_eq_true] at h
    exact ⟨d, m :: n :: t, rfl, h.1.1⟩
  · cases h

theorem startsShortHour_append {hour minute : List Char} (hhour : Digits hour)
    (hlen : hour.length = 1) (hminute : Digits minute) (hlen' : 2 ≤ minute.length) :
    startsShortHour (hour ++ ':' :: (minute ++ s)) = true := by
  obtain ⟨h, rfl⟩ := List.length_eq_one_iff.mp hlen
  match minute with
  | [] | [_] => simp at hlen'
  | m :: n :: minute => simp_all [startsShortHour]

theorem padAfterWhite_append_of_not_white (hu : ∀ c ∈ u, isWhite c = false) :
    padAfterWhite (u ++ s) = u ++ padAfterWhite s := by
  induction u with
  | nil => rfl
  | cons c u ih =>
    rw [List.cons_append, padAfterWhite, hu c List.mem_cons_self, Bool.false_and,
      if_neg Bool.false_ne_true, ih fun d hd ↦ hu d (List.mem_cons_of_mem c hd), List.cons_append]

theorem padAfterWhite_cons_of_not_white (h : isWhite c = false) (s : List Char) :
    padAfterWhite (c :: s) = c :: padAfterWhite s :=
  padAfterWhite_append_of_not_white (u := [c]) fun _ hd ↦ List.mem_singleton.mp hd ▸ h

theorem padAfterWhite_cons_of_not_short (h : startsShortHour s = false) :
    padAfterWhite (c :: s) = c :: padAfterWhite s := by
  rw [padAfterWhite, h, Bool.and_false, if_neg Bool.false_ne_true]

theorem padAfterWhite_append_of_white (hw : White w) (hs : startsShortHour s = false) :
    padAfterWhite (w ++ s) = w ++ padAfterWhite s := by
  induction w with
  | nil => rfl
  | cons c w ih =>
    -- The next character is white, or it is the first one that is not.
    have hnext : startsShortHour (w ++ s) = false := by
      cases w with
      | nil => exact hs
      | cons d w =>
        refine startsShortHour_eq_false_of_stops (stops_cons.mpr ?_)
        exact isDigit_eq_false_of_isWhite (white_cons.mp (white_cons.mp hw).2).1
    rw [List.cons_append, padAfterWhite_cons_of_not_short hnext, ih (white_cons.mp hw).2,
      List.cons_append]

theorem padAfterWhite_append_of_short (hw : White w) (hne : w ≠ [])
    (hs : startsShortHour s = true) :
    padAfterWhite (w ++ s) = w ++ '0' :: s := by
  -- Only the last of the white space stands before the hour.
  obtain ⟨w, c, rfl⟩ := List.eq_nil_or_concat w |>.resolve_left hne
  obtain ⟨hw, hc⟩ := white_append.mp (List.concat_eq_append ▸ hw)
  rw [white_cons] at hc
  have hshort : startsShortHour (c :: s) = false :=
    startsShortHour_eq_false_of_stops (stops_cons.mpr (isDigit_eq_false_of_isWhite hc.1))
  rw [List.concat_eq_append, List.append_assoc, List.cons_append, List.nil_append,
    padAfterWhite_append_of_white hw hshort, padAfterWhite, hc.1, hs]
  simp

/-- An hour does not reach into what starts neither with a colon nor with a digit. -/
theorem startsShortHour_append_of_stops (hdigit : Stops isDigit t) (hcolon : Stops (· == ':') t)
    (s : List Char) : startsShortHour (s ++ t) = startsShortHour s := by
  cases t with
  | nil => rw [List.append_nil]
  | cons c t =>
    rw [stops_cons] at hdigit hcolon
    match s with
    | [] => exact startsShortHour_eq_false_of_stops (stops_cons.mpr hdigit)
    | [_] => exact startsShortHour_eq_false_of_ne_colon (beq_eq_false_iff_ne.mp hcolon)
    | _ :: d :: s =>
      rcases eq_or_ne d ':' with rfl | hd
      · match s with
        | [] => cases t <;> simp [startsShortHour, hdigit]
        | [_] => simp [startsShortHour, hdigit]
        | _ :: _ :: _ => rfl
      · rw [startsShortHour_eq_false_of_ne_colon hd]
        exact startsShortHour_eq_false_of_ne_colon hd

/-- Where nothing is padded in it, a text may follow another one that is padded. -/
theorem padHour_append_of_stops (hdigit : Stops isDigit t) (hcolon : Stops (· == ':') t)
    (ht : padAfterWhite t = t) (s : List Char) : padHour (s ++ t) = padHour s ++ t := by
  have hpad (s : List Char) : padAfterWhite (s ++ t) = padAfterWhite s ++ t := by
    induction s with
    | nil => exact ht
    | cons c s ih =>
      rw [List.cons_append, padAfterWhite, padAfterWhite,
        startsShortHour_append_of_stops hdigit hcolon, ih]
      split <;> rfl
  rw [padHour, padHour, startsShortHour_append_of_stops hdigit hcolon, hpad]
  split <;> rfl

/-- Padding at the start of a text is padding behind a blank. -/
theorem padAfterWhite_blank_cons (s : List Char) :
    padAfterWhite (' ' :: s) = ' ' :: padHour s := by
  rw [padAfterWhite, padHour]
  cases startsShortHour s <;> rfl

/-! ## Padded texts -/

/-- The text as it is, or with a short hour padded, which is its first or what it starts with. -/
def Padded (s t : List Char) : Prop :=
  t = s ∨ t = padAfterWhite s ∨ startsShortHour s = true ∧ t = '0' :: s

theorem padded_padHour (s : List Char) : Padded s (padHour s) := by
  rw [padHour]
  split
  · exact Or.inr (Or.inr ⟨‹_›, rfl⟩)
  · exact Or.inr (Or.inl rfl)

/-- Behind white space, padding is padding of what is behind it. -/
theorem exists_padAfterWhite_append (hw : White w) (s : List Char) :
    ∃ v, padAfterWhite (w ++ s) = w ++ v ∧ Padded s v := by
  rcases eq_or_ne w [] with rfl | hne
  · exact ⟨padAfterWhite s, rfl, Or.inr (Or.inl rfl)⟩
  · cases hs : startsShortHour s with
    | false =>
      exact ⟨padAfterWhite s, padAfterWhite_append_of_white hw hs, Or.inr (Or.inl rfl)⟩
    | true =>
      exact ⟨'0' :: s, padAfterWhite_append_of_short hw hne hs, Or.inr (Or.inr ⟨hs, rfl⟩)⟩

theorem stops_padAfterWhite {p : Char → Bool} (h : Stops p s) : Stops p (padAfterWhite s) := by
  cases s with
  | nil => exact h
  | cons c s =>
    rw [padAfterWhite]
    split <;> exact stops_cons.mpr (stops_cons.mp h)

namespace Padded

theorem stops {p : Char → Bool} (h : Padded s t) (hs : Stops p s) (hzero : p '0' = false) :
    Stops p t := by
  rcases h with rfl | rfl | ⟨-, rfl⟩
  · exact hs
  · exact stops_padAfterWhite hs
  · exact stops_cons.mpr hzero

/-- A character that is neither white nor a digit stays in front. -/
theorem exists_cons (hwhite : isWhite c = false) (hdigit : isDigit c = false)
    (h : Padded (c :: s) t) : ∃ t', t = c :: t' ∧ Padded s t' := by
  rcases h with rfl | rfl | ⟨hshort, -⟩
  · exact ⟨s, rfl, Or.inl rfl⟩
  · exact ⟨padAfterWhite s, padAfterWhite_cons_of_not_white hwhite s, Or.inr (Or.inl rfl)⟩
  · rw [startsShortHour_eq_false_of_stops (stops_cons.mpr hdigit)] at hshort
    cases hshort

theorem isEmpty_eq (h : Padded s t) : t.isEmpty = s.isEmpty := by
  rcases h with rfl | rfl | ⟨hshort, rfl⟩
  · rfl
  · cases s with
    | nil => rfl
    | cons c s =>
      rw [padAfterWhite]
      split <;> rfl
  · obtain ⟨d, t, rfl, -⟩ := exists_of_startsShortHour hshort
    rfl

/-- White space in front is left as it is. -/
theorem trimStart (h : Padded s t) : Padded (trimStart s) (trimStart t) := by
  rcases h with rfl | rfl | ⟨hshort, rfl⟩
  · exact Or.inl rfl
  · obtain ⟨w, hw, hs⟩ := exists_trimStart s
    have hstops := stops_trimStart s
    generalize Text.trimStart s = u at hs hstops ⊢
    obtain ⟨v, hpad, hv⟩ := exists_padAfterWhite_append hw u
    rwa [hs, hpad, trimStart_append_of_white hw,
      trimStart_of_stops (hv.stops hstops (by decide))]
  · -- A short hour has no white space in front.
    obtain ⟨d, t, rfl, hd⟩ := exists_of_startsShortHour hshort
    rw [trimStart_cons_of_not_white (isWhite_eq_false_of_isDigit hd),
      trimStart_cons_of_not_white (by decide)]
    exact Or.inr (Or.inr ⟨hshort, rfl⟩)

end Padded

end MailRules.Calendar.Received
