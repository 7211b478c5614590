import MailRules.Proofs.Calendar.Padding
import MailRules.Proofs.Calendar.Pattern
import MailRules.Proofs.Rule.Evaluation

/-!
# What making a date strict does to a date that is strict already

A mail date is a header and comments. The last comment is dropped from the last opening parenthesis
of the text, which is the one that opens it only if there is none inside. Then the rest is a mail
date still, and what it says is the same: a zone `Z` is spelled `+0000`, and padding finds its hour
in a comment if anywhere (`mailDate_strict_of_flat`).

If the last comment has an opening parenthesis inside, nested or escaped, it is cut there, and the
comment before the cut is never closed (`exists_strict_of_nested`). An open parenthesis remains,
which no other form has, so that nothing is received at all: `receivedAt_mailDate` tells the two
cases apart.
-/

namespace MailRules.Calendar.Received

open MailRules.Text MailDate
open MailDate.Comment (textOfAll)

variable {s t u v w : List Char} {c : Char}

/-! ## The end of a mail date -/

theorem exists_concat_of_spellsZone {z : ℤ} (hu : SpellsZone u z) :
    ∃ v c, u = v ++ [c] ∧ isWhite c = false ∧ c ≠ ')' := by
  obtain ⟨v, c, rfl⟩ := List.eq_nil_or_concat u |>.resolve_left hu.ne_nil
  have hmem : c ∈ v.concat c := by simp
  refine ⟨v, c, List.concat_eq_append, hu.isWhite_eq_false hmem, ?_⟩
  rintro rfl
  rcases hu.char_cases hmem with h | h | h | h <;> exact absurd h (by decide)

theorem exists_concat_of_header (h : Header) :
    ∃ v c, h.text = v ++ [c] ∧ isWhite c = false ∧ c ≠ ')' := by
  obtain ⟨v, c, hzone, hc⟩ := exists_concat_of_spellsZone h.spells_zone
  refine ⟨h.date.text ++ (h.beforeTime ++ (h.time.text ++ (h.beforeZone ++ v))), c, ?_, hc⟩
  rw [Header.text, hzone]
  simp only [List.append_assoc]

theorem trimEnd_header_append (h : Header) (cs : List Comment) :
    trimEnd (h.text ++ textOfAll cs) = h.text ++ textOfAll cs := by
  refine trimEnd_of_stops ?_
  rcases textOfAll_eq_nil_or_concat cs with hnil | ⟨u, hu⟩
  · obtain ⟨v, c, hv, hc, -⟩ := exists_concat_of_header h
    rw [hnil, List.append_nil, hv, List.reverse_concat, stops_cons]
    exact hc
  · rw [hu, ← List.append_assoc, List.reverse_concat, stops_cons]
    decide

/-! ## Zones -/

/-- The time of a header ends in a digit. -/
theorem exists_digits_of_time (t : TimeText) :
    ∃ u ds, t.text = u ++ ds ∧ Digits ds ∧ ds ≠ [] := by
  have hspells := t.spells_seconds
  simp only [TimeText.text]
  generalize t.seconds = seconds, t.second = second at hspells
  cases hspells with
  | absent =>
    refine ⟨t.hour ++ (t.beforeColon ++ ':' :: t.afterColon), t.minute, ?_, t.digits_minute,
      t.minute_ne_nil⟩
    simp
  | @given w ds hw hds hlen =>
    refine ⟨t.hour ++ (t.beforeColon ++ ':' :: (t.afterColon ++ (t.minute ++ (w ++ [':'])))), ds,
      ?_, hds, List.ne_nil_of_length_pos (by rw [hlen]; decide)⟩
    simp

/-- A text has one last word. -/
theorem last_word_inj {b d : Char} (hb : isWhite b = true) (hd : isWhite d = true)
    (hu : ∀ c ∈ u, isWhite c = false) (hv : ∀ c ∈ v, isWhite c = false)
    (h : s ++ b :: u = t ++ d :: v) : s = t ∧ u = v := by
  rcases List.append_eq_append_iff.mp h with ⟨as, rfl, has⟩ | ⟨bs, rfl, hbs⟩
  · cases as with
    | nil => exact ⟨(List.append_nil s).symm, (List.cons.inj has).2⟩
    | cons a as =>
      have hmem : d ∈ u := by
        rw [(List.cons.inj has).2]
        simp
      rw [hu d hmem] at hd
      cases hd
  · cases bs with
    | nil => exact ⟨List.append_nil t, (List.cons.inj hbs).2.symm⟩
    | cons a bs =>
      have hmem : b ∈ v := by
        rw [(List.cons.inj hbs).2]
        simp
      rw [hv b hmem] at hb
      cases hb

/-- Of the words that are spelled anew only `Z` is a zone, and it is UTC. -/
theorem zoneWord_of_spellsZone {z : ℤ} (hu : SpellsZone u z) (hword : ZoneWord (' ' :: u)) :
    z = 0 := by
  have hread := hu.zone?_append stops_nil
  rw [List.append_nil] at hread
  rcases hword with hword | hword
  · have hutc : zone? ['U', 'T', 'C'] = none := by decide
    rw [show u = ['U', 'T', 'C'] by simpa using hword, hutc] at hread
    cases hread
  · have hz : zone? ['Z'] = some (0, []) := by decide
    rw [show u = ['Z'] by simpa using hword, hz] at hread
    exact (Prod.mk.inj (Option.some.inj hread)).1.symm

theorem trimEnd_date_time (d : DateText) (w : List Char) (t : TimeText) :
    trimEnd (d.text ++ (w ++ t.text)) = d.text ++ (w ++ t.text) := by
  obtain ⟨u, ds, htext, hds, hne⟩ := exists_digits_of_time t
  obtain ⟨es, c, rfl, hc⟩ := hds.exists_concat hne
  refine trimEnd_of_stops ?_
  rw [htext, ← List.append_assoc u, ← List.append_assoc w, ← List.append_assoc d.text,
    List.reverse_concat, stops_cons]
  exact isWhite_eq_false_of_isDigit hc

/-- **Spelling the zone anew does not change what a header says.** -/
theorem exists_spellZone_header (h : Header) :
    ∃ h' : Header, spellZone h.text = h'.text ∧ h'.reading = h.reading := by
  rcases spellZone_cases h.text with hsame | ⟨before, suffix, hword, htext, hspell⟩
  · exact ⟨h, hsame, rfl⟩
  · obtain ⟨word, rfl, hletters⟩ :
        ∃ word, suffix = ' ' :: word ∧ ∀ c ∈ word, isWhite c = false := by
      rcases hword with rfl | rfl
      · exact ⟨['U', 'T', 'C'], rfl, by simp [isWhite]⟩
      · exact ⟨['Z'], rfl, by simp [isWhite]⟩
    obtain ⟨gap, b, hgap⟩ := List.eq_nil_or_concat h.beforeZone |>.resolve_left h.beforeZone_ne_nil
    have hwhite := h.white_beforeZone
    rw [hgap, List.concat_eq_append, white_append, white_cons] at hwhite
    -- The zone and the word that is spelled anew are both the last word of the header.
    obtain ⟨rfl, rfl⟩ : h.date.text ++ (h.beforeTime ++ (h.time.text ++ gap)) = before ∧
        h.zone = word := by
      refine last_word_inj (d := ' ') hwhite.2.1 (by decide)
        (fun _ ↦ h.spells_zone.isWhite_eq_false) hletters ?_
      rw [← htext, Header.text, hgap]
      simp
    refine ⟨{ h with
      beforeZone := [' ']
      zone := Offset.utc.text []
      offset := 0
      white_beforeZone := white_blank
      beforeZone_ne_nil := List.cons_ne_nil _ _
      spells_zone := spellsZone_offset .utc }, ?_, ?_⟩
    · have htrim : trimEnd (h.date.text ++ (h.beforeTime ++ (h.time.text ++ gap))) =
          h.date.text ++ (h.beforeTime ++ h.time.text) := by
        rw [← List.append_assoc h.beforeTime, ← List.append_assoc h.date.text,
          trimEnd_append_of_white hwhite.1, trimEnd_date_time]
      rw [hspell, htrim, Header.text]
      simp only [List.append_assoc]
      rfl
    · rw [Header.reading, Header.reading, zoneWord_of_spellsZone h.spells_zone hword]

theorem exists_spellZone_mailDate (h : Header) (cs : List Comment) :
    ∃ h' : Header, spellZone (h.text ++ textOfAll cs) = h'.text ++ textOfAll cs ∧
      h'.reading = h.reading := by
  rcases textOfAll_eq_nil_or_concat cs with hnil | ⟨u, hu⟩
  · rw [hnil]
    simpa using exists_spellZone_header h
  · refine ⟨h, ?_, rfl⟩
    rw [hu, ← List.append_assoc, spellZone_concat (by decide) (by decide)]

/-! ## A last comment without parentheses inside -/

theorem getLast?_header (h : Header) : h.text.getLast? ≠ some ')' := by
  obtain ⟨v, c, hv, -, hc⟩ := exists_concat_of_header h
  rw [hv, List.getLast?_concat]
  exact fun heq ↦ hc (Option.some.inj heq)

/-- What is dropped is the last comment. -/
theorem exists_dropComment_of_flat (h : Header) {cs : List Comment}
    (hflat : ∀ c ∈ cs.getLast?, '(' ∉ c.body) :
    ∃ cs', dropComment (h.text ++ textOfAll cs) = h.text ++ textOfAll cs' := by
  rcases List.eq_nil_or_concat cs with rfl | ⟨cs, c, rfl⟩
  · refine ⟨[], dropComment_of_getLast? ?_⟩
    rw [Comment.textOfAll_nil, List.append_nil]
    exact getLast?_header h
  · rw [List.concat_eq_append] at hflat ⊢
    have hbody := hflat c (by rw [List.getLast?_concat]; rfl)
    obtain ⟨v, hv⟩ := exists_concat_of_closeComment? c.closes
    rw [hv] at hbody
    refine ⟨cs, ?_⟩
    -- The last opening parenthesis of the text is the one that opens the last comment.
    rw [Comment.textOfAll_concat, Comment.text, hv, ← List.append_assoc, ← List.append_assoc,
      dropComment_append fun hmem ↦ hbody (List.mem_append_left _ hmem),
      trimEnd_append_of_white c.white_space, trimEnd_header_append]

theorem mailDate_strict_of_flat (h : Header) {cs : List Comment}
    (hflat : ∀ c ∈ cs.getLast?, '(' ∉ c.body) :
    MailDate.read? (strict (h.text ++ textOfAll cs)) = some h.reading := by
  obtain ⟨cs', hdrop⟩ := exists_dropComment_of_flat h hflat
  obtain ⟨h', hspell, hreading⟩ := exists_spellZone_mailDate h cs'
  have honly : onlyComments (padAfterWhite (textOfAll cs')) = true := by
    rw [onlyComments_padAfterWhite]
    exact onlyComments_eq_true_iff.mpr ⟨cs', rfl⟩
  rw [strict, hdrop, hspell, padHour_header_append,
    h'.read?_append (stops_padAfterWhite (stops_letter_textOfAll cs')), if_pos honly, hreading]

/-! ## A last comment with a parenthesis inside -/

/-- A comment that is cut short is not closed by what has no closing parenthesis. -/
theorem closeComment?_append_eq_none {d : ℕ} (hs : closeComment? d s = none) (ht : ')' ∉ t) :
    closeComment? d (s ++ t) = none := by
  rw [Option.eq_none_iff_forall_ne_some]
  intro rest h
  obtain ⟨u, hu, hclosed⟩ := exists_of_closeComment? h
  obtain ⟨v, rfl⟩ := exists_concat_of_closeComment? hclosed
  rcases List.append_eq_append_iff.mp hu with ⟨as, has, rfl⟩ | ⟨bs, rfl, -⟩
  · rcases List.eq_nil_or_concat as with rfl | ⟨as, e, rfl⟩
    · rw [List.append_nil] at has
      rw [← has, hclosed] at hs
      cases hs
    · -- The parenthesis that closes would stand in what is appended.
      rw [List.concat_eq_append, ← List.append_assoc] at has
      obtain rfl : ')' = e := by simpa using (List.append_inj' has rfl).2
      exact ht (by simp)
  · rw [closeComment?_append bs hclosed] at hs
    cases hs

theorem trimEnd_append_open (u v : List Char) :
    trimEnd (u ++ '(' :: v) = u ++ '(' :: trimEnd v := by
  obtain ⟨w, hw, hv⟩ := exists_trimEnd v
  have hstops : Stops isWhite (u ++ '(' :: trimEnd v).reverse := by
    rw [List.reverse_append, List.reverse_cons, List.append_assoc]
    exact (stops_reverse_trimEnd v).append (stops_cons.mpr (by decide))
  conv_lhs => rw [hv, ← List.cons_append, ← List.append_assoc]
  rw [trimEnd_append_of_white hw, trimEnd_of_stops hstops]

/-- The last opening parenthesis inside a comment and what follows it to the end. -/
theorem exists_last_open {c : Comment} (hopen : '(' ∈ c.body) :
    ∃ u v, c.body = u ++ '(' :: (v ++ [')']) ∧ '(' ∉ v := by
  obtain ⟨as, bs, hsplit, has⟩ := List.eq_append_cons_of_mem (List.mem_reverse.mpr hopen)
  have hbody : c.body = bs.reverse ++ '(' :: as.reverse := by
    rw [← List.reverse_reverse c.body, hsplit]
    simp
  obtain ⟨z, hz⟩ := exists_concat_of_closeComment? c.closes
  rcases List.eq_nil_or_concat as.reverse with hnil | ⟨v, e, hv⟩
  · rw [hnil, hz] at hbody
    simpa using (List.append_inj' hbody rfl).2
  · rw [hv, List.concat_eq_append] at hbody
    obtain rfl : ')' = e := by
      rw [hz, ← List.cons_append, ← List.append_assoc] at hbody
      simpa using (List.append_inj' hbody rfl).2
    refine ⟨bs.reverse, v, hbody, fun hmem ↦ has (List.mem_reverse.mp ?_)⟩
    rw [hv, List.concat_eq_append]
    exact List.mem_append_left _ hmem

/-- A suffix without a character stands behind that character. -/
theorem exists_of_append_suffix {before suffix : List Char} (hc : c ∉ suffix)
    (h : s ++ c :: t = before ++ suffix) : ∃ a, before = s ++ c :: a ∧ t = a ++ suffix := by
  rcases List.append_eq_append_iff.mp h with ⟨as, rfl, has⟩ | ⟨bs, rfl, rfl⟩
  · cases as with
    | nil =>
      rw [List.nil_append] at has
      exact absurd (has ▸ List.mem_cons_self) hc
    | cons a as =>
      obtain ⟨rfl, rfl⟩ := List.cons.inj has
      exact ⟨as, rfl, rfl⟩
  · exact absurd (List.mem_append_right bs List.mem_cons_self) hc

/-- What is left of the last comment is still open. -/
theorem exists_spellZone_dropComment_of_nested (x : List Char) {c : Comment}
    (hopen : '(' ∈ c.body) :
    ∃ b, closeComment? 0 b = none ∧
      spellZone (dropComment (x ++ c.text)) = x ++ (c.space ++ '(' :: b) := by
  obtain ⟨u, v, hbody, hv⟩ := exists_last_open hopen
  have hcut {a t : List Char} (ht : t ≠ []) (ha : c.body = trimEnd a ++ t) :
      closeComment? 0 (trimEnd a) = none :=
    closeComment?_eq_none_of_cut (ha ▸ c.closes) ht
  have hdrop : dropComment (x ++ c.text) = x ++ c.space ++ '(' :: trimEnd u := by
    rw [Comment.text, hbody, ← List.append_assoc, ← List.cons_append, ← List.append_assoc,
      dropComment_append hv, trimEnd_append_open]
  obtain ⟨w, hw, hu⟩ := exists_trimEnd u
  rw [hdrop]
  rcases spellZone_cases (x ++ c.space ++ '(' :: trimEnd u) with
    hsame | ⟨before, suffix, hword, htext, hspell⟩
  · refine ⟨trimEnd u, hcut (t := w ++ '(' :: (v ++ [')'])) (by simp) ?_, ?_⟩
    · rw [hbody, ← List.append_assoc, ← hu]
    · rw [hsame, List.append_assoc]
  · -- The zone that is spelled anew stands inside the comment.
    have hsuffix : '(' ∉ suffix := by rcases hword with rfl | rfl <;> decide
    obtain ⟨a, rfl, ha⟩ := exists_of_append_suffix hsuffix htext
    obtain ⟨w', hw', ha'⟩ := exists_trimEnd a
    refine ⟨trimEnd a ++ " +0000".toList, closeComment?_append_eq_none ?_ (by decide), ?_⟩
    · refine hcut (t := w' ++ (suffix ++ (w ++ '(' :: (v ++ [')'])))) (by simp) ?_
      rw [hbody, hu, ha, ← List.append_assoc (trimEnd a), ← ha']
      simp
    · rw [hspell, trimEnd_append_open]
      simp

variable {last : Comment}

theorem exists_strict_of_nested (h : Header) (cs : List Comment) (hopen : '(' ∈ last.body) :
    ∃ b, closeComment? 0 b = none ∧ strict (h.text ++ textOfAll (cs ++ [last])) =
      h.text ++ padAfterWhite (textOfAll cs ++ (last.space ++ '(' :: b)) := by
  obtain ⟨b, hb, hspell⟩ := exists_spellZone_dropComment_of_nested (h.text ++ textOfAll cs) hopen
  refine ⟨b, hb, ?_⟩
  rw [strict, Comment.textOfAll_concat, ← List.append_assoc, hspell, List.append_assoc,
    padHour_header_append]

/-- Comments, and then one that is not closed. -/
theorem onlyComments_append_open {b : List Char} (cs : List Comment) (hw : White w)
    (hb : closeComment? 0 b = none) : onlyComments (textOfAll cs ++ (w ++ '(' :: b)) = false := by
  have hnone : comment? (w ++ '(' :: b) = none := by
    rw [← comment?_trimStart, trimStart_append_of_white hw, comment?_trimStart]
    exact hb
  rw [onlyComments_append, onlyComments_of_comment?_eq_none hnone]
  cases w <;> rfl

/-- No timestamp starts with a header. -/
theorem timestamp_header_append (h : Header) (s : List Char) :
    Timestamp.read? (h.text ++ s) = none := by
  have hyear : digits? 4 4 (h.text ++ s) = none := by
    rw [Header.text, List.append_assoc]
    rcases h.date.exists_start _ with hstops | ⟨t, ht⟩
    · exact digits?_eq_none_of_stops (by decide) hstops
    · have hlen := h.date.length_day_le
      rw [ht, digits?_append_of_stops h.date.digits_day
        (h.date.white_beforeMonth.stops_digit h.date.beforeMonth_ne_nil), if_pos]
      rw [List.length_take]
      omega
  rw [Timestamp.read?, hyear]
  rfl

theorem instant?_of_nested (zone : Zone) (h : Header) (cs : List Comment)
    (hopen : '(' ∈ last.body) (hs : trim s = h.text ++ textOfAll (cs ++ [last])) :
    instant? zone s = none := by
  obtain ⟨b, hb, hstrict⟩ := exists_strict_of_nested h cs hopen
  have hletter : Stops isLetter (textOfAll cs ++ (last.space ++ '(' :: b)) := by
    have hspace : Stops isLetter last.space :=
      stops_of_all last.white_space fun _ ↦ isLetter_eq_false_of_isWhite
    exact (stops_letter_textOfAll cs).append (hspace.append (stops_cons.mpr (by decide)))
  have hmail : MailDate.read? (strict (trim s)) = none := by
    rw [hs, hstrict, h.read?_append (stops_padAfterWhite hletter), onlyComments_padAfterWhite,
      onlyComments_append_open cs last.white_space hb, if_neg Bool.false_ne_true]
  have hstamp : Timestamp.read? (trim s) = none := by rw [hs, timestamp_header_append]
  have hzoned : ∀ p ∈ Pattern.zoned, p.read? (strict (trim s)) = none := by
    intro p hp
    have hplain : ∀ p ∈ Pattern.zoned, Piece.literal '(' ∉ p := by decide
    refine Pattern.read?_eq_none_of_open (hplain p hp) ?_
    rw [hs, hstrict]
    exact List.mem_append_right _ (mem_padAfterWhite (by simp))
  have hzoneless : ∀ p ∈ Pattern.zoneless, p.read? (trim s) = none := by
    intro p hp
    have hplain : ∀ p ∈ Pattern.zoneless, Piece.literal '(' ∉ p := by decide
    refine Pattern.read?_eq_none_of_open (hplain p hp) ?_
    rw [hs, Comment.textOfAll_concat, Comment.text]
    simp
  have hnone : (Pattern.zoned.findSome? fun p ↦
      (p.read? (strict (trim s))).bind Reading.instant?) = none :=
    List.findSome?_eq_none_iff.mpr fun p hp ↦ by rw [hzoned p hp]; rfl
  have hnone' : zonelessTime? (trim s) = none :=
    List.findSome?_eq_none_iff.mpr fun p hp ↦ by rw [hzoneless p hp]; rfl
  rw [instant?, zonedInstant?, hmail, hstamp, hnone, hnone']
  rfl

theorem instant?_of_flat (zone : Zone) (h : Header) {cs : List Comment} {i : Instant}
    (hflat : ∀ c ∈ cs.getLast?, '(' ∉ c.body) (hs : trim s = h.text ++ textOfAll cs)
    (hinstant : h.reading.instant? = some i) : instant? zone s = some i := by
  rw [instant?, zonedInstant?, hs, mailDate_strict_of_flat h hflat, Option.bind_some, hinstant]
  rfl

/-! ## Which mail dates are received -/

/-- The text is a mail date, and this is its last comment. -/
def LastComment (s : List Char) (last : Comment) : Prop :=
  ∃ (h : Header) (cs : List Comment), s = h.text ++ textOfAll (cs ++ [last])

/-- **A strict mail date is received as what it says if its last comment has no opening parenthesis
inside, and is not received at all if it has one.** Nesting and escapes in the other comments do no
harm. -/
theorem receivedAt_mailDate (zone : Zone) {value : String} {i : Instant}
    (h : (MailDate.read? (trim value.toList)).bind Reading.instant? = some i) :
    (receivedAt zone value = .ok i ↔
        ∀ last, LastComment (trim value.toList) last → '(' ∉ last.body) ∧
      (receivedAt zone value = .error (.date value) ↔
        ∃ last, LastComment (trim value.toList) last ∧ '(' ∈ last.body) := by
  obtain ⟨r, hread, hinstant⟩ := Option.bind_eq_some_iff.mp h
  obtain ⟨header, cs, htext, rfl⟩ := read?_eq_some_iff.mp hread
  have hnested {last : Comment} (hlast : LastComment (trim value.toList) last)
      (hopen : '(' ∈ last.body) : receivedAt zone value = .error (.date value) := by
    obtain ⟨header', cs', htext'⟩ := hlast
    exact receivedAt_eq_error_iff.mpr ⟨instant?_of_nested zone header' cs' hopen htext', rfl⟩
  have hflat (hall : ∀ last, LastComment (trim value.toList) last → '(' ∉ last.body) :
      receivedAt zone value = .ok i := by
    refine receivedAt_eq_ok_iff.mpr (instant?_of_flat zone header ?_ htext hinstant)
    intro last hlast
    obtain ⟨front, rfl⟩ := List.getLast?_eq_some_iff.mp hlast
    exact hall last ⟨header, front, htext⟩
  constructor
  · refine ⟨fun hok last hlast hopen ↦ ?_, hflat⟩
    rw [hnested hlast hopen] at hok
    cases hok
  · refine ⟨fun herror ↦ ?_, fun ⟨last, hlast, hopen⟩ ↦ hnested hlast hopen⟩
    by_contra hnone
    rw [hflat fun last hlast hopen ↦ hnone ⟨last, hlast, hopen⟩] at herror
    cases herror

/-- Parentheses inside a comment that is not the last, and inside the last one. -/
theorem lastComment_of_nested_remarks :
    (MailDate.read? (trim "Mon, 10 Jun 2024 09:30:00 Z (a (b)) (c)".toList)).bind
        Reading.instant? = some ⟨1718011800, 0⟩ ∧
      (∀ last, LastComment (trim "Mon, 10 Jun 2024 09:30:00 Z (a (b)) (c)".toList) last →
        '(' ∉ last.body) ∧
      (MailDate.read? (trim "Mon, 10 Jun 2024 09:30:00 Z (c) (a (b))".toList)).bind
        Reading.instant? = some ⟨1718011800, 0⟩ ∧
      ∃ last, LastComment (trim "Mon, 10 Jun 2024 09:30:00 Z (c) (a (b))".toList) last ∧
        '(' ∈ last.body := by
  have hflat : (MailDate.read? (trim "Mon, 10 Jun 2024 09:30:00 Z (a (b)) (c)".toList)).bind
      Reading.instant? = some ⟨1718011800, 0⟩ := by decide +kernel
  have hnested : (MailDate.read? (trim "Mon, 10 Jun 2024 09:30:00 Z (c) (a (b))".toList)).bind
      Reading.instant? = some ⟨1718011800, 0⟩ := by decide +kernel
  refine ⟨hflat, (receivedAt_mailDate .utc hflat).1.mp ?_, hnested,
    (receivedAt_mailDate .utc hnested).2.mp ?_⟩
  · exact receivedAt_eq_ok_iff.mpr (by decide +kernel)
  · exact receivedAt_eq_error_iff.mpr ⟨by decide +kernel, rfl⟩

/-- A mail date that is not received. -/
theorem mailDate_not_received :
    ¬∀ (zone : Zone) (value : String) (i : Instant),
      (MailDate.read? (trim value.toList)).bind Reading.instant? = some i →
        receivedAt zone value = .ok i := by
  intro hall
  have hok := hall .utc "Mon, 10 Jun 2024 09:30:00 +0000 (a (b))" ⟨1718011800, 0⟩
    (by decide +kernel)
  have hnone : instant? .utc "Mon, 10 Jun 2024 09:30:00 +0000 (a (b))".toList = none := by
    decide +kernel
  rw [receivedAt_eq_ok_iff, hnone] at hok
  cases hok

end MailRules.Calendar.Received
