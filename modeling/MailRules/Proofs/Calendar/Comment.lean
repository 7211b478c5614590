import MailRules.Calendar.MailDate
import MailRules.Proofs.Text.White

/-!
# Comments at the end of a date

A comment is closed by the parenthesis at which the depth is back at nothing, and by no other. So
closing does not look ahead (`closeComment?_append`), and a comment that is cut short anywhere
before its end is not closed (`closeComment?_eq_none_of_cut`). The reader of comments accepts
exactly the texts that are a list of them, each with white space before it.
-/

namespace MailRules.Calendar.MailDate

open MailRules.Text

variable {d : ℕ} {s t u rest : List Char}

theorem closeComment?_append (t : List Char) (h : closeComment? d s = some rest) :
    closeComment? d (s ++ t) = some (rest ++ t) := by
  fun_induction closeComment? d s with
  | case1 => cases h
  | case2 d c s ih => exact ih h
  | case3 d s ih => exact ih h
  | case4 s => rw [← Option.some.inj h]; rfl
  | case5 s d ih => exact ih h
  | case6 d c s hescape hopen hclose ih =>
    rw [List.cons_append, closeComment?]
    · exact ih h
    · -- A backslash at the very end escapes nothing, and then nothing is closed.
      rintro e v rfl hs
      cases s with
      | nil => cases h
      | cons f s => exact hescape f s rfl rfl
    · exact hopen
    · exact hclose

/-- What closes a comment is a text of its own: nothing after it is looked at. -/
theorem exists_of_closeComment? (h : closeComment? d s = some rest) :
    ∃ u, s = u ++ rest ∧ closeComment? d u = some [] := by
  fun_induction closeComment? d s with
  | case1 => cases h
  | case2 d c s ih =>
    obtain ⟨u, rfl, hu⟩ := ih h
    exact ⟨'\\' :: c :: u, rfl, by rwa [closeComment?]⟩
  | case3 d s ih =>
    obtain ⟨u, rfl, hu⟩ := ih h
    exact ⟨'(' :: u, rfl, by rwa [closeComment?]⟩
  | case4 s =>
    obtain rfl := Option.some.inj h
    exact ⟨[')'], rfl, rfl⟩
  | case5 s d ih =>
    obtain ⟨u, rfl, hu⟩ := ih h
    exact ⟨')' :: u, rfl, by rwa [closeComment?]⟩
  | case6 d c s hescape hopen hclose ih =>
    obtain ⟨u, rfl, hu⟩ := ih h
    refine ⟨c :: u, rfl, ?_⟩
    rw [closeComment?]
    · exact hu
    · rintro e v rfl rfl
      exact hescape e (v ++ rest) rfl rfl
    · exact hopen
    · exact hclose

theorem closeComment?_eq_none_of_cut (h : closeComment? d (s ++ t) = some []) (ht : t ≠ []) :
    closeComment? d s = none := by
  cases hs : closeComment? d s with
  | none => rfl
  | some rest =>
    rw [closeComment?_append t hs] at h
    exact absurd (List.append_eq_nil_iff.mp (Option.some.inj h)).2 ht

/-- A comment ends with the parenthesis that closes it. -/
theorem exists_concat_of_closeComment? (h : closeComment? d s = some []) :
    ∃ u, s = u ++ [')'] := by
  fun_induction closeComment? d s with
  | case1 => cases h
  | case2 d c s ih => exact (ih h).imp' ('\\' :: c :: ·) fun u hu ↦ by rw [hu]; rfl
  | case3 d s ih => exact (ih h).imp' ('(' :: ·) fun u hu ↦ by rw [hu]; rfl
  | case4 s => exact ⟨[], by rw [Option.some.inj h]; rfl⟩
  | case5 s d ih => exact (ih h).imp' (')' :: ·) fun u hu ↦ by rw [hu]; rfl
  | case6 d c s _ _ _ ih => exact (ih h).imp' (c :: ·) fun u hu ↦ by rw [hu]; rfl

/-! ## Lists of comments -/

/-- A comment with the white space before it. -/
structure Comment where
  space : List Char
  /-- What follows the opening parenthesis, with the parenthesis that closes the comment. -/
  body : List Char
  white_space : White space
  closes : closeComment? 0 body = some []

namespace Comment

def text (c : Comment) : List Char := c.space ++ '(' :: c.body

def textOfAll (cs : List Comment) : List Char := cs.flatMap text

@[simp] theorem textOfAll_nil : textOfAll [] = [] := rfl

@[simp] theorem textOfAll_cons (c : Comment) (cs : List Comment) :
    textOfAll (c :: cs) = c.text ++ textOfAll cs := rfl

theorem textOfAll_concat (cs : List Comment) (c : Comment) :
    textOfAll (cs ++ [c]) = textOfAll cs ++ c.text := by simp [textOfAll]

theorem comment?_text_append (c : Comment) (s : List Char) : comment? (c.text ++ s) = some s := by
  have hopen : Stops isWhite ('(' :: (c.body ++ s)) := by
    simpa using (by decide : isWhite '(' = false)
  rw [comment?, text, List.append_assoc, List.cons_append, trimStart_append_of_white c.white_space,
    trimStart_of_stops hopen]
  exact closeComment?_append s c.closes

theorem exists_of_comment? (h : comment? s = some rest) :
    ∃ c : Comment, s = c.text ++ rest := by
  obtain ⟨w, hw, hs⟩ := exists_trimStart s
  rw [comment?] at h
  split at h
  · rename_i after htrim
    obtain ⟨u, rfl, hu⟩ := exists_of_closeComment? h
    refine ⟨⟨w, u, hw, hu⟩, ?_⟩
    rw [hs, htrim, text, List.append_assoc, List.cons_append]
  · cases h

end Comment

open Comment (textOfAll)

theorem onlyComments_of_comment? (h : comment? s = some rest) :
    onlyComments s = onlyComments rest := by
  rw [onlyComments]
  split
  · rename_i hnone
    rw [h] at hnone
    cases hnone
  · rename_i rest' hsome
    rw [h] at hsome
    rw [Option.some.inj hsome]

theorem onlyComments_of_comment?_eq_none (h : comment? s = none) :
    onlyComments s = s.isEmpty := by
  rw [onlyComments]
  split
  · rfl
  · rename_i rest' hsome
    rw [h] at hsome
    cases hsome

/-- Comments that are read first do not decide about the rest. -/
theorem onlyComments_append (cs : List Comment) (s : List Char) :
    onlyComments (textOfAll cs ++ s) = onlyComments s := by
  induction cs with
  | nil => rfl
  | cons c cs ih =>
    rw [Comment.textOfAll_cons, List.append_assoc,
      onlyComments_of_comment? (c.comment?_text_append _), ih]

/-- **The reader of comments accepts exactly lists of comments.** -/
theorem onlyComments_eq_true_iff : onlyComments s = true ↔ ∃ cs, s = textOfAll cs := by
  constructor
  · intro h
    fun_induction onlyComments s with
    | case1 s hnone => exact ⟨[], List.isEmpty_iff.mp h⟩
    | case2 s rest hsome ih =>
      obtain ⟨c, rfl⟩ := Comment.exists_of_comment? hsome
      obtain ⟨cs, rfl⟩ := ih h
      exact ⟨c :: cs, rfl⟩
  · rintro ⟨cs, rfl⟩
    rw [← List.append_nil (textOfAll cs), onlyComments_append,
      onlyComments_of_comment?_eq_none (by rfl)]
    rfl

/-- A list of comments ends with a closing parenthesis, unless it is empty. -/
theorem textOfAll_eq_nil_or_concat (cs : List Comment) :
    textOfAll cs = [] ∨ ∃ u, textOfAll cs = u ++ [')'] := by
  rcases List.eq_nil_or_concat cs with rfl | ⟨cs, c, rfl⟩
  · exact Or.inl rfl
  · obtain ⟨u, hu⟩ := exists_concat_of_closeComment? c.closes
    refine Or.inr ⟨textOfAll cs ++ (c.space ++ '(' :: u), ?_⟩
    rw [List.concat_eq_append, Comment.textOfAll_concat, Comment.text, hu]
    simp

end MailRules.Calendar.MailDate
