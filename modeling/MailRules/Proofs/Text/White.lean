import Mathlib
import MailRules.Text.Basic

/-!
# Where a scan stops

A scanner takes characters as long as they are of some kind. What it does with a text `u ++ s` is
known as soon as `u` is of that kind and `s` does not go on with it, which is what `Stops p s` says.
The end of a text stops every scan.

Trimming is scanning for white space from both ends, so that its lemmas are those of a scan and
their mirror images.
-/

namespace MailRules.Text

variable {p q : Char → Bool} {c d : Char} {u s t : List Char}

/-- The text does not start with a character of this kind. -/
def Stops (p : Char → Bool) (s : List Char) : Prop := ∀ c ∈ s.head?, p c = false

@[simp] theorem stops_nil : Stops p [] := by simp [Stops]

@[simp] theorem stops_cons : Stops p (c :: s) ↔ p c = false := by simp [Stops]

theorem stops_append_of_ne_nil (h : u ≠ []) : Stops p (u ++ s) ↔ Stops p u := by
  cases u with
  | nil => exact absurd rfl h
  | cons c u => simp

theorem Stops.append (hu : Stops p u) (hs : Stops p s) : Stops p (u ++ s) := by
  cases u with
  | nil => exact hs
  | cons c u => simpa using hu

/-- What one scan takes stops another one, if no character is of both kinds. -/
theorem stops_of_all (hu : ∀ c ∈ u, q c = true) (h : ∀ c, q c = true → p c = false) : Stops p u :=
  fun c hc ↦ h c (hu c (List.mem_of_mem_head? hc))

theorem stops_append_of_all (hu : ∀ c ∈ u, q c = true) (hne : u ≠ [])
    (h : ∀ c, q c = true → p c = false) : Stops p (u ++ s) :=
  (stops_append_of_ne_nil hne).mpr (stops_of_all hu h)

/-- A character of a kind is none that is not of it. -/
theorem beq_eq_false_of (hc : p c = true) (hd : p d = false) : (c == d) = false :=
  beq_eq_false_iff_ne.mpr fun h ↦ by
    rw [h, hd] at hc
    cases hc

theorem stops_dropWhile (p : Char → Bool) (s : List Char) : Stops p (s.dropWhile p) := by
  intro c hc
  have h := List.head?_dropWhile_not p s
  rw [hc] at h
  exact h

theorem dropWhile_of_stops (h : Stops p s) : s.dropWhile p = s := by
  cases s with
  | nil => rfl
  | cons c s => simp [stops_cons.mp h]

theorem takeWhile_of_stops (h : Stops p s) : s.takeWhile p = [] := by
  cases s with
  | nil => rfl
  | cons c s => simp [stops_cons.mp h]

theorem dropWhile_append_of_stops (hu : ∀ c ∈ u, p c = true) (hs : Stops p s) :
    (u ++ s).dropWhile p = s := by
  rw [List.dropWhile_append_of_pos hu, dropWhile_of_stops hs]

theorem takeWhile_append_of_stops (hu : ∀ c ∈ u, p c = true) (hs : Stops p s) :
    (u ++ s).takeWhile p = u := by
  rw [List.takeWhile_append_of_pos hu, takeWhile_of_stops hs, List.append_nil]

/-- Every text is what a scan takes and what it leaves. -/
theorem exists_scan (p : Char → Bool) (s : List Char) :
    ∃ u t, s = u ++ t ∧ (∀ c ∈ u, p c = true) ∧ Stops p t :=
  ⟨s.takeWhile p, s.dropWhile p, List.takeWhile_append_dropWhile.symm,
    fun _ hc ↦ List.mem_takeWhile_imp hc, stops_dropWhile p s⟩

/-- What a scan leaves does not depend on what follows, if it leaves anything at all. -/
theorem dropWhile_append_of_ne_nil (h : s.dropWhile p ≠ []) :
    (s ++ t).dropWhile p = s.dropWhile p ++ t := by
  rw [List.dropWhile_append, if_neg (by simpa using h)]

/-! ## White space -/

/-- Nothing but white space. -/
def White (s : List Char) : Prop := ∀ c ∈ s, isWhite c = true

@[simp] theorem white_nil : White [] := by simp [White]

@[simp] theorem white_cons : White (c :: s) ↔ isWhite c = true ∧ White s := by simp [White]

@[simp] theorem white_append : White (s ++ t) ↔ White s ∧ White t := List.forall_mem_append

@[simp] theorem white_reverse : White s.reverse ↔ White s := by simp [White]

@[simp] theorem white_blank : White [' '] := by simpa using (by decide : isWhite ' ' = true)

theorem eq_nil_of_stops_white (hu : White u) (h : Stops isWhite (u ++ s)) : u = [] := by
  cases u with
  | nil => rfl
  | cons c u =>
    rw [List.cons_append, stops_cons, (white_cons.mp hu).1] at h
    cases h

theorem trimStart_append_of_white (hu : White u) : trimStart (u ++ s) = trimStart s :=
  List.dropWhile_append_of_pos hu

theorem trimStart_of_stops (h : Stops isWhite s) : trimStart s = s := dropWhile_of_stops h

theorem stops_trimStart (s : List Char) : Stops isWhite (trimStart s) := stops_dropWhile isWhite s

theorem trimStart_eq_nil_iff : trimStart s = [] ↔ White s := List.dropWhile_eq_nil_iff

theorem exists_trimStart (s : List Char) : ∃ u, White u ∧ s = u ++ trimStart s :=
  ⟨s.takeWhile isWhite, fun _ hc ↦ List.mem_takeWhile_imp hc,
    List.takeWhile_append_dropWhile.symm⟩

theorem trimStart_append_of_not_white (h : ¬White s) : trimStart (s ++ t) = trimStart s ++ t :=
  dropWhile_append_of_ne_nil (mt trimStart_eq_nil_iff.mp h)

/-! ## Trimming at the end -/

theorem trimEnd_eq (s : List Char) : trimEnd s = (trimStart s.reverse).reverse := rfl

theorem trimEnd_append_of_white (ht : White t) : trimEnd (s ++ t) = trimEnd s := by
  rw [trimEnd_eq, List.reverse_append, trimStart_append_of_white (white_reverse.mpr ht), trimEnd_eq]

theorem trimEnd_of_stops (h : Stops isWhite s.reverse) : trimEnd s = s := by
  rw [trimEnd_eq, trimStart_of_stops h, List.reverse_reverse]

theorem stops_reverse_trimEnd (s : List Char) : Stops isWhite (trimEnd s).reverse := by
  rw [trimEnd_eq, List.reverse_reverse]
  exact stops_trimStart s.reverse

theorem exists_trimEnd (s : List Char) : ∃ u, White u ∧ s = trimEnd s ++ u := by
  obtain ⟨u, hu, hs⟩ := exists_trimStart s.reverse
  refine ⟨u.reverse, white_reverse.mpr hu, ?_⟩
  rw [trimEnd_eq, ← List.reverse_append, ← hs, List.reverse_reverse]

/-- The text neither starts nor ends with white space. -/
structure Trimmed (s : List Char) : Prop where
  start : Stops isWhite s
  finish : Stops isWhite s.reverse

theorem trim_of_trimmed (hu : White u) (ht : White t) (hs : Trimmed s) :
    trim (u ++ s ++ t) = s := by
  rw [List.append_assoc, trim, trimStart_append_of_white hu]
  rcases eq_or_ne s [] with rfl | hne
  · rw [List.nil_append, trimStart_eq_nil_iff.mpr ht]
    rfl
  · rw [trimStart_of_stops ((stops_append_of_ne_nil hne).mpr hs.start),
      trimEnd_append_of_white ht, trimEnd_of_stops hs.finish]

theorem exists_trim (s : List Char) :
    ∃ u t, White u ∧ White t ∧ s = u ++ trim s ++ t ∧ Trimmed (trim s) := by
  obtain ⟨u, hu, hs⟩ := exists_trimStart s
  obtain ⟨t, ht, hs'⟩ := exists_trimEnd (trimStart s)
  have htrim : trimEnd (trimStart s) = trim s := rfl
  rw [htrim] at hs'
  refine ⟨u, t, hu, ht, ?_, ?_, stops_reverse_trimEnd _⟩
  · rw [List.append_assoc, ← hs', ← hs]
  · rcases eq_or_ne (trim s) [] with hnil | hne
    · rw [hnil]
      exact stops_nil
    · rw [← stops_append_of_ne_nil hne, ← hs']
      exact stops_trimStart s

end MailRules.Text
