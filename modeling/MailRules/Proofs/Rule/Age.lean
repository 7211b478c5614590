import Mathlib
import MailRules.Proofs.Rule.Mistake
import MailRules.Proofs.Text.Numeral

/-!
# What may be written for an age

A target is two words with white space between them, the second of them the name of a unit. That is
its outer shape, and it is looked at before the amount: a target of another shape is wrong in its
unit, and one of this shape can only be wrong in its amount. `Age.Shaped` gives the shape as a split
of the text. No target has two of them, because the first word ends where white space begins, so
that the scan of a target finds the one there is (`Age.days_of_shaped`).

The first word is an amount if it spells an integer. Of integers of any size those are refused that
make an age longer than a span of time may be, and nothing else decides: so a number of months and
thirty times as many days are the same age, or both are none (`targetAge_exact`).
-/

namespace MailRules

open Text

namespace Age

variable {target : String} {word unit : List Char} {daysPerUnit amount n : ℤ}

/-! ## The outer shape -/

/-- The name of a unit, and how many days it has. -/
inductive NamesUnit : List Char → ℤ → Prop
  | days : NamesUnit "days".toList 1
  | months : NamesUnit "months".toList 30

theorem unit?_eq_some_iff : unit? unit = some daysPerUnit ↔ NamesUnit unit daysPerUnit := by
  constructor
  · intro h
    rw [unit?] at h
    split_ifs at h with hdays hmonths
    · rw [hdays, ← Option.some.inj h]
      exact .days
    · rw [hmonths, ← Option.some.inj h]
      exact .months
  · intro h
    cases h <;> rfl

theorem NamesUnit.trimmed (h : NamesUnit unit daysPerUnit) : Trimmed unit ∧ unit ≠ [] := by
  cases h <;> exact ⟨⟨stops_cons.mpr (by decide), stops_cons.mpr (by decide)⟩, by decide⟩

/-- The target is a word and the name of a unit of so many days, with white space between them and
perhaps around them. -/
def Shaped (target : String) (word : List Char) (daysPerUnit : ℤ) : Prop :=
  ∃ before gap unit after, target.toList = before ++ (word ++ (gap ++ unit)) ++ after ∧
    White before ∧ White gap ∧ gap ≠ [] ∧ White after ∧
    word ≠ [] ∧ (∀ c ∈ word, isWhite c = false) ∧ NamesUnit unit daysPerUnit

theorem trimmed_words {gap : List Char} (hne : word ≠ []) (hsolid : ∀ c ∈ word, isWhite c = false)
    (hunit : NamesUnit unit daysPerUnit) : Trimmed (word ++ (gap ++ unit)) := by
  obtain ⟨htrimmed, hunit⟩ := hunit.trimmed
  constructor
  · exact (stops_append_of_ne_nil hne).mpr fun c hc ↦ hsolid c (List.mem_of_mem_head? hc)
  · rw [List.reverse_append, List.reverse_append, List.append_assoc]
    exact (stops_append_of_ne_nil (by simpa using hunit)).mpr htrimmed.finish

/-- **The two words of a target are found**, and the first of them is read as the amount. -/
theorem days_of_shaped (h : Shaped target word daysPerUnit) :
    days target =
      match signed64? word with
      | none => .error .amount
      | some amount =>
        if |amount * daysPerUnit| ≤ maxDays then .ok (amount * daysPerUnit)
        else .error .amount := by
  obtain ⟨before, gap, unit, after, htarget, hbefore, hgap, hne, hafter, hword, hsolid, hunit⟩ := h
  have htrim : trim target.toList = word ++ (gap ++ unit) := by
    rw [htarget, trim_of_trimmed hbefore hafter (trimmed_words hword hsolid hunit)]
  have hfirst : (word ++ (gap ++ unit)).takeWhile (fun c ↦ !isWhite c) = word := by
    refine takeWhile_append_of_stops (fun c hc ↦ by simp [hsolid c hc]) ?_
    exact stops_append_of_all hgap hne fun c hc ↦ by simp [hc]
  have hsecond : trimStart (gap ++ unit) = unit := by
    rw [trimStart_append_of_white hgap, trimStart_of_stops hunit.trimmed.1.start]
  have hspan (amount : ℤ) : (-Int.pow 2 63 ≤ amount * daysPerUnit ∧
      amount * daysPerUnit < Int.pow 2 63 ∧ -maxDays ≤ amount * daysPerUnit ∧
        amount * daysPerUnit ≤ maxDays) ↔ |amount * daysPerUnit| ≤ maxDays := by
    have hpow : Int.pow 2 63 = 9223372036854775808 := by decide
    rw [abs_le, hpow, maxDays]
    omega
  simp only [days, htrim, hfirst, List.drop_left, hsecond, unit?_eq_some_iff.mpr hunit]
  cases signed64? word with
  | none => rfl
  | some amount => simp only [hspan]

/-- The scan of a target gives up at the unit only. -/
theorem exists_shaped_of_days_ne (h : days target ≠ .error .unit) :
    ∃ word daysPerUnit, Shaped target word daysPerUnit := by
  obtain ⟨before, after, hbefore, hafter, htarget, htrimmed⟩ := exists_trim target.toList
  obtain ⟨word, rest, hwords, hword, hrest⟩ := exists_scan (fun c ↦ !isWhite c)
    (trim target.toList)
  obtain ⟨gap, hgap, hunit⟩ := exists_trimStart rest
  have hfirst : (word ++ rest).takeWhile (fun c ↦ !isWhite c) = word :=
    takeWhile_append_of_stops hword hrest
  simp only [days, hwords, hfirst, List.drop_left] at h
  cases hknown : unit? (trimStart rest) with
  | none => simp [hknown] at h
  | some daysPerUnit =>
    have hnames := unit?_eq_some_iff.mp hknown
    obtain ⟨hstart, hne⟩ := hnames.trimmed
    obtain ⟨c, unit, hcons⟩ := List.exists_cons_of_ne_nil hne
    have hsolid := hstart.start
    rw [hcons, stops_cons] at hsolid
    refine ⟨word, daysPerUnit, before, gap, trimStart rest, after, ?_, hbefore, hgap, ?_, hafter,
      ?_, fun d hd ↦ by simpa using hword d hd, hnames⟩
    · rw [← hunit, ← hwords]
      exact htarget
    · -- the first word stops at white space, and the second one does not start with any
      rintro rfl
      rw [hunit, List.nil_append, hcons, stops_cons] at hrest
      simp [hsolid] at hrest
    · -- what is trimmed does not start with the white space between the words
      rintro rfl
      rw [List.nil_append] at hwords
      obtain rfl : gap = [] := eq_nil_of_stops_white hgap (hunit ▸ hwords ▸ htrimmed.start)
      rw [hunit, List.nil_append, hcons, stops_cons] at hrest
      simp [hsolid] at hrest

theorem days_eq_unit_iff :
    days target = .error .unit ↔ ¬∃ word daysPerUnit, Shaped target word daysPerUnit := by
  constructor
  · rintro h ⟨word, daysPerUnit, hshaped⟩
    rw [days_of_shaped hshaped] at h
    split at h
    · cases h
    · split at h <;> cases h
  · intro h
    by_contra hne
    exact h (exists_shaped_of_days_ne hne)

/-! ## The amount -/

/-- The target is two words, an amount of 64 bits and the name of a unit of so many days. -/
def Spells (target : String) (amount daysPerUnit : ℤ) : Prop :=
  ∃ before word gap unit after, target.toList = before ++ (word ++ (gap ++ unit)) ++ after ∧
    White before ∧ White gap ∧ gap ≠ [] ∧ White after ∧
    SpellsSigned word amount ∧ unit? unit = some daysPerUnit

theorem spells_iff :
    Spells target amount daysPerUnit ↔
      ∃ word, Shaped target word daysPerUnit ∧ SpellsSigned word amount := by
  constructor
  · rintro ⟨before, word, gap, unit, after, htarget, hbefore, hgap, hne, hafter, hword, hunit⟩
    obtain ⟨hword', hsolid⟩ := (spellsSigned_iff.mp hword).1.not_white
    exact ⟨word, ⟨before, gap, unit, after, htarget, hbefore, hgap, hne, hafter, hword', hsolid,
      unit?_eq_some_iff.mp hunit⟩, hword⟩
  · rintro ⟨word, ⟨before, gap, unit, after, htarget, hbefore, hgap, hne, hafter, -, -, hunit⟩,
      hword⟩
    exact ⟨before, word, gap, unit, after, htarget, hbefore, hgap, hne, hafter, hword,
      unit?_eq_some_iff.mpr hunit⟩

/-- **The age that a target spells**: an exact product, unless no span of time is that long. -/
theorem days_of_spells (h : Spells target amount daysPerUnit) :
    days target = if |amount * daysPerUnit| ≤ maxDays then .ok (amount * daysPerUnit)
      else .error .amount := by
  obtain ⟨word, hshaped, hword⟩ := spells_iff.mp h
  rw [days_of_shaped hshaped, signed64?_eq_some_iff.mpr hword]

theorem days_eq_ok_iff :
    days target = .ok n ↔
      ∃ amount daysPerUnit, Spells target amount daysPerUnit ∧ n = amount * daysPerUnit ∧
        |n| ≤ maxDays := by
  constructor
  · intro h
    have hne : days target ≠ .error .unit := by simp [h]
    obtain ⟨word, daysPerUnit, hshaped⟩ := exists_shaped_of_days_ne hne
    rw [days_of_shaped hshaped] at h
    split at h
    · cases h
    · rename_i amount hamount
      split at h
      · rename_i hspan
        obtain rfl := Except.ok.inj h
        exact ⟨amount, daysPerUnit,
          spells_iff.mpr ⟨word, hshaped, signed64?_eq_some_iff.mp hamount⟩, rfl, hspan⟩
      · cases h
  · rintro ⟨amount, daysPerUnit, hspells, rfl, hspan⟩
    rw [days_of_spells hspells, if_pos hspan]

/-- An amount of any size: what does not fit into 64 bits is too long for a span of time anyway. -/
theorem days_of_spellsInteger (h : Shaped target word daysPerUnit)
    (hword : SpellsInteger word amount) :
    days target = if |amount * daysPerUnit| ≤ maxDays then .ok (amount * daysPerUnit)
      else .error .amount := by
  by_cases hspan : |amount * daysPerUnit| ≤ maxDays
  · have hbits : -2 ^ 63 ≤ amount ∧ amount < 2 ^ 63 := by
      obtain ⟨_, _, unit, _, -, -, -, -, -, -, -, hunit⟩ := h
      rw [abs_le, maxDays] at hspan
      cases hunit <;> omega
    exact days_of_spells (spells_iff.mpr ⟨word, h, spellsSigned_iff.mpr ⟨hword, hbits⟩⟩)
  · rw [days_of_shaped h, if_neg hspan]
    cases hamount : signed64? word with
    | none => rfl
    | some amount' =>
      obtain ⟨hword', -⟩ := spellsSigned_iff.mp (signed64?_eq_some_iff.mp hamount)
      obtain rfl := hword.unique hword'
      exact if_neg hspan

/-- The target means this many days: an amount of 64 bits times the days of its unit, if the product
has 64 bits and a span of time may be that long. -/
def Means (target : String) (days : ℤ) : Prop :=
  ∃ word daysPerUnit amount, Shaped target word daysPerUnit ∧ SpellsSigned word amount ∧
    days = amount * daysPerUnit ∧ -2 ^ 63 ≤ days ∧ days < 2 ^ 63 ∧ |days| ≤ 106751991167

theorem days_eq_ok_iff_means : days target = .ok n ↔ Means target n := by
  rw [days_eq_ok_iff]
  simp only [spells_iff]
  constructor
  · rintro ⟨amount, daysPerUnit, ⟨word, hshaped, hword⟩, rfl, hspan⟩
    have hbits := abs_le.mp hspan
    rw [maxDays] at hbits
    exact ⟨word, daysPerUnit, amount, hshaped, hword, rfl, by omega, by omega, hspan⟩
  · rintro ⟨word, daysPerUnit, amount, hshaped, hword, rfl, -, -, hspan⟩
    exact ⟨amount, daysPerUnit, ⟨word, hshaped, hword⟩, rfl, hspan⟩

theorem days_eq_amount_iff :
    days target = .error .amount ↔
      (∃ word daysPerUnit, Shaped target word daysPerUnit) ∧ ¬∃ n, Means target n := by
  have hshape : days target ≠ .error .unit ↔
      ∃ word daysPerUnit, Shaped target word daysPerUnit := by
    rw [Ne, days_eq_unit_iff, not_not]
  simp only [← hshape, ← days_eq_ok_iff_means]
  rcases days target with (_ | _) | n <;> simp

/-! ## Months and days -/

/-- The target that is an amount in decimal, a blank and a unit. -/
theorem days_of_toString (target : String) (amount : ℤ) (hunit : NamesUnit unit daysPerUnit)
    (htarget : target = toString amount ++ String.ofList (' ' :: unit)) :
    days target = if |amount * daysPerUnit| ≤ maxDays then .ok (amount * daysPerUnit)
      else .error .amount := by
  obtain ⟨hne, hsolid⟩ := (spellsInteger_toString amount).not_white
  have hshaped : Shaped target (toString amount).toList daysPerUnit := by
    refine ⟨[], [' '], unit, [], ?_, white_nil, white_blank, List.cons_ne_nil _ _, white_nil, hne,
      hsolid, hunit⟩
    simp [htarget]
  exact days_of_spellsInteger hshaped (spellsInteger_toString amount)

end Age

/-- **Targets are the texts of their grammar.** A target is an age exactly if it is two words, an
amount and a unit, whose product is short enough; with another outer shape it is wrong in its unit,
and otherwise in its amount. Months and thirty times as many days are one age or none. -/
theorem targetAge_exact (target : String) :
    (∀ seconds, targetAge target = .ok seconds ↔
      ∃ days, Age.Means target days ∧ seconds = 86400 * days) ∧
    (∀ fault, targetAge target = .error fault ↔
      (¬∃ word daysPerUnit, Age.Shaped target word daysPerUnit) ∧ fault = .unit target ∨
        ((∃ word daysPerUnit, Age.Shaped target word daysPerUnit) ∧
          ¬∃ days, Age.Means target days) ∧ fault = .amount target) ∧
    ∀ n : ℤ,
      (∃ seconds, targetAge s!"{n} months" = .ok seconds ∧
        targetAge s!"{30 * n} days" = .ok seconds) ∨
      targetAge s!"{n} months" = .error (.amount s!"{n} months") ∧
        targetAge s!"{30 * n} days" = .error (.amount s!"{30 * n} days") := by
  refine ⟨fun seconds ↦ ?_, fun fault ↦ ?_, fun n ↦ ?_⟩
  · simp only [targetAge_eq_ok_iff, Age.days_eq_ok_iff_means]
  · rw [targetAge_eq_error_iff, Age.days_eq_unit_iff, Age.days_eq_amount_iff]
  · have hmonths := Age.days_of_toString s!"{n} months" n .months rfl
    have hdays := Age.days_of_toString s!"{30 * n} days" (30 * n) .days rfl
    rw [mul_comm n 30] at hmonths
    rw [mul_one] at hdays
    simp only [targetAge_eq_ok_iff, targetAge_eq_error_iff, hmonths, hdays]
    split_ifs
    · exact .inl ⟨86400 * (30 * n), ⟨_, rfl, rfl⟩, _, rfl, rfl⟩
    · exact .inr ⟨.inr ⟨rfl, trivial⟩, .inr ⟨rfl, trivial⟩⟩

end MailRules
