import MailRules.Calendar.MailDate
import MailRules.Proofs.Text.Numeral

/-!
# Pieces of a written date, taken apart

A piece is read off the front of a text, and what it leaves is told by what it took. For each piece
there is an equivalence that takes the text apart, so that a form of dates can be followed through
its pieces in both directions.

Names and offsets look at no character that they do not take. What they take is then best given by
reading it alone: a text `u` with `name? names u = some (n, [])` spells the name `n` and nothing
else, and reads the same before any rest.
-/

namespace MailRules.Calendar

open MailRules.Text

variable {c : Char} {s u w rest : List Char} {n : ℕ}

/-! ## Literals and white space -/

theorem literal?_eq_some_iff : literal? c s = some rest ↔ s = c :: rest := by
  cases s with
  | nil => simp [literal?]
  | cons d s =>
    rw [literal?]
    split
    · rename_i hd
      simp [hd]
    · rename_i hd
      simp [hd]

@[simp] theorem literal?_cons_self (c : Char) (s : List Char) : literal? c (c :: s) = some s :=
  literal?_eq_some_iff.mpr rfl

theorem literal?_eq_none_of_stops {c : Char} (h : Stops (· == c) s) : literal? c s = none := by
  cases s with
  | nil => rfl
  | cons d s =>
    have hd : d ≠ c := by simpa using h
    rw [literal?, if_neg hd]

theorem gap?_append (hw : White w) (hne : w ≠ []) (hs : Stops isWhite s) :
    gap? (w ++ s) = some s := by
  cases w with
  | nil => exact absurd rfl hne
  | cons c w =>
    obtain ⟨hc, hw⟩ := white_cons.mp hw
    rw [List.cons_append, gap?, if_pos hc, trimStart_append_of_white hw, trimStart_of_stops hs]

theorem gap?_eq_some_iff :
    gap? s = some rest ↔ ∃ w, w ≠ [] ∧ White w ∧ s = w ++ rest ∧ Stops isWhite rest := by
  constructor
  · intro h
    cases s with
    | nil => cases h
    | cons c s =>
      rw [gap?] at h
      split at h
      · obtain rfl := Option.some.inj h
        obtain ⟨w, hw, hs⟩ := exists_trimStart s
        refine ⟨c :: w, List.cons_ne_nil c w, white_cons.mpr ⟨‹_›, hw⟩, ?_, stops_trimStart s⟩
        rw [List.cons_append, ← hs]
      · cases h
  · rintro ⟨w, hne, hw, rfl, hrest⟩
    exact gap?_append hw hne hrest

/-! ## Letters and names -/

open MailDate (isLetter)

theorem isLetter_iff :
    isLetter c = true ↔ (97 ≤ c.toNat ∧ c.toNat ≤ 122) ∨ (65 ≤ c.toNat ∧ c.toNat ≤ 90) := by
  simp only [isLetter, Bool.or_eq_true, Bool.and_eq_true, decide_eq_true_eq, Char.le_def,
    UInt32.le_iff_toNat_le]
  exact Iff.rfl

theorem isWhite_eq_false_of_isLetter (h : isLetter c = true) : isWhite c = false := by
  rw [isLetter_iff] at h
  simp only [isWhite, Bool.or_eq_false_iff, Bool.and_eq_false_iff, decide_eq_false_iff_not,
    beq_eq_false_iff_ne]
  omega

theorem isDigit_eq_false_of_isLetter (h : isLetter c = true) : isDigit c = false := by
  rw [isLetter_iff] at h
  rw [← Bool.not_eq_true, isDigit_iff]
  omega

theorem isLetter_eq_false_of_isDigit (h : isDigit c = true) : isLetter c = false := by
  rw [isDigit_iff] at h
  rw [← Bool.not_eq_true, isLetter_iff]
  omega

theorem isLetter_eq_false_of_isWhite (h : isWhite c = true) : isLetter c = false := by
  by_contra hc
  rw [isWhite_eq_false_of_isLetter (by simpa using hc)] at h
  cases h

theorem isLetter_of_isLetter_toLower (h : isLetter c.toLower = true) : isLetter c = true := by
  rw [Char.toLower] at h
  split at h
  · rename_i hupper
    rw [isLetter_iff]
    have hlo : 'A'.toNat ≤ c.toNat := UInt32.le_iff_toNat_le.mp hupper.1
    have hhi : c.toNat ≤ 'Z'.toNat := UInt32.le_iff_toNat_le.mp hupper.2
    exact Or.inr ⟨hlo, hhi⟩
  · exact h

variable {names : List String}

theorem name?_append (h : name? names u = some (n, [])) (rest : List Char) :
    name? names (u ++ rest) = some (n, rest) := by
  match u with
  | [] | [_] | [_, _] => cases h
  | a :: b :: c :: u =>
    rw [name?] at h
    obtain ⟨place, hplace, hn⟩ := Option.bind_eq_some_iff.mp h
    obtain ⟨rfl, rfl⟩ := Prod.mk.inj (Option.some.inj hn)
    simp only [List.cons_append, List.nil_append, name?]
    exact Option.bind_eq_some_iff.mpr ⟨place, hplace, rfl⟩

theorem name?_eq_some_iff :
    name? names s = some (n, rest) ↔ ∃ u, s = u ++ rest ∧ name? names u = some (n, []) := by
  constructor
  · intro h
    match s with
    | [] | [_] | [_, _] => cases h
    | a :: b :: c :: s =>
      rw [name?] at h
      obtain ⟨place, hplace, hn⟩ := Option.bind_eq_some_iff.mp h
      obtain ⟨rfl, rfl⟩ := Prod.mk.inj (Option.some.inj hn)
      exact ⟨[a, b, c], rfl, Option.bind_eq_some_iff.mpr ⟨place, hplace, rfl⟩⟩
  · rintro ⟨u, rfl, h⟩
    exact name?_append h rest

/-- Names that are written in letters are read off letters. -/
theorem isLetter_of_name? (hnames : ∀ name ∈ names, ∀ c ∈ name.toList, isLetter c = true)
    (h : name? names u = some (n, [])) : u ≠ [] ∧ ∀ c ∈ u, isLetter c = true := by
  match u with
  | [] | [_] | [_, _] => cases h
  | a :: b :: c :: u =>
    rw [name?] at h
    obtain ⟨place, hplace, hn⟩ := Option.bind_eq_some_iff.mp h
    obtain ⟨rfl, rfl⟩ := Prod.mk.inj (Option.some.inj hn)
    obtain ⟨hlt, hname, -⟩ := List.findIdx?_eq_some_iff_getElem.mp hplace
    have hlower := hnames _ (List.getElem_mem hlt)
    rw [beq_iff_eq.mp hname] at hlower
    refine ⟨List.cons_ne_nil _ _, fun d hd ↦ isLetter_of_isLetter_toLower (hlower _ ?_)⟩
    have hmem := List.mem_map_of_mem (f := Char.toLower) hd
    exact hmem

theorem name?_eq_none_of_stops (hnames : ∀ name ∈ names, ∀ c ∈ name.toList, isLetter c = true)
    (h : Stops isLetter s) : name? names s = none := by
  rw [Option.eq_none_iff_forall_ne_some]
  rintro ⟨n, rest⟩ hs
  obtain ⟨u, rfl, hu⟩ := name?_eq_some_iff.mp hs
  obtain ⟨hne, hletters⟩ := isLetter_of_name? hnames hu
  rw [stops_append_of_ne_nil hne] at h
  cases u with
  | nil => exact hne rfl
  | cons c u =>
    rw [stops_cons, hletters c List.mem_cons_self] at h
    cases h

theorem weekdayNames_letters : ∀ name ∈ weekdayNames, ∀ c ∈ name.toList, isLetter c = true := by
  simp [weekdayNames, isLetter]

theorem monthNames_letters : ∀ name ∈ monthNames, ∀ c ∈ name.toList, isLetter c = true := by
  simp [monthNames, isLetter]

theorem isLetter_of_weekdayName? (h : name? weekdayNames u = some (n, [])) :
    u ≠ [] ∧ ∀ c ∈ u, isLetter c = true :=
  isLetter_of_name? weekdayNames_letters h

theorem isLetter_of_monthName? (h : name? monthNames u = some (n, [])) :
    u ≠ [] ∧ ∀ c ∈ u, isLetter c = true :=
  isLetter_of_name? monthNames_letters h

theorem weekdayName?_eq_none_of_stops (h : Stops isLetter s) : weekdayName? s = none :=
  name?_eq_none_of_stops weekdayNames_letters h

theorem monthName?_eq_none_of_stops (h : Stops isLetter s) : monthName? s = none := by
  rw [monthName?, name?_eq_none_of_stops monthNames_letters h]
  rfl

theorem monthName?_append (h : name? monthNames u = some (n, [])) (rest : List Char) :
    monthName? (u ++ rest) = some (n + 1, rest) := by
  rw [monthName?, name?_append h]
  rfl

theorem exists_of_monthName? (h : monthName? s = some (n, rest)) :
    ∃ u place, s = u ++ rest ∧ name? monthNames u = some (place, []) ∧ n = place + 1 := by
  obtain ⟨⟨place, _⟩, hname, heq⟩ := Option.map_eq_some_iff.mp h
  obtain ⟨rfl, rfl⟩ := Prod.mk.inj heq
  obtain ⟨u, rfl, hu⟩ := name?_eq_some_iff.mp hname
  exact ⟨u, place, rfl, hu, rfl⟩

/-! ## Offsets -/

/-- An offset of whole minutes, less than a day. -/
structure Offset where
  negative : Bool
  hours : ℕ
  minutes : ℕ
  hours_lt : hours < 24
  minutes_lt : minutes < 60

namespace Offset

def utc : Offset := ⟨false, 0, 0, by decide, by decide⟩

/-- Seconds east of UTC. -/
def seconds (o : Offset) : ℤ :=
  (if o.negative then -1 else 1) * (3600 * o.hours + 60 * o.minutes : ℕ)

def sign (o : Offset) : Char := if o.negative then '-' else '+'

/-- The sign, two digits of hours and two digits of minutes with some text between them. -/
def text (o : Offset) (between : List Char) : List Char :=
  o.sign :: (padded 2 o.hours ++ (between ++ padded 2 o.minutes))

theorem natAbs_seconds_lt (o : Offset) : o.seconds.natAbs < 86400 := by
  have hhours := o.hours_lt
  have hminutes := o.minutes_lt
  rw [seconds]
  split <;> omega

theorem length_hours (o : Offset) : (padded 2 o.hours).length = 2 :=
  length_padded_of_lt (by decide) (o.hours_lt.trans (by decide))

theorem length_minutes (o : Offset) : (padded 2 o.minutes).length = 2 :=
  length_padded_of_lt (by decide) (o.minutes_lt.trans (by decide))

theorem sign_eq (o : Offset) : o.sign = '-' ∨ o.sign = '+' := by
  rw [sign]
  cases o.negative <;> simp

/-- What is neither sign is not the sign. -/
theorem sign_eq_false {p : Char → Bool} (o : Offset) (hplus : p '+' = false)
    (hminus : p '-' = false) : p o.sign = false := by
  rcases o.sign_eq with h | h <;> rw [h] <;> assumption

theorem stops_text {p : Char → Bool} (o : Offset) (hplus : p '+' = false) (hminus : p '-' = false)
    (between : List Char) : Stops p (o.text between) :=
  stops_cons.mpr (o.sign_eq_false hplus hminus)

theorem trimStart_text (o : Offset) (between : List Char) :
    trimStart (o.text between) = o.text between := trimStart_of_stops (o.stops_text rfl rfl between)

/-- A text that ends in an offset ends in its minutes. -/
theorem exists_append_text (u : List Char) (o : Offset) (between : List Char) :
    ∃ v, u ++ o.text between = v ++ padded 2 o.minutes :=
  ⟨u ++ o.sign :: (padded 2 o.hours ++ between), by simp [text]⟩

theorem stops_white_reverse (u : List Char) (o : Offset) (between : List Char) :
    Stops isWhite (u ++ o.text between).reverse := by
  obtain ⟨v, hv⟩ := exists_append_text u o between
  obtain ⟨ds, c, hds, hc⟩ := (digits_padded 2 o.minutes).exists_concat (padded_ne_nil 2 o.minutes)
  rw [hv, hds, ← List.append_assoc, List.reverse_concat, stops_cons]
  exact isWhite_eq_false_of_isDigit hc

end Offset

namespace OffsetForm

/-- The reader of an offset that has to start with its sign. -/
def signed? (form : OffsetForm) (s : List Char) : Option (ℤ × List Char) := do
  let (sign, s) ← form.sign? s
  let (hours, s) ← digits? 2 2 s
  let s ← form.between.skip? s
  let (minutes, s) ← digits? 2 2 s
  if minutes < 60 then some (sign * (3600 * hours + 60 * minutes : ℕ), s) else none

theorem read?_eq_signed? {form : OffsetForm}
    (h : form.zulu = true → ∀ rest, s ≠ 'Z' :: rest ∧ s ≠ 'z' :: rest) :
    form.read? s = form.signed? s := by
  rw [read?, signed?]
  · intro rest hzulu hs
    exact (h hzulu rest).1 hs
  · intro rest hzulu hs
    exact (h hzulu rest).2 hs

theorem read?_cases {form : OffsetForm} {v : ℤ} (h : form.read? s = some (v, rest)) :
    s = 'Z' :: rest ∨ s = 'z' :: rest ∨ form.signed? s = some (v, rest) := by
  rw [read?.eq_def] at h
  split at h
  · obtain ⟨-, rfl⟩ := Prod.mk.inj (Option.some.inj h)
    exact Or.inl rfl
  · obtain ⟨-, rfl⟩ := Prod.mk.inj (Option.some.inj h)
    exact Or.inr (Or.inl rfl)
  · exact Or.inr (Or.inr h)

theorem sign?_eq_some {form : OffsetForm} {v : ℤ} (h : form.sign? s = some (v, rest)) :
    ∃ c, s = c :: rest ∧ (c = '+' ∨ c = '-' ∨ form.minusSign = true ∧ c = '\u2212') ∧
      ∀ t, form.sign? (c :: t) = some (v, t) := by
  rw [sign?.eq_def] at h
  split at h
  · obtain ⟨rfl, rfl⟩ := Prod.mk.inj (Option.some.inj h)
    exact ⟨_, rfl, Or.inl rfl, fun _ ↦ rfl⟩
  · obtain ⟨rfl, rfl⟩ := Prod.mk.inj (Option.some.inj h)
    exact ⟨_, rfl, Or.inr (Or.inl rfl), fun _ ↦ rfl⟩
  · split at h
    · rename_i hminus
      obtain ⟨rfl, rfl⟩ := Prod.mk.inj (Option.some.inj h)
      exact ⟨_, rfl, Or.inr (Or.inr ⟨hminus, rfl⟩), fun _ ↦ if_pos hminus⟩
    · cases h
  · cases h

variable {form : OffsetForm} {v sign : ℤ} {hours minutes middle : List Char}

/-- An offset is a sign, two digits, what the form lets stand between, and two digits. -/
theorem signed?_append (hsign : ∀ t, form.sign? (c :: t) = some (sign, t))
    (hhours : Digits hours) (hlen : hours.length = 2)
    (hskip : form.between.skip? middle = some (minutes ++ rest))
    (hminutes : Digits minutes) (hlen' : minutes.length = 2) (hlt : decimal minutes < 60) :
    form.signed? (c :: (hours ++ middle)) =
      some (sign * (3600 * decimal hours + 60 * decimal minutes : ℕ), rest) := by
  simp only [signed?, hsign, Option.bind_eq_bind, Option.bind_some]
  rw [digits?_append hhours hlen.ge hlen.le (Or.inl hlen)]
  simp only [Option.bind_some, hskip]
  rw [digits?_append hminutes hlen'.ge hlen'.le (Or.inl hlen')]
  simp only [Option.bind_some, if_pos hlt]

theorem signed?_eq_some (h : form.signed? s = some (v, rest)) :
    ∃ c sign hours middle minutes, s = c :: (hours ++ middle) ∧
      (c = '+' ∨ c = '-' ∨ form.minusSign = true ∧ c = '\u2212') ∧
      (∀ t, form.sign? (c :: t) = some (sign, t)) ∧ Digits hours ∧ hours.length = 2 ∧
      form.between.skip? middle = some (minutes ++ rest) ∧
      Digits minutes ∧ minutes.length = 2 ∧ decimal minutes < 60 ∧
      v = sign * (3600 * decimal hours + 60 * decimal minutes : ℕ) := by
  simp only [signed?, Option.bind_eq_bind, Option.bind_eq_some_iff, Prod.exists] at h
  obtain ⟨sign, s₁, hsign, _, s₂, hhours, s₃, hskip, _, s₄, hminutes, hrest⟩ := h
  obtain ⟨c, rfl, hc, hany⟩ := sign?_eq_some hsign
  obtain ⟨hours, rfl, hds, hlo, hhi, -, rfl⟩ := digits?_eq_some_iff.mp hhours
  obtain ⟨minutes, rfl, hds', hlo', hhi', -, rfl⟩ := digits?_eq_some_iff.mp hminutes
  split at hrest
  · obtain ⟨rfl, rfl⟩ := Prod.mk.inj (Option.some.inj hrest)
    exact ⟨c, sign, hours, s₂, minutes, rfl, hc, hany, hds, le_antisymm hhi hlo, hskip, hds',
      le_antisymm hhi' hlo', ‹_›, rfl⟩
  · cases hrest

/-- An offset is a whole number of minutes. -/
theorem read?_mod (h : form.read? s = some (v, rest)) : v % 60 = 0 := by
  rw [read?.eq_def] at h
  split at h
  · exact (Prod.mk.inj (Option.some.inj h)).1 ▸ rfl
  · exact (Prod.mk.inj (Option.some.inj h)).1 ▸ rfl
  · obtain ⟨-, sign, hours, -, minutes, -, -, -, -, -, -, -, -, -, rfl⟩ := signed?_eq_some h
    have hdvd : (60 : ℤ) ∣ (3600 * decimal hours + 60 * decimal minutes : ℕ) := by omega
    exact Int.emod_eq_zero_of_dvd (hdvd.mul_left sign)

/-- A written offset is read, by every form that passes over what is between its two numbers. -/
theorem read?_text (form : OffsetForm) (o : Offset) (between rest : List Char)
    (hskip : form.between.skip? (between ++ (padded 2 o.minutes ++ rest)) =
      some (padded 2 o.minutes ++ rest)) :
    form.read? (o.text between ++ rest) = some (o.seconds, rest) := by
  have hsign (t : List Char) :
      form.sign? (o.sign :: t) = some (if o.negative then -1 else 1, t) := by
    rw [Offset.sign]
    cases o.negative <;> rfl
  -- A sign is not the letter that stands for UTC.
  rw [read?_eq_signed? fun _ rest' ↦ by rcases o.sign_eq with h | h <;> simp [Offset.text, h],
    Offset.text, List.cons_append, List.append_assoc, List.append_assoc,
    signed?_append hsign (digits_padded 2 o.hours) o.length_hours hskip
      (digits_padded 2 o.minutes) o.length_minutes (by simpa using o.minutes_lt)]
  simp [Offset.seconds]

end OffsetForm

end MailRules.Calendar
