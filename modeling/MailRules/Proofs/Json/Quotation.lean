import Mathlib
import MailRules.Proofs.Json.Grammar
import MailRules.Proofs.Json.Layout

/-!
# Texts are read by the grammar

The reader of texts against the grammar, in both directions: what the grammar has between quotes is
read up to the quote, whatever follows it, and what is read without trouble is in the grammar.

The reader is two in one. That a text is well formed is a matter of its elements alone
(`exists_quotable_of_text`); its value is what the elements stand for, if they stand for anything
(`exists_text_of_quotable`). The second is where surrogates come in. Characters are gathered one by
one, and the first half of a pair is waited with until the second comes. So what holds along the
elements is said of what is waited with and what is still to come together (`Gathered.Faithful`).
-/

namespace MailRules.Json

open MailRules.Text

/-! ## Glyphs of characters -/

section Glyphs

variable {s u : List Char} {g : Glyph} {rest : List Glyph}

theorem exists_of_glyphs_append (h : glyphs s = glyphs u ++ rest) :
    ∃ t, s = u ++ t ∧ glyphs t = rest := by
  obtain ⟨v, t, rfl, hv, ht⟩ := List.map_eq_append_iff.mp h
  obtain rfl : v = u := List.map_injective_iff.mpr (fun _ _ ↦ Glyph.char.inj) hv
  exact ⟨t, rfl, ht⟩

theorem exists_of_glyphs_cons {c : Char} (h : glyphs s = .char c :: rest) :
    ∃ t, s = c :: t ∧ glyphs t = rest :=
  exists_of_glyphs_append (u := [c]) h

theorem glyphs_ne_stray {n : ℕ} : glyphs s ≠ .stray n :: rest := by
  cases s <;> simp [glyphs]

end Glyphs

/-! ## Units and escapes -/

section Units

variable {c d : Char} {n : ℕ} {s ds : List Char} {rest : List Glyph}

theorem hexDigit?_eq_some_iff : hexDigit? c = some n ↔ Hexadecimal c n := by
  constructor
  · intro h
    have hc : c = Char.ofNat c.toNat := (Char.ofNat_toNat c).symm
    simp only [hexDigit?, Char.le_def, UInt32.le_iff_toNat_le, Bool.and_eq_true,
      decide_eq_true_eq] at h
    change (if 48 ≤ c.toNat ∧ c.toNat ≤ 57 then some (c.toNat - 48)
      else if 97 ≤ c.toNat ∧ c.toNat ≤ 102 then some (c.toNat - 97 + 10)
      else if 65 ≤ c.toNat ∧ c.toNat ≤ 70 then some (c.toNat - 65 + 10) else none) = some n at h
    generalize c.toNat = m at h hc
    subst hc
    split at h
    · obtain rfl := Option.some.inj h
      obtain ⟨hlow, hhigh⟩ : 48 ≤ m ∧ m ≤ 57 := by assumption
      interval_cases m <;> exact ⟨by decide, by decide⟩
    · split at h
      · obtain rfl := Option.some.inj h
        obtain ⟨hlow, hhigh⟩ : 97 ≤ m ∧ m ≤ 102 := by assumption
        interval_cases m <;> exact ⟨by decide, by decide⟩
      · split at h
        · obtain rfl := Option.some.inj h
          obtain ⟨hlow, hhigh⟩ : 65 ≤ m ∧ m ≤ 70 := by assumption
          interval_cases m <;> exact ⟨by decide, by decide⟩
        · cases h
  · rintro ⟨hn, hc⟩
    have hall : ∀ n < 16, hexDigit? (Nat.digitChar n) = some n ∧
        hexDigit? (Nat.digitChar n).toUpper = some n := by decide
    rcases hc with rfl | rfl
    · exact (hall n hn).1
    · exact (hall n hn).2

theorem unescape?_eq_some_iff : unescape? c = some d ↔ (c, d) ∈ escapes := by
  unfold unescape?
  split <;> simp_all [escapes, eq_comm]

theorem WritesUnit.lt (h : WritesUnit ds n) : n < 0x10000 := by
  obtain ⟨⟨ha, -⟩, ⟨hb, -⟩, ⟨hc, -⟩, ⟨hd, -⟩⟩ := h
  omega

theorem hexUnit?_append (h : WritesUnit ds n) (rest : List Glyph) :
    hexUnit? (glyphs ds ++ rest) = some (n, rest) := by
  obtain ⟨ha, hb, hc, hd⟩ := h
  simp [glyphs, hexUnit?, hexDigit?_eq_some_iff.mpr ha, hexDigit?_eq_some_iff.mpr hb,
    hexDigit?_eq_some_iff.mpr hc, hexDigit?_eq_some_iff.mpr hd]

theorem exists_of_hexUnit? (h : hexUnit? (glyphs s) = some (n, rest)) :
    ∃ ds t, s = ds ++ t ∧ WritesUnit ds n ∧ glyphs t = rest := by
  unfold hexUnit? at h
  split at h
  case h_2 => cases h
  case h_1 a b c d u hs =>
    obtain ⟨t, rfl, rfl⟩ := exists_of_glyphs_append (u := [a, b, c, d]) hs
    simp only [Option.bind_eq_bind, Option.bind_eq_some_iff, Option.some.injEq,
      Prod.mk.injEq, hexDigit?_eq_some_iff] at h
    obtain ⟨i, ha, j, hb, k, hc, l, hd, rfl, rfl⟩ := h
    exact ⟨[a, b, c, d], t, rfl, ⟨ha, hb, hc, hd⟩, rfl⟩

end Units

/-! ## Elements -/

section Elements

variable {s t : List Char} {e : Element} {es : List Element} {rest : List Glyph}

theorem element_append (h : WritesElement s e) (rest : List Glyph) :
    element (glyphs s ++ rest) = .ok (e, rest) := by
  cases h with
  | plain self => exact element_char self.1 self.2.1 (not_lt.mpr self.2.2)
  | @escape c d letter =>
    have hletter : unescape? c = some d := unescape?_eq_some_iff.mpr letter
    have hunit : c ≠ 'u' := by
      rintro rfl
      cases hletter
    change element (.char '\\' :: .char c :: rest) = .ok (.char d, rest)
    rw [element.eq_7 _ _ (fun h ↦ hunit h), hletter]
  | @unit ds n digits =>
    change element (.char '\\' :: .char 'u' :: (glyphs ds ++ rest)) = .ok (.unit n, rest)
    rw [element, hexUnit?_append digits]

/-- An element that is read is the closing quote or one that the grammar has. -/
theorem exists_of_element (h : element (glyphs s) = .ok (e, rest)) :
    (e = .close ∧ ∃ t, s = '"' :: t ∧ glyphs t = rest) ∨
      ∃ u t, s = u ++ t ∧ WritesElement u e ∧ glyphs t = rest := by
  unfold element at h
  split at h
  case h_1 | h_4 | h_5 => cases h
  case h_2 hs => exact absurd hs glyphs_ne_stray
  case h_3 hs =>
    obtain ⟨rfl, rfl⟩ := Prod.mk.inj (Except.ok.inj h)
    exact Or.inl ⟨rfl, exists_of_glyphs_cons hs⟩
  case h_6 v hs =>
    obtain ⟨t, rfl, rfl⟩ := exists_of_glyphs_append (u := ['\\', 'u']) hs
    split at h
    · rename_i n _ hunit
      obtain ⟨rfl, rfl⟩ := Prod.mk.inj (Except.ok.inj h)
      obtain ⟨ds, w, rfl, hds, rfl⟩ := exists_of_hexUnit? hunit
      exact Or.inr ⟨'\\' :: 'u' :: ds, w, rfl, .unit hds, rfl⟩
    · cases h
  case h_7 c v _ hs =>
    obtain ⟨t, rfl, rfl⟩ := exists_of_glyphs_append (u := ['\\', c]) hs
    split at h
    · rename_i d hd
      obtain ⟨rfl, rfl⟩ := Prod.mk.inj (Except.ok.inj h)
      exact Or.inr ⟨['\\', c], t, rfl, .escape (unescape?_eq_some_iff.mp hd), rfl⟩
    · cases h
  case h_8 c v hquote hend hstray hunit hescape hs =>
    obtain ⟨t, rfl, rfl⟩ := exists_of_glyphs_cons hs
    split at h
    · cases h
    · rename_i hcontrol
      obtain ⟨rfl, rfl⟩ := Prod.mk.inj (Except.ok.inj h)
      have hbackslash : c ≠ '\\' := by
        cases t with
        | nil => exact hend rfl
        | cons d t => exact hescape d (glyphs t) rfl
      exact Or.inr ⟨[c], t, rfl, .plain ⟨hquote, hbackslash, not_lt.mp hcontrol⟩, rfl⟩

end Elements

/-! ## Texts -/

section Texts

variable {s t : List Char} {es : List Element} {rest : List Glyph}

theorem WritesElement.ne_close {e : Element} (h : WritesElement s e) : e ≠ .close := by
  cases h <;> simp

/-- The characters of elements, gathered one by one. -/
def gathered (g : Except Trouble Gathered) (es : List Element) : Except Trouble Gathered :=
  es.foldl (fun g e ↦ g.bind (·.add e)) g

/-- The text that is gathered when the quote comes. -/
def Gathered.finish (g : Gathered) : Except Trouble String := do
  let g ← g.add .close
  pure (String.ofList g.chars.reverse)

theorem textFrom_append {g : Except Trouble Gathered} (h : WritesElements s es)
    (rest : List Glyph) : textFrom g (glyphs s ++ rest) = textFrom (gathered g es) rest := by
  induction h generalizing g with
  | nil => rfl
  | @cons u t e es first more ih =>
    rw [glyphs_append, List.append_assoc, textFrom_of_element (element_append first _)
      first.ne_close, ih]
    rfl

theorem textFrom_quote (g : Except Trouble Gathered) (rest : List Glyph) :
    textFrom g (.char '"' :: rest) = (⟨g.bind Gathered.finish, .ok ()⟩, rest) := by
  have helement : element (.char '"' :: rest) = .ok (.close, rest) := rfl
  rw [textFrom]
  split
  · simp_all
  · rename_i h
    obtain ⟨-, rfl⟩ := Prod.mk.inj (Except.ok.inj (helement.symm.trans h))
    rfl
  · simp_all

/-- A text that is read without trouble ends at a quote. -/
theorem exists_quotable_of_textFrom {g : Except Trouble Gathered}
    (h : (textFrom g (glyphs s)).1.skipped = .ok ()) :
    ∃ k t, s = k ++ '"' :: t ∧ Quotable k := by
  generalize hx : glyphs s = x at h
  fun_induction textFrom g x generalizing s with
  | case1 => cases h
  | case2 g x rest helement =>
    subst hx
    rcases exists_of_element helement with ⟨-, t, rfl, -⟩ | ⟨u, t, rfl, hu, -⟩
    · exact ⟨[], t, rfl, [], .nil⟩
    · exact absurd rfl hu.ne_close
  | case3 g x e rest hclose helement ih =>
    subst hx
    rcases exists_of_element helement with ⟨rfl, -⟩ | ⟨u, t, rfl, hu, rfl⟩
    · exact absurd rfl hclose
    · obtain ⟨k, v, rfl, es, hk⟩ := ih rfl h
      exact ⟨u ++ k, v, (List.append_assoc _ _ _).symm, e :: es, .cons hu hk⟩

end Texts

/-! ## What elements stand for -/

section StandFor

variable {es : List Element} {cs : List Char} {c : Char} {n high low : ℕ}

theorem standFor_nil_iff : StandFor [] cs ↔ cs = [] :=
  ⟨fun h ↦ by cases h; rfl, fun h ↦ h ▸ .nil⟩

theorem standFor_char_iff :
    StandFor (.char c :: es) cs ↔ ∃ ds, cs = c :: ds ∧ StandFor es ds := by
  constructor
  · intro h
    cases h with
    | char rest => exact ⟨_, rfl, rest⟩
  · rintro ⟨ds, rfl, rest⟩
    exact .char rest

/-- No character is half of a pair. -/
theorem toNat_not_surrogate (c : Char) : c.toNat < 0xD800 ∨ 0xE000 ≤ c.toNat := by
  rcases c.valid with h | h
  · exact Or.inl h
  · exact Or.inr h.1

theorem toNat_ofNat_of_lt (h : n < 0x110000) (hn : n < 0xD800 ∨ 0xE000 ≤ n) :
    (Char.ofNat n).toNat = n := by
  rw [Char.toNat_ofNat, if_pos]
  rcases hn with hn | hn
  · exact Or.inl hn
  · exact Or.inr ⟨hn, h⟩

theorem standFor_unit_iff (h : n < 0x10000) (hn : n < 0xD800 ∨ 0xE000 ≤ n) :
    StandFor (.unit n :: es) cs ↔ ∃ ds, cs = Char.ofNat n :: ds ∧ StandFor es ds := by
  constructor
  · intro h
    cases h with
    | unit rest => exact ⟨_, by rw [Char.ofNat_toNat], rest⟩
    | pair first second both rest => omega
  · rintro ⟨ds, rfl, rest⟩
    have hunit := StandFor.unit (c := Char.ofNat n) rest
    rwa [toNat_ofNat_of_lt (by omega) hn] at hunit

theorem standFor_pair_iff (hhigh : 0xD800 ≤ high ∧ high < 0xDC00)
    (hlow : 0xDC00 ≤ low ∧ low < 0xE000) :
    StandFor (.unit high :: .unit low :: es) cs ↔
      ∃ ds, cs = Char.ofNat (0x10000 + 1024 * (high - 0xD800) + (low - 0xDC00)) :: ds ∧
        StandFor es ds := by
  constructor
  · intro h
    cases h with
    | @unit c _ _ rest => exact absurd (toNat_not_surrogate c) (by omega)
    | pair first second both rest => exact ⟨_, by rw [← both, Char.ofNat_toNat], rest⟩
  · rintro ⟨ds, rfl, rest⟩
    exact .pair hhigh hlow (toNat_ofNat_of_lt (by omega) (by omega)) rest

/-- A second half alone stands for nothing. -/
theorem not_standFor_of_low (hlow : 0xDC00 ≤ low ∧ low < 0xE000) :
    ¬StandFor (.unit low :: es) cs := by
  intro h
  cases h with
  | @unit c _ _ rest => exact absurd (toNat_not_surrogate c) (by omega)
  | pair first second both rest => omega

/-- A first half stands for nothing without the second. -/
theorem not_standFor_of_high (hhigh : 0xD800 ≤ high ∧ high < 0xDC00)
    (hes : ∀ low ds, es = .unit low :: ds → ¬(0xDC00 ≤ low ∧ low < 0xE000)) :
    ¬StandFor (.unit high :: es) cs := by
  intro h
  cases h with
  | @unit c _ _ rest => exact absurd (toNat_not_surrogate c) (by omega)
  | pair first second both rest => exact hes _ _ rfl second

end StandFor

/-! ## The value of a text -/

section Value

variable {s : List Char} {e : Element} {es : List Element} {g : Gathered} {text : String} {n : ℕ}

/-- What the elements of a text come to from here on is this text. -/
def Completes (g : Gathered) (es : List Element) (text : String) : Prop :=
  (gathered (.ok g) es).bind Gathered.finish = .ok text

/-- The first half of a pair that is waited with, as the element it was. -/
def Gathered.pending (g : Gathered) : List Element := (g.high.map Element.unit).toList

/-- A state in the middle of a text: nothing but the first half of a pair is waited with. -/
structure Gathered.Sound (g : Gathered) : Prop where
  stray : g.stray = false
  high : ∀ n, g.high = some n → 0xD800 ≤ n ∧ n < 0xDC00

/-- From here on the elements come to what they stand for, after what is waited with. -/
def Gathered.Faithful (g : Gathered) (es : List Element) : Prop :=
  ∀ text, Completes g es text ↔
    ∃ cs, StandFor (g.pending ++ es) cs ∧ text.toList = g.chars.reverse ++ cs

theorem gathered_error (t : Trouble) (es : List Element) : gathered (.error t) es = .error t := by
  induction es with
  | nil => rfl
  | cons e es ih => exact ih

theorem completes_cons (g : Gathered) (e : Element) (es : List Element) (text : String) :
    Completes g (e :: es) text ↔ ∃ g', g.add e = .ok g' ∧ Completes g' es text := by
  have hstep : gathered (.ok g) (e :: es) = gathered (g.add e) es := rfl
  rw [Completes, hstep]
  cases g.add e with
  | error t => simp [gathered_error, Except.bind]
  | ok g' => simp [Completes]

theorem finish_of_none (h : g.high = none) (hstray : g.stray = false) :
    g.finish = .ok (String.ofList g.chars.reverse) := by
  simp [Gathered.finish, Gathered.add, h, hstray, bind, Except.bind, pure, Except.pure]

theorem finish_of_some (h : g.high = some n) : g.finish = .error .malformed := by
  simp [Gathered.finish, Gathered.add, h, bind, Except.bind]

theorem pending_of_none (h : g.high = none) (es : List Element) : g.pending ++ es = es := by
  simp [Gathered.pending, h]

theorem pending_of_some (h : g.high = some n) (es : List Element) :
    g.pending ++ es = .unit n :: es := by
  simp [Gathered.pending, h]

namespace Gathered

theorem Sound.faithful_nil (hg : g.Sound) : g.Faithful [] := by
  intro text
  change g.finish = .ok text ↔ _
  cases h : g.high with
  | none =>
    rw [finish_of_none h hg.stray, Except.ok.injEq, ← String.toList_inj, String.toList_ofList]
    simp [pending_of_none h, standFor_nil_iff, eq_comm]
  | some high =>
    have hwaits (cs : List Char) : ¬StandFor [.unit high] cs :=
      not_standFor_of_high (hg.high high h) (by simp)
    rw [finish_of_some h]
    simp [pending_of_some h, hwaits]

/-- The element, after what is waited with, stands for a character. -/
theorem faithful_cons_of_ok {c : Char}
    (hadd : g.add e = .ok { g with chars := c :: g.chars, high := none })
    (hstand : ∀ cs, StandFor (g.pending ++ e :: es) cs ↔ ∃ ds, cs = c :: ds ∧ StandFor es ds)
    (ih : Faithful { g with chars := c :: g.chars, high := none } es) : g.Faithful (e :: es) := by
  intro text
  rw [completes_cons]
  simp only [hadd, hstand, Except.ok.injEq, exists_eq_left', ih text]
  simp [pending]

/-- No character is what the element, after what is waited with, stands for. -/
theorem faithful_cons_of_error {t : Trouble} (hadd : g.add e = .error t)
    (hstand : ∀ cs, ¬StandFor (g.pending ++ e :: es) cs) : g.Faithful (e :: es) := by
  intro text
  rw [completes_cons]
  simp [hadd, hstand]

theorem Sound.faithful_char (hg : g.Sound) (c : Char)
    (ih : ∀ g : Gathered, g.Sound → g.Faithful es) : g.Faithful (.char c :: es) := by
  cases h : g.high with
  | none =>
    refine faithful_cons_of_ok (c := c) (by simp [add, h]) (fun cs ↦ ?_) (ih _ ⟨hg.stray, by simp⟩)
    rw [pending_of_none h, standFor_char_iff]
  | some high =>
    refine faithful_cons_of_error (t := .malformed) (by simp [add, h]) fun cs ↦ ?_
    rw [pending_of_some h]
    exact not_standFor_of_high (hg.high high h) (by simp)

/-- A unit is a character, or half of a pair: the first half is waited with, and the second ends
the waiting. -/
theorem Sound.faithful_unit (hg : g.Sound) (hn : n < 0x10000)
    (ih : ∀ g : Gathered, g.Sound → g.Faithful es) : g.Faithful (.unit n :: es) := by
  have hhigh : isHigh n = true ↔ 0xD800 ≤ n ∧ n < 0xDC00 := by simp [isHigh]
  have hlow : isLow n = true ↔ 0xDC00 ≤ n ∧ n < 0xE000 := by simp [isLow]
  cases h : g.high with
  | none =>
    by_cases hfirst : isHigh n = true
    · -- it stays where it was, in what is still to be read
      intro text
      have hadd : g.add (.unit n) = .ok { g with high := some n } := by simp [add, h, hfirst]
      have hwait : Sound { g with high := some n } :=
        ⟨hg.stray, fun m hm ↦ Option.some.inj hm ▸ hhigh.mp hfirst⟩
      rw [completes_cons, pending_of_none h]
      simp only [hadd, Except.ok.injEq, exists_eq_left']
      exact ih _ hwait text
    · by_cases hsecond : isLow n = true
      · refine faithful_cons_of_error (t := .malformed) (by simp [add, h, hfirst, hsecond])
          fun cs ↦ ?_
        rw [pending_of_none h]
        exact not_standFor_of_low (hlow.mp hsecond)
      · refine faithful_cons_of_ok (c := Char.ofNat n) (by simp [add, h, hfirst, hsecond])
          (fun cs ↦ ?_) (ih _ ⟨hg.stray, by simp⟩)
        rw [hhigh] at hfirst
        rw [hlow] at hsecond
        rw [pending_of_none h, standFor_unit_iff hn (by omega)]
  | some high =>
    by_cases hsecond : isLow n = true
    · refine faithful_cons_of_ok (by simp [add, h, hsecond]; rfl)
        (fun cs ↦ ?_) (ih _ ⟨hg.stray, by simp⟩)
      rw [pending_of_some h, standFor_pair_iff (hg.high high h) (hlow.mp hsecond)]
    · refine faithful_cons_of_error (t := .malformed) (by simp [add, h, hsecond]) fun cs ↦ ?_
      rw [pending_of_some h]
      refine not_standFor_of_high (hg.high high h) fun low ds heq ↦ ?_
      obtain ⟨heq, -⟩ := List.cons.inj heq
      obtain rfl := Element.unit.inj heq
      exact mt hlow.mpr hsecond

/-- **Elements come to what they stand for.** -/
theorem Sound.faithful (hg : g.Sound) (h : WritesElements s es) : g.Faithful es := by
  induction h generalizing g with
  | nil => exact hg.faithful_nil
  | cons first rest ih =>
    cases first with
    | plain self => exact hg.faithful_char _ fun _ ↦ ih
    | escape letter => exact hg.faithful_char _ fun _ ↦ ih
    | unit digits => exact hg.faithful_unit digits.lt fun _ ↦ ih

end Gathered

/-- The token is what is read of these quotes: it is well formed, and its value is what they mean,
if they mean anything. -/
structure ShowsText (token : Token String) (s : List Char) : Prop where
  good : token.skipped = .ok ()
  kept_iff : ∀ value, token.kept = .ok value ↔ Means s value

/-- **What may stand between quotes is read up to the quote.** -/
theorem exists_text_of_quotable (h : Quotable s) :
    ∃ token, ShowsText token s ∧
      ∀ rest, Json.text (glyphs s ++ .char '"' :: rest) = (token, rest) := by
  have hread {es : List Element} (hes : WritesElements s es) (rest : List Glyph) :
      Json.text (glyphs s ++ .char '"' :: rest) =
        (⟨(gathered (.ok {}) es).bind Gathered.finish, .ok ()⟩, rest) := by
    rw [Json.text, textFrom_append hes, textFrom_quote]
  have hstart : Gathered.Sound {} := ⟨rfl, by simp⟩
  have hvalue {es : List Element} (hes : WritesElements s es) (value : String) :
      Completes {} es value ↔ StandFor es value.toList := by
    simpa [Gathered.pending] using hstart.faithful hes value
  obtain ⟨es, hes⟩ := h
  refine ⟨⟨(gathered (.ok {}) es).bind Gathered.finish, .ok ()⟩, ⟨rfl, fun value ↦ ?_⟩, hread hes⟩
  constructor
  · intro hkept
    exact ⟨es, hes, (hvalue hes value).mp hkept⟩
  · rintro ⟨es', hes', hstand⟩
    -- the elements of a text are read off it, so that they are the same
    have hsame := (hread hes []).symm.trans (hread hes' [])
    rw [(Prod.mk.inj hsame).1]
    exact (hvalue hes' value).mpr hstand

/-- What is read without trouble is a text up to its quote. -/
theorem exists_quotable_of_text (h : (Json.text (glyphs s)).1.skipped = .ok ()) :
    ∃ k t, s = k ++ '"' :: t ∧ Quotable k :=
  exists_quotable_of_textFrom h

end Value

/-! ## Plain characters -/

section Plain

variable {s : List Char}

theorem writesElements_of_plain (h : ∀ c ∈ s, Plain c) : WritesElements s (s.map .char) := by
  induction s with
  | nil => exact .nil
  | cons c s ih =>
    obtain ⟨hc, hs⟩ := List.forall_mem_cons.mp h
    exact .cons (.plain hc) (ih hs)

theorem standFor_chars (s : List Char) : StandFor (s.map .char) s := by
  induction s with
  | nil => exact .nil
  | cons c s ih => exact .char ih

theorem Means.quotable {text : String} (h : Means s text) : Quotable s := h.imp fun _ ↦ And.left

/-- A text without quotes, backslashes and controls means itself. -/
theorem means_of_plain (h : ∀ c ∈ s, Plain c) : Means s (String.ofList s) :=
  ⟨_, writesElements_of_plain h, by simpa using standFor_chars s⟩

end Plain

end MailRules.Json
