import Mathlib
import MailRules.Text.Utf8

/-!
# Text is read from its bytes

The bytes of a character are decoded as that character, whatever follows them, so that the bytes of
a text are decoded as the text (`Utf8.decode_encoded`). The first byte of a character says how many
there are and keeps the highest bits. It also narrows the second byte, and by that shuts out what is
no character: longer forms than need be, surrogates, and numbers above the last character. The
second byte of a character is never one of those.

No byte is both the first of a character and a later one. So the bytes of a text are found among
those of another one only where its characters are (`Utf8.encoded_infix_iff`).
-/

namespace MailRules.Text.Utf8

/-- The bytes of a text. -/
def encoded (s : List Char) : List UInt8 := s.flatMap String.utf8EncodeChar

variable {b : Nat} {bits used count : Nat} {range : Nat × Nat} {byte : UInt8} {rest : List UInt8}

/-! ## First bytes -/

theorem lead?_of_lt (h : b < 0x80) : lead? b = some (b, (0, 0), 0) := by
  rw [lead?, if_pos h]

theorem lead?_two (low : 0xC2 ≤ b) (high : b < 0xE0) :
    lead? b = some (b % 0x20, (0x80, 0xBF), 1) := by
  rw [lead?, if_neg (by omega), if_neg (by omega), if_pos high]

theorem lead?_three (low : 0xE0 ≤ b) (high : b < 0xF0) (second : Nat) (hlow : 0x80 ≤ second)
    (hhigh : second ≤ 0xBF) (hlong : b = 0xE0 → 0xA0 ≤ second)
    (hsurrogate : b = 0xED → second ≤ 0x9F) :
    ∃ range, lead? b = some (b % 0x10, range, 2) ∧ range.1 ≤ second ∧ second ≤ range.2 := by
  rw [lead?, if_neg (by omega), if_neg (by omega), if_neg (by omega)]
  by_cases h0 : b = 0xE0
  · exact ⟨(0xA0, 0xBF), by rw [if_pos (by simp [h0])], hlong h0, hhigh⟩
  rw [if_neg (by simpa using h0)]
  by_cases hD : b = 0xED
  · exact ⟨(0x80, 0x9F), by rw [if_pos (by simp [hD])], hlow, hsurrogate hD⟩
  rw [if_neg (by simpa using hD)]
  exact ⟨(0x80, 0xBF), by rw [if_pos high], hlow, hhigh⟩

theorem lead?_four (low : 0xF0 ≤ b) (high : b ≤ 0xF4) (second : Nat) (hlow : 0x80 ≤ second)
    (hhigh : second ≤ 0xBF) (hlong : b = 0xF0 → 0x90 ≤ second) (hlast : b = 0xF4 → second ≤ 0x8F) :
    ∃ range, lead? b = some (b % 0x08, range, 3) ∧ range.1 ≤ second ∧ second ≤ range.2 := by
  rw [lead?, if_neg (by omega), if_neg (by omega), if_neg (by omega), if_neg (by simp; omega),
    if_neg (by simp; omega), if_neg (by omega)]
  by_cases h0 : b = 0xF0
  · exact ⟨(0x90, 0xBF), by rw [if_pos (by simp [h0])], hlong h0, hhigh⟩
  rw [if_neg (by simpa using h0)]
  by_cases h4 : b = 0xF4
  · exact ⟨(0x80, 0x8F), by rw [if_neg (by omega), if_pos (by simp [h4])], hlow, hlast h4⟩
  exact ⟨(0x80, 0xBF), by rw [if_pos (by omega)], hlow, hhigh⟩

/-! ## The bytes after it -/

theorem continuation_cons (low : range.1 ≤ byte.toNat) (high : byte.toNat ≤ range.2) :
    continuation bits used range (count + 1) (byte :: rest) =
      continuation (64 * bits + byte.toNat % 64) (used + 1) (0x80, 0xBF) count rest := by
  rw [continuation, if_pos (by simp [low, high])]

/-! ## Characters -/

theorem decode_of_first {c : Char} {tail : List UInt8}
    (h : first byte (tail ++ rest) = (.char c, tail.length)) :
    decode (byte :: (tail ++ rest)) = .char c :: decode rest := by
  rw [decode, h]
  dsimp only
  rw [List.drop_left]

variable {v : Nat}

theorem toNat_ofNat (h : v < 256) : (UInt8.ofNat v).toNat = v := by
  rw [UInt8.toNat_ofNat']
  exact Nat.mod_eq_of_lt h

theorem decode_one (h : v ≤ 0x7F) (rest : List UInt8) :
    decode (UInt8.ofNat v :: ([] ++ rest)) = .char (Char.ofNat v) :: decode rest := by
  refine decode_of_first ?_
  rw [first, toNat_ofNat (by omega), lead?_of_lt (by omega)]
  rfl

theorem decode_two (low : 0x7F < v) (high : v ≤ 0x7FF) (rest : List UInt8) :
    decode (UInt8.ofNat (v / 64 % 32 + 192) :: ([UInt8.ofNat (v % 64 + 128)] ++ rest)) =
      .char (Char.ofNat v) :: decode rest := by
  have hlast : (UInt8.ofNat (v % 64 + 128)).toNat = v % 64 + 128 :=
    toNat_ofNat (by omega)
  have hbits : 64 * ((v / 64 % 32 + 192) % 32) + (v % 64 + 128) % 64 = v := by omega
  refine decode_of_first ?_
  rw [first, toNat_ofNat (by omega), lead?_two (by omega) (by omega)]
  dsimp only
  rw [List.singleton_append, continuation_cons (by dsimp only; omega) (by dsimp only; omega), hlast,
    hbits]
  rfl

theorem decode_three (low : 0x7FF < v) (high : v ≤ 0xFFFF) (valid : v < 0xD800 ∨ 0xDFFF < v)
    (rest : List UInt8) :
    decode (UInt8.ofNat (v / 4096 % 16 + 224) ::
        ([UInt8.ofNat (v / 64 % 64 + 128), UInt8.ofNat (v % 64 + 128)] ++ rest)) =
      .char (Char.ofNat v) :: decode rest := by
  have hsecond : (UInt8.ofNat (v / 64 % 64 + 128)).toNat = v / 64 % 64 + 128 :=
    toNat_ofNat (by omega)
  have hlast : (UInt8.ofNat (v % 64 + 128)).toNat = v % 64 + 128 :=
    toNat_ofNat (by omega)
  obtain ⟨range, hlead, hlow, hhigh⟩ : ∃ range : Nat × Nat,
      lead? (v / 4096 % 16 + 224) = some ((v / 4096 % 16 + 224) % 0x10, range, 2) ∧
        range.1 ≤ v / 64 % 64 + 128 ∧ v / 64 % 64 + 128 ≤ range.2 := by
    apply lead?_three <;> omega
  have hbits : 64 * (64 * ((v / 4096 % 16 + 224) % 16) + (v / 64 % 64 + 128) % 64) +
      (v % 64 + 128) % 64 = v := by omega
  refine decode_of_first ?_
  rw [first, toNat_ofNat (by omega), hlead]
  dsimp only [List.cons_append, List.nil_append]
  rw [continuation_cons (hlow.trans_eq hsecond.symm) (hsecond.trans_le hhigh),
    continuation_cons (by dsimp only; omega) (by dsimp only; omega), hsecond, hlast, hbits]
  rfl

theorem decode_four (low : 0xFFFF < v) (high : v < 0x110000) (rest : List UInt8) :
    decode (UInt8.ofNat (v / 262144 % 8 + 240) ::
        ([UInt8.ofNat (v / 4096 % 64 + 128), UInt8.ofNat (v / 64 % 64 + 128),
          UInt8.ofNat (v % 64 + 128)] ++ rest)) =
      .char (Char.ofNat v) :: decode rest := by
  have hsecond : (UInt8.ofNat (v / 4096 % 64 + 128)).toNat = v / 4096 % 64 + 128 :=
    toNat_ofNat (by omega)
  have hthird : (UInt8.ofNat (v / 64 % 64 + 128)).toNat = v / 64 % 64 + 128 :=
    toNat_ofNat (by omega)
  have hlast : (UInt8.ofNat (v % 64 + 128)).toNat = v % 64 + 128 :=
    toNat_ofNat (by omega)
  obtain ⟨range, hlead, hlow, hhigh⟩ : ∃ range : Nat × Nat,
      lead? (v / 262144 % 8 + 240) = some ((v / 262144 % 8 + 240) % 0x08, range, 3) ∧
        range.1 ≤ v / 4096 % 64 + 128 ∧ v / 4096 % 64 + 128 ≤ range.2 := by
    apply lead?_four <;> omega
  have hbits : 64 * (64 * (64 * ((v / 262144 % 8 + 240) % 8) + (v / 4096 % 64 + 128) % 64) +
      (v / 64 % 64 + 128) % 64) + (v % 64 + 128) % 64 = v := by omega
  refine decode_of_first ?_
  rw [first, toNat_ofNat (by omega), hlead]
  dsimp only [List.cons_append, List.nil_append]
  rw [continuation_cons (hlow.trans_eq hsecond.symm) (hsecond.trans_le hhigh),
    continuation_cons (by dsimp only; omega) (by dsimp only; omega),
    continuation_cons (by dsimp only; omega) (by dsimp only; omega), hsecond, hthird, hlast, hbits]
  rfl

/-- **The bytes of a character are decoded as the character.** -/
theorem decode_char (c : Char) (rest : List UInt8) :
    decode (String.utf8EncodeChar c ++ rest) = .char c :: decode rest := by
  have hvalid : c.toNat < 0xD800 ∨ 0xDFFF < c.toNat ∧ c.toNat < 0x110000 := c.valid
  have hchar : Char.ofNat c.toNat = c := Char.ofNat_toNat c
  rw [String.utf8EncodeChar, show c.val.toNat = c.toNat from rfl]
  by_cases h1 : c.toNat ≤ 0x7F
  · rw [if_pos h1]
    exact (decode_one h1 rest).trans (by rw [hchar])
  rw [if_neg h1]
  by_cases h2 : c.toNat ≤ 0x7FF
  · rw [if_pos h2]
    exact (decode_two (by omega) h2 rest).trans (by rw [hchar])
  rw [if_neg h2]
  by_cases h3 : c.toNat ≤ 0xFFFF
  · rw [if_pos h3]
    exact (decode_three (by omega) h3 (by omega) rest).trans (by rw [hchar])
  rw [if_neg h3]
  exact (decode_four (by omega) (by omega) rest).trans (by rw [hchar])

/-! ## Texts -/

@[simp] theorem encoded_nil : encoded [] = [] := rfl

theorem encoded_cons (c : Char) (s : List Char) :
    encoded (c :: s) = String.utf8EncodeChar c ++ encoded s := List.flatMap_cons

theorem encoded_append (s t : List Char) : encoded (s ++ t) = encoded s ++ encoded t :=
  List.flatMap_append

theorem decode_encoded_append (s : List Char) (rest : List UInt8) :
    decode (encoded s ++ rest) = glyphs s ++ decode rest := by
  induction s with
  | nil => rfl
  | cons c s ih =>
    rw [encoded_cons, List.append_assoc, decode_char, ih]
    rfl

/-- **The bytes of a text are decoded as the text.** -/
theorem decode_encoded (s : List Char) : decode (encoded s) = glyphs s := by
  have hall := decode_encoded_append s []
  rwa [List.append_nil, decode, List.append_nil] at hall

/-! ## Texts inside others -/

theorem encoded_prefix_iff {s t : List Char} : encoded s <+: encoded t ↔ s <+: t := by
  constructor
  · rintro ⟨rest, h⟩
    have hglyphs : glyphs s ++ decode rest = glyphs t := by
      rw [← decode_encoded_append, h, decode_encoded]
    have hprefix : s.map Glyph.char <+: t.map Glyph.char := ⟨decode rest, hglyphs⟩
    exact (List.prefix_map_iff_of_injective fun _ _ ↦ Glyph.char.inj).mp hprefix
  · rintro ⟨rest, rfl⟩
    exact ⟨encoded rest, (encoded_append s rest).symm⟩

/-- Among the bytes of a character only the first one is a first byte. -/
theorem eq_nil_of_isUTF8FirstByte {c : Char} {before after : List UInt8}
    (h : String.utf8EncodeChar c = before ++ byte :: after) (hbyte : byte.IsUTF8FirstByte) :
    before = [] := by
  have hlt : before.length < (String.utf8EncodeChar c).length := by simp [h]
  have hget : (String.utf8EncodeChar c)[before.length] = byte := by simp [h]
  rw [← hget] at hbyte
  exact List.eq_nil_of_length_eq_zero (UInt8.isUTF8FirstByte_getElem_utf8EncodeChar.mp hbyte)

theorem exists_firstByte {s : List Char} (h : s ≠ []) :
    ∃ byte rest, encoded s = byte :: rest ∧ byte.IsUTF8FirstByte := by
  obtain ⟨c, s, rfl⟩ := List.exists_cons_of_ne_nil h
  obtain ⟨byte, more, hchar⟩ := List.exists_cons_of_ne_nil (String.utf8EncodeChar_ne_nil (c := c))
  have hpos : 0 < (String.utf8EncodeChar c).length := by simp [hchar]
  have hget : (String.utf8EncodeChar c)[0] = byte := by simp [hchar]
  refine ⟨byte, more ++ encoded s, by rw [encoded_cons, hchar, List.cons_append], ?_⟩
  rw [← hget]
  exact UInt8.isUTF8FirstByte_getElem_utf8EncodeChar.mpr rfl

/-- Before a first byte a text can be cut in two. -/
theorem exists_encoded_of_isUTF8FirstByte {t : List Char} {before : List UInt8}
    (h : encoded t = before ++ byte :: rest) (hbyte : byte.IsUTF8FirstByte) :
    ∃ u v, t = u ++ v ∧ before = encoded u := by
  induction t generalizing before with
  | nil => simp at h
  | cons c t ih =>
    rw [encoded_cons] at h
    rcases List.append_eq_append_iff.mp h with ⟨more, rfl, hrest⟩ | ⟨more, hchar, hrest⟩
    · obtain ⟨u, v, rfl, rfl⟩ := ih hrest
      exact ⟨c :: u, v, rfl, (encoded_cons c u).symm⟩
    -- the bytes before it end with the first character, or else it is that character's own
    · cases more with
      | nil => exact ⟨[c], t, rfl, by simpa [encoded] using hchar.symm⟩
      | cons byte' more =>
        obtain ⟨rfl, -⟩ := List.cons.inj hrest
        exact ⟨[], c :: t, rfl, eq_nil_of_isUTF8FirstByte hchar hbyte⟩

/-- **No text is found across characters.** The bytes of a text occur among those of another only
where the text itself does. -/
theorem encoded_infix_iff {s t : List Char} : encoded s <:+: encoded t ↔ s <:+: t := by
  constructor
  · rintro ⟨before, after, h⟩
    by_cases hs : s = []
    · rw [hs]
      exact List.nil_infix
    obtain ⟨byte, rest, hbytes, hbyte⟩ := exists_firstByte hs
    have hcut : encoded t = before ++ byte :: (rest ++ after) := by
      rw [← h, hbytes, List.append_assoc, List.cons_append]
    obtain ⟨u, v, rfl, rfl⟩ := exists_encoded_of_isUTF8FirstByte hcut hbyte
    rw [encoded_append, List.append_assoc, List.append_cancel_left_eq] at h
    exact (encoded_prefix_iff.mp ⟨after, h⟩).isInfix.trans (List.suffix_append u v).isInfix
  · rintro ⟨before, after, rfl⟩
    rw [encoded_append, encoded_append]
    exact List.infix_append _ _ _

end MailRules.Text.Utf8
