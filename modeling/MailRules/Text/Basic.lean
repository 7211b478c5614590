/-!
# White space, and texts in parts

Addresses, targets and dates are trimmed by the Unicode property `White_Space`, which is larger
than the ASCII set and smaller than "anything invisible": the zero-width space is not in it, the
line and paragraph separators are. The property is closed, so it is given here as its list of
ranges and everything else is a statement about `dropWhile`.

Paths and names of hosts are cut at each occurrence of a character. There is always one part more
than there are cuts, so an empty text is one empty part, and joining the parts gives the text back.
-/

namespace MailRules.Text

/-! ## White space -/

/-- The code points of the Unicode property `White_Space`. -/
def isWhite (c : Char) : Bool :=
  let n := c.toNat
  (0x09 ≤ n && n ≤ 0x0D) || n == 0x20 || n == 0x85 || n == 0xA0 || n == 0x1680 ||
    (0x2000 ≤ n && n ≤ 0x200A) || n == 0x2028 || n == 0x2029 || n == 0x202F || n == 0x205F ||
    n == 0x3000

def trimStart (s : List Char) : List Char := s.dropWhile isWhite

def trimEnd (s : List Char) : List Char := (s.reverse.dropWhile isWhite).reverse

def trim (s : List Char) : List Char := trimEnd (trimStart s)

@[simp] theorem trimStart_nil : trimStart [] = [] := rfl

theorem trimStart_cons_of_white {c : Char} {s : List Char} (h : isWhite c = true) :
    trimStart (c :: s) = trimStart s := by simp [trimStart, h]

theorem trimStart_cons_of_not_white {c : Char} {s : List Char} (h : isWhite c = false) :
    trimStart (c :: s) = c :: s := by simp [trimStart, h]

theorem length_trimStart_le (s : List Char) : (trimStart s).length ≤ s.length :=
  (List.dropWhile_sublist isWhite).length_le

/-! ## Parts -/

def splitOn (sep : Char) : List Char → List (List Char)
  | [] => [[]]
  | c :: cs =>
    if c = sep then [] :: splitOn sep cs
    else match splitOn sep cs with
      | [] => [[c]]
      | part :: parts => (c :: part) :: parts

def joinWith (sep : Char) : List (List Char) → List Char
  | [] => []
  | [part] => part
  | part :: parts => part ++ sep :: joinWith sep parts

theorem splitOn_ne_nil (sep : Char) (s : List Char) : splitOn sep s ≠ [] := by
  cases s with
  | nil => simp [splitOn]
  | cons c cs =>
    simp only [splitOn]
    split
    · simp
    · split <;> simp

theorem joinWith_splitOn (sep : Char) (s : List Char) : joinWith sep (splitOn sep s) = s := by
  induction s with
  | nil => rfl
  | cons c cs ih =>
    cases h : splitOn sep cs with
    | nil => exact absurd h (splitOn_ne_nil sep cs)
    | cons part parts =>
      rw [h] at ih
      by_cases hc : c = sep
      · simp [splitOn, h, hc, joinWith, ih]
      · cases parts <;> simp_all [splitOn, joinWith]

end MailRules.Text
