/-!
# Names outside ASCII

A label of a host name that has characters outside ASCII is written in ASCII: first the ASCII
characters it has, then where and which the others are. Those are taken in the order of their
numbers; each is told as the count of places passed over since the one before, in a mixed radix
whose digit weights adapt to the sizes seen so far.
-/

namespace MailRules.Http.Punycode

/-- The digits from 0 to 35. -/
def digit (d : Nat) : Char := if d < 26 then Char.ofNat (97 + d) else Char.ofNat (22 + d)

/-- The least value that is not a last digit, for the digit at `k` under a bias. -/
def threshold (k bias : Nat) : Nat := max 1 (min 26 (k - bias))

/-- The digits of a number, least first; the one below its threshold is the last. -/
def digits (bias k n : Nat) : List Char :=
  let t := threshold k bias
  if n < t then [digit n]
  else digit (t + (n - t) % (36 - t)) :: digits bias (k + 36) ((n - t) / (36 - t))
termination_by n
decreasing_by
  have lower : 1 ≤ threshold k bias := Nat.le_max_left ..
  calc (n - threshold k bias) / (36 - threshold k bias)
      ≤ n - threshold k bias := Nat.div_le_self ..
    _ < n := by omega

/-- Divides until the value is small; counts the digits this saves. -/
def settle (delta k : Nat) : Nat :=
  if 455 < delta then settle (delta / 35) (k + 36) else k + 36 * delta / (delta + 38)
termination_by delta
decreasing_by exact Nat.div_lt_self (by omega) (by omega)

/-- The bias after a count of `delta`, with `known` characters placed. -/
def bias (delta known : Nat) (first : Bool) : Nat :=
  let delta := if first then delta / 700 else delta / 2
  settle (delta + delta / known) 0

structure Progress where
  written : List Char
  /-- Places passed over since the last character that was told. -/
  passed : Nat
  bias : Nat
  /-- Characters placed so far. -/
  placed : Nat

/-- Passes one character of the label while those of number `n` are told. -/
def step (ascii n : Nat) (p : Progress) (c : Char) : Progress :=
  if c.toNat < n then { p with passed := p.passed + 1 }
  else if c.toNat = n then
    { written := p.written ++ digits p.bias 36 p.passed
      passed := 0
      bias := bias p.passed (p.placed + 1) (p.placed = ascii)
      placed := p.placed + 1 }
  else p

/-- Tells the characters of each number in turn, from `n` on. -/
def tell (label : List Char) (ascii : Nat) : List Nat → Nat → Progress → Progress
  | [], _, p => p
  | m :: more, n, p =>
    let p := { p with passed := p.passed + (m - n) * (p.placed + 1) }
    let p := label.foldl (step ascii m) p
    tell label ascii more (m + 1) { p with passed := p.passed + 1 }

def encode (label : List Char) : List Char :=
  let ascii := label.filter fun c ↦ c.toNat < 128
  let others := ((label.filter fun c ↦ 128 ≤ c.toNat).map Char.toNat).eraseDups.mergeSort
  let start : Progress := ⟨[], 0, 72, ascii.length⟩
  ascii ++ (if ascii.isEmpty then [] else ['-']) ++
    (tell label ascii.length others 128 start).written

end MailRules.Http.Punycode
