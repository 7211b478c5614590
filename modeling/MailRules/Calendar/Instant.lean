import MailRules.Calendar.Date

/-!
# Instants

An instant is a count of Unix seconds with nanoseconds. A leap second has no count of its own: it
is the second before it with a billion nanoseconds or more, so that instants compare as pairs and
23:59:60 comes after 23:59:59 and before 00:00:00.

The calendar ends: instants outside the years -262143 to 262142 do not exist, and arithmetic that
leaves this range has no result. That is a fact about every operation here, so each returns an
option.
-/

namespace MailRules.Calendar

structure Instant where
  secs : Int
  nanos : Nat
  deriving DecidableEq, Repr

def firstYear : Int := -262143
def lastYear : Int := 262142

def secondsPerDay : Int := 86400
def nanosPerSecond : Nat := 1000000000

namespace Instant

/-- -262143-01-01T00:00:00 -/
def firstSecond : Int := -8334601228800

/-- 262142-12-31T23:59:59 -/
def lastSecond : Int := 8210266876799

def InRange (secs : Int) : Prop := firstSecond ≤ secs ∧ secs ≤ lastSecond

instance (secs : Int) : Decidable (InRange secs) := by unfold InRange; infer_instance

def of? (secs : Int) (nanos : Nat) : Option Instant :=
  if InRange secs then some ⟨secs, nanos⟩ else none

def isLeapSecond (t : Instant) : Bool := nanosPerSecond ≤ t.nanos

/-- Moves by whole seconds. A leap second counts as the end of its minute when time moves on and as
the start of the next one when time moves back; only a move by nothing stays inside it. -/
def addSeconds? (t : Instant) (seconds : Int) : Option Instant :=
  if t.isLeapSecond && seconds != 0 then
    let secs := if seconds < 0 then t.secs + 1 else t.secs
    of? (secs + seconds) (t.nanos - nanosPerSecond)
  else of? (t.secs + seconds) t.nanos

/-! ## Order -/

/-- The earlier second, or the same second and fewer nanoseconds. -/
def before (a b : Instant) : Bool := a.secs < b.secs || (a.secs == b.secs && a.nanos < b.nanos)

theorem before_irrefl (a : Instant) : before a a = false := by simp [before]

theorem before_asymm {a b : Instant} (h : before a b = true) : before b a = false := by
  simp [before] at h ⊢
  omega

theorem eq_of_not_before {a b : Instant} (h₁ : before a b = false) (h₂ : before b a = false) :
    a = b := by
  obtain ⟨s, n⟩ := a
  obtain ⟨t, m⟩ := b
  simp [before] at h₁ h₂
  have hs : s = t := by omega
  subst hs
  have hn : n = m := by omega
  rw [hn]

end Instant

/-- The range of instants is the range of years. -/
theorem firstSecond_eq :
    Instant.firstSecond = secondsPerDay * (Date.mk firstYear 1 1).dayNumber := by decide

theorem lastSecond_eq :
    Instant.lastSecond + 1 = secondsPerDay * (Date.mk (lastYear + 1) 1 1).dayNumber := by decide

end MailRules.Calendar
