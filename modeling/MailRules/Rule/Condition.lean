import MailRules.Rule.Basic
import MailRules.Rule.Age
import MailRules.Calendar.Received

/-!
# Conditions

A condition compares a field of a record with its target by a predicate. Which predicates there are
depends on the kind of the field. A text is compared as it stands, code point by code point. A date
is compared with the instant that lies the target's age before now: younger or older, and a date at
that very instant is neither.

A condition can be wrong in four ways, and they are found in a fixed order: the predicate's name,
the target's unit, its amount (also when the instant it leads to is outside the calendar), and last
the date of the record. All but the last are mistakes in the rule, whatever the record.
-/

namespace MailRules

open Calendar (Instant Zone)

/-- When and where a rule is evaluated. -/
structure Moment where
  now : Instant
  zone : Zone
  deriving DecidableEq, Repr

inductive ConditionFault
  | unknownPredicate (predicate : String) (kind : Kind)
  | unit (target : String)
  | amount (target : String)
  | date (received : String)
  deriving DecidableEq, Repr

def ConditionFault.message : ConditionFault → String
  | .unknownPredicate predicate kind =>
    s!"{predicate} - invalid predicate for {kind.name} type field"
  | .unit target => s!"{target} - invalid time unit in predicate value, use 'days' or 'months'"
  | .amount target =>
    s!"{target} - invalid amount in predicate value, expected '<integer> days' or " ++
      "'<integer> months'"
  | .date received => s!"could not parse email date '{received}'"

/-! ## Texts -/

inductive TextPredicate
  | contains | lacks | equals | differs
  deriving DecidableEq, Repr

/-- Whether `target` occurs in `s` as a stretch of successive elements. -/
def occursIn (target s : List Char) : Bool :=
  target.isPrefixOf s || match s with
    | [] => false
    | _ :: rest => occursIn target rest

namespace TextPredicate

def named? : String → Option TextPredicate
  | "contains" => some .contains
  | "does_not_contains" => some .lacks
  | "equals" => some .equals
  | "does_not_equals" => some .differs
  | _ => none

def holds (p : TextPredicate) (value target : String) : Bool :=
  match p with
  | .contains => occursIn target.toList value.toList
  | .lacks => !occursIn target.toList value.toList
  | .equals => value == target
  | .differs => value != target

end TextPredicate

def evaluateText (value predicate target : String) : Except ConditionFault Bool :=
  match TextPredicate.named? predicate with
  | some p => .ok (p.holds value target)
  | none => .error (.unknownPredicate predicate .text)

/-! ## Dates -/

inductive DatePredicate
  | younger | older
  deriving DecidableEq, Repr

namespace DatePredicate

def named? : String → Option DatePredicate
  | "less_than" => some .younger
  | "greater_than" => some .older
  | _ => none

def holds (p : DatePredicate) (received threshold : Instant) : Bool :=
  match p with
  | .younger => threshold.before received
  | .older => received.before threshold

end DatePredicate

/-- The age in seconds that a target means. -/
def targetAge (target : String) : Except ConditionFault Int :=
  match Age.seconds target with
  | .ok seconds => .ok seconds
  | .error .unit => .error (.unit target)
  | .error .amount => .error (.amount target)

def receivedAt (zone : Zone) (received : String) : Except ConditionFault Instant :=
  match Calendar.Received.instant? zone received.toList with
  | some t => .ok t
  | none => .error (.date received)

/-- The instant of which the target's age has passed. -/
def threshold (now : Instant) (target : String) : Except ConditionFault Instant := do
  let age ← targetAge target
  match now.addSeconds? (-age) with
  | some t => pure t
  | none => .error (.amount target)

def evaluateDate (moment : Moment) (value predicate target : String) :
    Except ConditionFault Bool := do
  match DatePredicate.named? predicate with
  | none => .error (.unknownPredicate predicate .date)
  | some p =>
    let threshold ← threshold moment.now target
    let received ← receivedAt moment.zone value
    pure (p.holds received threshold)

/-! ## Conditions and rules -/

def Condition.evaluate (c : Condition) (r : Record) (moment : Moment) :
    Except ConditionFault Bool :=
  match c.field.kind with
  | .text => evaluateText (r.get c.field) c.predicate c.target
  | .date => evaluateDate moment (r.get c.field) c.predicate c.target

/-- Evaluates conditions in turn; none is passed over, whatever the others decide. -/
def evaluateAll (r : Record) (moment : Moment) : List Condition → Except ConditionFault (List Bool)
  | [] => .ok []
  | c :: cs => do
    let holds ← c.evaluate r moment
    let rest ← evaluateAll r moment cs
    pure (holds :: rest)

def Rule.fires (rule : Rule) (r : Record) (moment : Moment) : Except ConditionFault Bool := do
  let results ← evaluateAll r moment rule.conditions
  pure (rule.aggregation.fires (results.count true) results.length)

end MailRules
