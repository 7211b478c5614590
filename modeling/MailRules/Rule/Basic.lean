import MailRules.Record

/-!
# Rules

A rule joins conditions by `all` or `any` and lists the names of the actions to take when it fires.
Predicates, targets and action names are texts here, right or wrong: a rule set with a mistake in
it can be loaded, looked through and shown, and the mistake belongs to the one condition or action
that holds it.
-/

namespace MailRules

inductive Aggregation
  | all | any
  deriving DecidableEq, Repr

structure Condition where
  field : Field
  predicate : String
  target : String
  deriving DecidableEq, Repr

structure Rule where
  aggregation : Aggregation
  conditions : List Condition
  actions : List String
  deriving DecidableEq, Repr

abbrev RuleSet := List Rule

namespace Aggregation

def name : Aggregation → String
  | .all => "All"
  | .any => "Any"

def named? : String → Option Aggregation
  | "All" | "all" | "ALL" => some .all
  | "Any" | "any" | "ANY" => some .any
  | _ => none

@[simp] theorem named?_name (a : Aggregation) : named? a.name = some a := by cases a <;> rfl

/-- Whether a rule fires when this many of its conditions hold. -/
def fires (a : Aggregation) (holding total : Nat) : Bool :=
  match a with
  | .all => holding == total
  | .any => 0 < holding

def codec : Json.Codec Aggregation := .name named? name

end Aggregation

open Json

def Condition.codec : Codec Condition :=
  .record
    (.cons (.required "field" Field.codec) <| .cons (.required "predicate" .text) <|
      .cons (.required "value" .text) .nil)
    (fun (field, predicate, target, _) ↦ { field, predicate, target })
    (fun c ↦ (c.field, c.predicate, c.target, ()))

def Rule.codec : Codec Rule :=
  .record
    (.cons (.required "predicate" Aggregation.codec) <|
      .cons (.required "conditions" Condition.codec.list) <|
      .cons (.required "actions" (.list .text)) .nil)
    (fun (aggregation, conditions, actions, _) ↦ { aggregation, conditions, actions })
    (fun r ↦ (r.aggregation, r.conditions, r.actions, ()))

namespace RuleSet

def codec : Codec RuleSet := Rule.codec.list

/-- The text of a rule set. -/
def source (rules : RuleSet) : String := (codec.write rules).compactText

end RuleSet

end MailRules
