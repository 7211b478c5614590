import MailRules.Rule.Condition
import MailRules.Label.Action

/-!
# Mistakes in a rule set

What is wrong with a rule whatever the record: a predicate its field does not have, a target that
is no age, an action nobody knows. Each is reported with its place, rule by rule, the conditions of
a rule before its actions.
-/

namespace MailRules

inductive Issue
  | condition (rule index : Nat) (field : Field) (fault : ConditionFault)
  | action (rule index : Nat) (name : String)
  deriving DecidableEq, Repr

def Issue.text : Issue → String
  | .condition rule i field fault => s!"rule {rule} condition {i} ({field.name}): {fault.message}"
  | .action rule i name => s!"rule {rule} action {i}: {Action.unknownMessage name}"

/-- What is wrong with a condition for every record. -/
def Condition.fault? (c : Condition) : Option ConditionFault :=
  match c.field.kind with
  | .text =>
    match TextPredicate.named? c.predicate with
    | some _ => none
    | none => some (.unknownPredicate c.predicate .text)
  | .date =>
    match DatePredicate.named? c.predicate with
    | none => some (.unknownPredicate c.predicate .date)
    | some _ =>
      match targetAge c.target with
      | .ok _ => none
      | .error fault => some fault

def Rule.issues (rule : Rule) (index : Nat) : List Issue :=
  (rule.conditions.zipIdx.filterMap fun (c, i) ↦
      c.fault?.map (Issue.condition index i c.field)) ++
    rule.actions.zipIdx.filterMap fun (name, i) ↦
      match Action.named? name with
      | some _ => none
      | none => some (Issue.action index i name)

def RuleSet.issues (rules : RuleSet) : List Issue :=
  rules.zipIdx.flatMap fun (rule, index) ↦ rule.issues index

end MailRules
