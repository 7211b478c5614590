import MailRules.Rule.Condition
import MailRules.Label.Service

/-!
# Sorting records by rules

A run takes records one by one. For each record everything is decided before anything is sent: all
rules are evaluated, then the action names of those that fire are looked up. If either goes wrong
the record is a failure and the run goes on with the next; if a label call goes wrong the run ends,
since nobody knows the labels any more.
-/

namespace MailRules

/-- Why a record is not sorted. -/
inductive RecordFault
  | condition (fault : ConditionFault)
  | action (name : String)
  deriving DecidableEq, Repr

def RecordFault.message : RecordFault → String
  | .condition fault => fault.message
  | .action name => Action.unknownMessage name

structure Failure where
  record : String
  rule : Nat
  fault : RecordFault
  deriving DecidableEq, Repr

structure Report where
  records : Nat := 0
  fired : Nat := 0
  tally : Tally := {}
  failures : List Failure := []
  deriving DecidableEq, Repr

def Report.isClean (r : Report) : Bool := r.failures.isEmpty

/-! ## Planning -/

/-- The rules that fire, each with its place. Stops at the first rule that cannot be evaluated. -/
def RuleSet.firing (r : Record) (moment : Moment) :
    List (Rule × Nat) → Except (Nat × RecordFault) (List (Rule × Nat))
  | [] => .ok []
  | (rule, i) :: rules =>
    match rule.fires r moment with
    | .error fault => .error (i, .condition fault)
    | .ok fires => do
      let rest ← firing r moment rules
      pure (if fires then (rule, i) :: rest else rest)

/-- The actions of rules, one after the other. Stops at the first unknown name. -/
def RuleSet.actionsOf : List (Rule × Nat) → Except (Nat × RecordFault) (List Action)
  | [] => .ok []
  | (rule, i) :: rules =>
    match Action.ofNames rule.actions with
    | .error name => .error (i, .action name)
    | .ok actions => do
      let rest ← actionsOf rules
      pure (actions ++ rest)

/-- What is to be done about a record. -/
structure Plan where
  fired : Nat
  actions : List Action
  deriving DecidableEq, Repr

def RuleSet.plan (rules : RuleSet) (r : Record) (moment : Moment) : Except Failure Plan :=
  let planned : Except (Nat × RecordFault) Plan := do
    let firing ← firing r moment rules.zipIdx
    let actions ← actionsOf firing
    pure ⟨firing.length, actions⟩
  match planned with
  | .ok plan => .ok plan
  | .error (rule, fault) => .error ⟨r.id, rule, fault⟩

/-! ## Running -/

/-- Sorts one record and adds what came of it to the report. -/
def RuleSet.sortOne {σ ε : Type} (rules : RuleSet) (service : LabelService σ ε) (moment : Moment)
    (report : Report) (r : Record) : Step σ ε Report :=
  let report := { report with records := report.records + 1 }
  match rules.plan r moment with
  | .error failure => pure { report with failures := report.failures ++ [failure] }
  | .ok plan => do
    let tally ← service.carryOutAll r.id plan.actions
    pure { report with fired := report.fired + plan.fired, tally := report.tally + tally }

def RuleSet.sort {σ ε : Type} (rules : RuleSet) (service : LabelService σ ε) (moment : Moment)
    (records : List Record) : Step σ ε Report :=
  records.foldlM (rules.sortOne service moment) {}

end MailRules
