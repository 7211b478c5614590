import MailRules.Disk
import MailRules.Rule.Basic

/-!
# Loading rules

A rule document is read and then looked through for empty lists, since a rule without conditions
would fire on everything and one without actions on nothing. The error names the first such rule. A
rules file is text and holds one rule document. Whether it can be read is settled before what it
says.
-/

namespace MailRules.RuleSet

open Json

/-! ## Rule documents -/

inductive LoadError
  | json (trouble : Trouble)
  | noConditions (rule : Nat)
  | noActions (rule : Nat)
  deriving DecidableEq, Repr

def LoadError.message : LoadError → String
  | .json trouble => s!"invalid rule document: {trouble.message}"
  | .noConditions i => s!"rule at index {i} has no conditions"
  | .noActions i => s!"rule at index {i} has no actions"

/-- What the error says, and below it what the error behind it says. -/
def LoadError.report (e : LoadError) : List String :=
  match e with
  | .json trouble => [e.message, trouble.message]
  | _ => [e.message]

/-- The first rule, counted from `i`, that has an empty list; of its two lists the conditions
first. -/
def emptyList? (i : Nat) : RuleSet → Option LoadError
  | [] => none
  | rule :: rules =>
    if rule.conditions.isEmpty then some (.noConditions i)
    else if rule.actions.isEmpty then some (.noActions i)
    else emptyList? (i + 1) rules

theorem emptyList?_eq_none_iff {i : Nat} {rules : RuleSet} :
    emptyList? i rules = none ↔ ∀ rule ∈ rules, rule.conditions ≠ [] ∧ rule.actions ≠ [] := by
  induction rules generalizing i with
  | nil => simp [emptyList?]
  | cons rule rules ih =>
    simp only [emptyList?, List.mem_cons, forall_eq_or_imp, ← ih (i := i + 1)]
    cases rule.conditions <;> cases rule.actions <;> simp

def load (source : String) : Except LoadError RuleSet :=
  match codec.readText source with
  | .error t => .error (.json t)
  | .ok rules =>
    match emptyList? 0 rules with
    | some e => .error e
    | none => .ok rules

/-! ## Rules files -/

inductive FileError
  | unreadable (path : String) (fault : DiskFault)
  | rejected (error : LoadError)
  deriving DecidableEq, Repr

def loadFile (d : Disk) (path : String) : Except FileError RuleSet :=
  match d.read path with
  | .error fault => .error (.unreadable path fault)
  | .ok source =>
    match load source with
    | .error error => .error (.rejected error)
    | .ok rules => .ok rules

def FileError.message : FileError → String
  | .unreadable path fault => s!"failed to read rules from {path}: {fault.message}"
  | .rejected error => error.message

/-- What the error says, and below it what the error behind it says. -/
def FileError.report (e : FileError) : List String :=
  match e with
  | .unreadable _ fault => [e.message, fault.message]
  | .rejected error => error.report

end MailRules.RuleSet
