import MailRules.CommandLine.Arguments
import MailRules.Mailbox.Fetch
import MailRules.Mailbox.Sorting
import MailRules.Rule.File
import MailRules.Rule.Issue

/-!
# Running a command

A command goes through its stages in a fixed order and ends at the first that fails: settings,
rules, store, credentials, and only then requests. So a run that cannot get as far as the mailbox
has sent nothing to it, and one that cannot read its rules has not made a store either.

How a run ended is a value; what is printed about it, and the exit status, are computed from that.
Records that could not be sorted do not end a run. They show in its status only.
-/

namespace MailRules.CommandLine

open Mailbox (World Network Session Client Credentials)

/-- Why a run ended. -/
inductive Failure
  | settings (path : String) (error : Settings.LoadError)
  | rules (error : RuleSet.FileError)
  /-- The rules that were to be checked could not be read. -/
  | checkedRules (path : String) (error : RuleSet.FileError)
  | store (error : StoreError)
  | credentials (path : String) (error : Credentials.LoadError)
  | listing (error : Mailbox.ListError)
  | fetching (error : Mailbox.FetchError StoreError)
  | sorting (error : Mailbox.RunError)
  deriving DecidableEq, Repr

/-- What went wrong, and below it what was behind it. -/
def Failure.report : Failure → List String
  | .settings path error => [s!"loading config from {path}", error.message]
  | .rules error => error.report
  | .checkedRules path error => s!"loading rules from {path}" :: error.report
  | .store error => error.report
  | .credentials path error => s!"loading credentials from {path}" :: error.report
  | .listing error => error.report
  | .fetching error => error.report StoreError.report
  | .sorting error => error.report

/-- Whether the calendar was left, which nobody can go on after. -/
def Failure.leavesCalendar : Failure → Bool
  | .listing error => error.cause.leavesCalendar
  | .fetching (.message _ cause) => cause.leavesCalendar
  | .sorting (.labels error) => error.cause.leavesCalendar
  | _ => false

/-! ## Stages -/

section Stages

variable {ν : Type}

/-- A stage that looks at the disk and leaves it as it is. -/
def reading {ε α : Type} (look : Disk → Except ε α) : Step (World ν) ε α :=
  Step.ofRun fun w ↦ (look w.disk, w)

def loadRules (s : Settings) : Step (World ν) Failure RuleSet :=
  ExceptT.adapt .rules (reading fun d ↦ RuleSet.loadFile d s.paths.rules)

/-- Opens the store and makes its table if it has none. -/
def openStore (s : Settings) : Step (World ν) Failure Store :=
  ExceptT.adapt .store <| World.onDisk do
    let store ← Store.opened s.paths.database
    let _ ← store.migrate
    pure store

def loadCredentials (s : Settings) : Step (World ν) Failure Credentials :=
  ExceptT.adapt (.credentials s.paths.credentials)
    (reading fun d ↦ Credentials.load d s.paths.credentials)

def clientOf (s : Settings) (c : Credentials) : Client :=
  { user := s.service.user
    id := c.clientId
    secret := c.clientSecret
    apiBase := s.service.apiBase
    tokenEndpoint := "https://oauth2.googleapis.com/token" }

/-- Runs a step of a client that begins with the tokens of the credentials. -/
def connected {ε α : Type} (c : Credentials) (step : Step (Session (World ν)) ε α) :
    Step (World ν) ε α :=
  Step.ofRun fun w ↦
    let (result, session) := step.run ⟨c.tokens, w⟩
    (result, session.world)

end Stages

/-! ## Commands -/

section Commands

variable {ν : Type} (network : Network ν) (zone : Calendar.Zone)

/-- The mistakes in the rules. -/
def checkRules (s : Settings) : Step (World ν) Failure (List Issue) :=
  ExceptT.adapt (.checkedRules s.paths.rules) do
    let rules ← reading fun d ↦ RuleSet.loadFile d s.paths.rules
    pure rules.issues

/-- Stores records of the messages with a label; gives their number. -/
def fetch (s : Settings) (limit : Option Nat) (label : Option String) :
    Step (World ν) Failure Nat := do
  let store ← openStore s
  let credentials ← loadCredentials s
  let client := clientOf s credentials
  let host := network.hostWithFile s.paths.credentials credentials
  connected credentials do
    let ids ← ExceptT.adapt .listing (client.listIds host (label.getD s.service.label))
    ExceptT.adapt .fetching
      (client.fetch host (fun r ↦ World.onDisk (store.upsert r)) ids (limit.getD s.service.limit))

/-- Sorts the stored records. -/
def process (s : Settings) : Step (World ν) Failure Report := do
  let rules ← loadRules s
  let store ← openStore s
  let credentials ← loadCredentials s
  let client := clientOf s credentials
  let host := network.hostWithFile s.paths.credentials credentials
  connected credentials do
    let now ← Session.outside (Step.lift host.now)
    ExceptT.adapt .sorting (client.sortStored host store rules ⟨now, zone⟩)

/-! ## Outcomes -/

/-- What a command that came to its end has to say. -/
structure Reply where
  success : Bool
  lines : List String := []
  deriving DecidableEq, Repr

def checkReply (path : String) (issues : List Issue) : Reply :=
  if issues.isEmpty then ⟨true, [s!"{path}: ok"]⟩
  else ⟨false, issues.map fun issue ↦ s!"{path}: {issue.text}"⟩

def perform (env : Environment) (call : Invocation) : Step (World ν) Failure Reply := do
  let s ← ExceptT.adapt (.settings call.settings)
    (reading fun d ↦ Settings.load d env call.settings)
  match call.command with
  | .checkRules =>
    let issues ← checkRules s
    pure (checkReply s.paths.rules issues)
  | .fetch limit label =>
    let _ ← fetch network s limit label
    pure ⟨true, []⟩
  | .process =>
    let report ← process network zone s
    pure ⟨report.isClean, []⟩

end Commands

/-! ## Printing -/

/-- What is printed, and the exit status. -/
structure Outcome where
  status : Nat
  output : String := ""
  errors : String := ""
  deriving DecidableEq, Repr

/-- A text with every line after the first moved to the right, after a mark. -/
def indentAfter (mark : List Char) (s : String) : List Char :=
  let below := '\n' :: List.replicate mark.length ' '
  mark ++ s.toList.flatMap fun c ↦ if c = '\n' then below else [c]

/-- The number of a cause among several. -/
def causeMark (i : Nat) : List Char :=
  let ds := Nat.toDigits 10 i
  List.replicate (5 - ds.length) ' ' ++ ds ++ [':', ' ']

/-- The causes below an error, numbered if there are several. -/
def causesText : List String → List Char
  | [] => []
  | [cause] => "\n\nCaused by:\n".toList ++ indentAfter "    ".toList cause
  | causes =>
    "\n\nCaused by:".toList ++
      causes.zipIdx.flatMap fun (cause, i) ↦ '\n' :: indentAfter (causeMark i) cause

def reportText : List String → String
  | [] => ""
  | head :: causes =>
    String.ofList ("Error: ".toList ++ head.toList ++ causesText causes ++ ['\n'])

def usageText : String :=
  "Usage: [--config PATH] check-rules | fetch [-n N] [--label LABEL] | process\n"

def Outcome.ofRefusal : Refusal → Outcome
  | .usage => { status := 2, errors := usageText }
  | .help => { status := 0, output := usageText }

def Outcome.ofReply (r : Reply) : Outcome :=
  { status := if r.success then 0 else 1
    output := String.join (r.lines.map fun line ↦ s!"{line}\n") }

def Outcome.ofFailure (f : Failure) : Outcome :=
  if f.leavesCalendar then { status := 101, errors := "the calendar was left\n" }
  else { status := 1, errors := reportText f.report }

def Outcome.ofResult : Except Failure Reply → Outcome
  | .ok reply => .ofReply reply
  | .error failure => .ofFailure failure

/-- Runs the program once. -/
def run {ν : Type} (network : Network ν) (zone : Calendar.Zone) (env : Environment)
    (words : List String) : StateM (World ν) Outcome := fun w ↦
  match Invocation.parse env words with
  | .error refusal => (.ofRefusal refusal, w)
  | .ok call =>
    let (result, w) := (perform network zone env call).run w
    (.ofResult result, w)

end MailRules.CommandLine
