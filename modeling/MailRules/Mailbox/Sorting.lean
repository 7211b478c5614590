import MailRules.Sorting
import MailRules.Mailbox.Client
import MailRules.Mailbox.World

/-!
# Sorting the mailbox

The mailbox as a label service, and a run over the stored records with that service. A message's
labels are read with a minimal call and changed one at a time. Every error names the message it was
about. The records are read once, before the first of them is sorted.
-/

namespace MailRules.Mailbox

/-! ## Labels of the mailbox -/

/-- A call about a message that went wrong. -/
structure MessageError where
  id : String
  cause : ClientError
  deriving DecidableEq, Repr

def MessageError.message (e : MessageError) : String :=
  s!"gmail request for message {e.id} failed: {e.cause.message}"

/-- What the error says, and below it what the errors behind it say. -/
def MessageError.report (e : MessageError) : List String := e.message :: e.cause.report

namespace Client

variable {ω : Type} (client : Client) (host : Host ω)

def about {α : Type} (id : String) (step : Step (Session ω) ClientError α) :
    Step (Session ω) MessageError α :=
  ExceptT.adapt (fun cause ↦ ⟨id, cause⟩) step

/-- The labels of a message, each once. -/
def labelsOf (id : String) : Step (Session ω) MessageError (List String) := do
  let message ← about id (client.minimal host id)
  pure message.labels.eraseDups

def change (id : String) (changes : LabelChanges) : Step (Session ω) MessageError Unit := do
  let _ ← about id (client.modify host id changes)

def labelService : LabelService (Session ω) MessageError where
  labels := client.labelsOf host
  add id label := client.change host id { add := [label.name] }
  remove id label := client.change host id { remove := [label.name] }

end Client

/-! ## Runs -/

/-- What ends a run. -/
inductive RunError
  | store (cause : StoreError)
  | labels (cause : MessageError)
  deriving DecidableEq, Repr

def RunError.report : RunError → List String
  | .store cause => s!"failed to read records: {cause.message}" :: cause.report
  | .labels cause => s!"run aborted: {cause.message}" :: cause.report

/-- Sorts the stored records at a moment. -/
def Client.sortStored {ν : Type} (client : Client) (host : Host (World ν)) (store : Store)
    (rules : RuleSet) (moment : Moment) : Step (Session (World ν)) RunError Report := do
  let records ← Session.outside (World.onDisk (ExceptT.adapt .store store.records))
  ExceptT.adapt .labels (rules.sort (client.labelService host) moment records)

end MailRules.Mailbox
