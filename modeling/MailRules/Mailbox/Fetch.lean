import MailRules.Mailbox.Client

/-!
# Fetching records

Messages with a label are listed, and the first few of them are made into records one by one. Each
record is stored before the next message is asked for, so whatever ends a fetch, the records of the
messages before it are kept.
-/

namespace MailRules.Mailbox

/-- A listing that went wrong. -/
structure ListError where
  label : String
  cause : ClientError
  deriving DecidableEq, Repr

def ListError.message (e : ListError) : String :=
  s!"failed to list messages in {e.label}: {e.cause.message}"

def ListError.report (e : ListError) : List String := e.message :: e.cause.report

/-- Why a message is not among the records. -/
inductive FetchError (ε : Type)
  | message (id : String) (cause : ClientError)
  | store (cause : ε)
  deriving DecidableEq, Repr

def FetchError.report {ε : Type} (reportStore : ε → List String) : FetchError ε → List String
  | .message id cause => s!"failed to fetch message {id}: {cause.message}" :: cause.report
  | .store cause =>
    let below := reportStore cause
    let first := below.headD ""
    s!"failed to store message: {first}" :: below

namespace Client

variable {ω ε : Type} (client : Client) (host : Host ω)

/-- The identifiers of the messages with a label, in the order of the listing. -/
def listIds (label : String) : Step (Session ω) ListError (List String) :=
  ExceptT.adapt (fun cause ↦ ⟨label, cause⟩) do
    let listing ← client.listing host label
    pure (listing.messages.map Stub.id)

def fetchOne (put : Record → Step ω ε Unit) (id : String) :
    Step (Session ω) (FetchError ε) Unit := do
  let message ← ExceptT.adapt (.message id) (client.metadata host id)
  ExceptT.adapt .store (Session.outside (put message.record))

/-- Stores the records of messages in order; gives their number. -/
def fetchAll (put : Record → Step ω ε Unit) : List String → Step (Session ω) (FetchError ε) Nat
  | [] => pure 0
  | id :: ids => do
    client.fetchOne host put id
    let more ← fetchAll put ids
    pure (more + 1)

/-- Stores the records of the first `limit` messages. -/
def fetch (put : Record → Step ω ε Unit) (ids : List String) (limit : Nat) :
    Step (Session ω) (FetchError ε) Nat :=
  client.fetchAll host put (ids.take limit)

end Client

end MailRules.Mailbox
