import MailRules.Step

/-!
# Migrations

A migration is a named change of some content that may fail halfway. A ledger beside the content
lists the names of the migrations that were made. A change and its line in the ledger are made
together or not at all: a change that fails leaves content and ledger as they were.

The pending migrations are chosen before the first of them is made, by what the ledger says then.
-/

namespace MailRules

/-- A content with the names of the migrations made on it. -/
structure Ledgered (δ : Type) where
  applied : List String := []
  content : δ
  deriving DecidableEq, Repr

structure Migration (δ ε : Type) where
  version : String
  change : Step δ ε Unit

inductive MigrationFault (ε : Type)
  /-- The ledger has a line of that name already. -/
  | recordedTwice (version : String)
  | failed (error : ε)
  deriving DecidableEq, Repr

namespace Migration

variable {δ ε : Type}

/-- The state after the change and its line in the ledger. -/
def make? (m : Migration δ ε) (s : Ledgered δ) : Except (MigrationFault ε) (Ledgered δ) :=
  match m.change.run s.content with
  | (.error e, _) => .error (.failed e)
  | (.ok (), content) =>
    if m.version ∈ s.applied then .error (.recordedTwice m.version)
    else .ok ⟨s.applied ++ [m.version], content⟩

/-- Makes migrations in order up to the first that fails; gives their number. -/
def makeAll : List (Migration δ ε) → Step (Ledgered δ) (MigrationFault ε) Nat
  | [] => pure 0
  | m :: ms => do
    match m.make? (← get) with
    | .error fault => throw fault
    | .ok s =>
      set s
      let more ← makeAll ms
      pure (more + 1)

/-- Makes those migrations of a list that the ledger does not have. -/
def run (ms : List (Migration δ ε)) : Step (Ledgered δ) (MigrationFault ε) Nat := do
  let s ← get
  makeAll (ms.filter fun m ↦ m.version ∉ s.applied)

end Migration

end MailRules
