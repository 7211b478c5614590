import MailRules.Step
import MailRules.Label.Action

/-!
# Label services

A label service answers which labels a message has and puts labels on or takes them off. It keeps a
state of its own and may fail at any call; nothing else is assumed of it, so what is proved of code
over a service holds of one that answers at random.

Carrying out an action is one read and at most one write: the label is only written when the answer
just read says that this changes anything.
-/

namespace MailRules

structure LabelService (σ ε : Type) where
  labels : String → Step σ ε (List String)
  add : String → Label → Step σ ε Unit
  remove : String → Label → Step σ ε Unit

/-- How many actions changed a label, and how many found nothing to change. -/
structure Tally where
  mutations : Nat := 0
  skipped : Nat := 0
  deriving DecidableEq, Repr

namespace Tally

instance : Add Tally := ⟨fun a b ↦ ⟨a.mutations + b.mutations, a.skipped + b.skipped⟩⟩

@[simp] theorem mutations_add (a b : Tally) : (a + b).mutations = a.mutations + b.mutations := rfl

@[simp] theorem skipped_add (a b : Tally) : (a + b).skipped = a.skipped + b.skipped := rfl

end Tally

namespace LabelService

variable {σ ε : Type} (service : LabelService σ ε)

/-- Whether the action changes anything on a message with these labels. -/
def changes (a : Action) (labels : List String) : Bool :=
  match a.change with
  | .add => !labels.contains a.label.name
  | .remove => labels.contains a.label.name

def write (id : String) (a : Action) : Step σ ε Unit :=
  match a.change with
  | .add => service.add id a.label
  | .remove => service.remove id a.label

def carryOut (id : String) (a : Action) : Step σ ε Tally := do
  let labels ← service.labels id
  if changes a labels then
    service.write id a
    pure { mutations := 1 }
  else pure { skipped := 1 }

/-- Carries out actions in order. -/
def carryOutAll (id : String) : List Action → Step σ ε Tally
  | [] => pure {}
  | a :: as => do
    let first ← service.carryOut id a
    let rest ← carryOutAll id as
    pure (first + rest)

end LabelService

inductive ActionError (ε : Type)
  | unknown (name : String)
  | remote (error : ε)
  deriving DecidableEq, Repr

/-- Carries out named actions. All names are looked up before anything is sent. -/
def LabelService.carryOutNamed {σ ε : Type} (service : LabelService σ ε) (id : String)
    (names : List String) : Step σ (ActionError ε) Tally :=
  match Action.ofNames names with
  | .error name => throw (.unknown name)
  | .ok actions => ExceptT.adapt .remote (service.carryOutAll id actions)

end MailRules
