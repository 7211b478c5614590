import MailRules.Label.Service

/-!
# A label service in memory

The labels of each message as a list without repetition, in the order in which the messages came
up. The service writes down every call made to it, also those it fails, and fails where its plan
says so: at a given number of calls made before, or at any call for a given message. A frozen
service answers writes and does nothing.
-/

namespace MailRules

inductive LabelCall
  | get (id : String)
  | add (id : String) (label : Label)
  | remove (id : String) (label : Label)
  deriving DecidableEq, Repr

def LabelCall.id : LabelCall → String
  | .get id | .add id _ | .remove id _ => id

/-- The labels of messages. -/
structure LabelMap where
  entries : List (String × List String) := []
  deriving DecidableEq, Repr

namespace LabelMap

def get (m : LabelMap) (id : String) : List String := (m.entries.lookup id).getD []

/-- Puts the labels of a message in place of those it had, or at the end. -/
def put (id : String) (labels : List String) :
    List (String × List String) → List (String × List String)
  | [] => [(id, labels)]
  | e :: es => if e.1 = id then (id, labels) :: es else e :: put id labels es

def ofEntries (entries : List (String × List String)) : LabelMap :=
  ⟨entries.foldl (fun es (id, labels) ↦ put id labels.eraseDups es) []⟩

def add (m : LabelMap) (id label : String) : LabelMap :=
  let labels := m.get id
  if labels.contains label then m else ⟨put id (labels ++ [label]) m.entries⟩

def remove (m : LabelMap) (id label : String) : LabelMap :=
  let labels := m.get id
  if labels.contains label then ⟨put id (labels.filter (· != label)) m.entries⟩ else m

end LabelMap

/-- When the service fails: `fails n call` for a call with `n` calls made before it. -/
structure MemoryPlan where
  fails : Nat → LabelCall → Bool := fun _ _ ↦ false
  frozen : Bool := false

structure Memory where
  labels : LabelMap
  calls : List LabelCall := []
  deriving DecidableEq, Repr

/-- A call for this message failed. -/
structure Unavailable where
  id : String
  deriving DecidableEq, Repr

def Unavailable.message (e : Unavailable) : String :=
  s!"label service error for message {e.id}: unavailable"

namespace Memory

/-- Writes a call down and fails it if the plan says so. -/
def call (plan : MemoryPlan) (c : LabelCall) : Step Memory Unavailable Unit := do
  let m ← get
  set { m with calls := m.calls ++ [c] }
  if plan.fails m.calls.length c then throw ⟨c.id⟩

def service (plan : MemoryPlan) : LabelService Memory Unavailable where
  labels id := do
    call plan (.get id)
    pure ((← get).labels.get id)
  add id label := do
    call plan (.add id label)
    unless plan.frozen do modify fun m ↦ { m with labels := m.labels.add id label.name }
  remove id label := do
    call plan (.remove id label)
    unless plan.frozen do modify fun m ↦ { m with labels := m.labels.remove id label.name }

end Memory

end MailRules
