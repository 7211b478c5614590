import MailRules.Json.Codec

/-!
# Message records

A record is what rules can see of a message: its id and four header values, kept as the server sent
them. The date in particular stays text, because only a rule that asks for it needs it to be one.

A field names one of the five values. Addresses have two names, the one that is written and one
that is only read.
-/

namespace MailRules

structure Record where
  id : String
  sender : String
  recipient : String
  subject : String
  received : String
  deriving DecidableEq, Repr

inductive Field
  | id | sender | recipient | subject | received
  deriving DecidableEq, Repr

/-- What a field is compared with: a text, or an age. -/
inductive Kind
  | text | date
  deriving DecidableEq, Repr

def Kind.name : Kind → String
  | .text => "string"
  | .date => "date"

namespace Field

def kind : Field → Kind
  | .received => .date
  | _ => .text

def name : Field → String
  | .id => "id"
  | .sender => "from_email"
  | .recipient => "to_email"
  | .subject => "subject"
  | .received => "date_received"

def named? : String → Option Field
  | "id" => some .id
  | "from_email" | "from_address" => some .sender
  | "to_email" | "to_address" => some .recipient
  | "subject" => some .subject
  | "date_received" => some .received
  | _ => none

@[simp] theorem named?_name (f : Field) : named? f.name = some f := by cases f <;> rfl

def codec : Json.Codec Field := .name named? name

end Field

namespace Record

def get (r : Record) : Field → String
  | .id => r.id
  | .sender => r.sender
  | .recipient => r.recipient
  | .subject => r.subject
  | .received => r.received

/-- Two records with the same values in all fields are one. -/
theorem ext_get {r s : Record} (h : ∀ f, r.get f = s.get f) : r = s := by
  cases r
  cases s
  simpa [get] using ⟨h .id, h .sender, h .recipient, h .subject, h .received⟩

open Json in
def codec : Codec Record :=
  .record
    (.cons (.required "id" .text) <| .cons (.required "from_address" .text) <|
      .cons (.required "to_address" .text) <| .cons (.required "subject" .text) <|
      .cons (.required "date_received" .text) .nil)
    (fun (id, sender, recipient, subject, received, _) ↦
      { id, sender, recipient, subject, received })
    (fun r ↦ (r.id, r.sender, r.recipient, r.subject, r.received, ()))

end Record

end MailRules
