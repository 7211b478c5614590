import MailRules.Record

/-!
# Messages of the mailbox service

What the service sends and takes: message stubs of a listing, messages with the headers that were
asked for, requests to change labels. Much of it may be missing; labels and headers that are
missing are none.

A record takes each of its values from the first header of that name, with the name in any case of
ASCII letters, and an empty text where there is none.
-/

namespace MailRules.Mailbox

open Json

structure Stub where
  id : String
  thread : Option String
  deriving DecidableEq, Repr

structure Header where
  name : String
  value : String
  deriving DecidableEq, Repr

structure Part where
  mimeType : Option String
  headers : List Header
  deriving DecidableEq, Repr

structure Message where
  id : String
  thread : Option String
  labels : List String
  snippet : Option String
  internalDate : Option String
  payload : Option Part
  deriving DecidableEq, Repr

/-- One page of a listing. -/
structure Listing where
  messages : List Stub
  nextPage : Option String
  sizeEstimate : Option Nat
  deriving DecidableEq, Repr

/-- Labels to put on a message and to take off it. -/
structure LabelChanges where
  add : List String := []
  remove : List String := []
  deriving DecidableEq, Repr

/-! ## Written forms -/

def Stub.codec : Codec Stub :=
  .record (.cons (.required "id" .text) <| .cons (.optional "threadId" .text) .nil)
    (fun (id, thread, _) ↦ { id, thread })
    (fun s ↦ (s.id, s.thread, ()))

def Header.codec : Codec Header :=
  .record (.cons (.required "name" .text) <| .cons (.required "value" .text) .nil)
    (fun (name, value, _) ↦ { name, value })
    (fun h ↦ (h.name, h.value, ()))

def Part.codec : Codec Part :=
  .record
    (.cons (.optional "mimeType" .text) <| .cons (.defaulted "headers" Header.codec.list []) .nil)
    (fun (mimeType, headers, _) ↦ { mimeType, headers })
    (fun p ↦ (p.mimeType, p.headers, ()))

def Message.codec : Codec Message :=
  .record
    (.cons (.required "id" .text) <| .cons (.optional "threadId" .text) <|
      .cons (.defaulted "labelIds" (.list .text) []) <| .cons (.optional "snippet" .text) <|
      .cons (.optional "internalDate" .text) <| .cons (.optional "payload" Part.codec) .nil)
    (fun (id, thread, labels, snippet, internalDate, payload, _) ↦
      { id, thread, labels, snippet, internalDate, payload })
    (fun m ↦ (m.id, m.thread, m.labels, m.snippet, m.internalDate, m.payload, ()))

def Listing.codec : Codec Listing :=
  .record
    (.cons (.defaulted "messages" Stub.codec.list []) <| .cons (.optional "nextPageToken" .text) <|
      .cons (.optional "resultSizeEstimate" .natural) .nil)
    (fun (messages, nextPage, sizeEstimate, _) ↦ { messages, nextPage, sizeEstimate })
    (fun l ↦ (l.messages, l.nextPage, l.sizeEstimate, ()))

def LabelChanges.codec : Codec LabelChanges :=
  let labels (key : String) : Json.Field (List String) :=
    { Json.Field.defaulted key (.list .text) [] with hidden := List.isEmpty }
  .record (.cons (labels "addLabelIds") <| .cons (labels "removeLabelIds") .nil)
    (fun (add, remove, _) ↦ { add, remove })
    (fun c ↦ (c.add, c.remove, ()))

/-! ## Records of messages -/

/-- Equal up to the case of ASCII letters. -/
def sameName (a b : String) : Bool := a.toList.map Char.toLower == b.toList.map Char.toLower

/-- The value of the first header of a name, or nothing. -/
def Message.header (m : Message) (name : String) : String :=
  match m.payload.bind fun p ↦ p.headers.find? fun h ↦ sameName h.name name with
  | some h => h.value
  | none => ""

def Message.record (m : Message) : Record where
  id := m.id
  sender := m.header "From"
  recipient := m.header "To"
  subject := m.header "Subject"
  received := m.header "Date"

end MailRules.Mailbox
