import MailRules.Step
import MailRules.Http.Message
import MailRules.Mailbox.Message
import MailRules.Mailbox.Token

/-!
# The client of the mailbox service

A client holds tokens and calls the service with the access token. A token that is about to expire
is refreshed before a call; one that the service turns down is refreshed once, and the same request
is sent again with the new one. Whatever the second answer is, there is no third.

A refresh exchanges the refresh token for new tokens, saves them, and only then lets the client
hold them. So what the client holds was saved, if it is not what it began with, and a refresh that
fails anywhere leaves the tokens as they were.

Clock, network and the place where tokens are saved belong to a host with a state of its own, of
which nothing is assumed.
-/

namespace MailRules.Mailbox

open Http (Request Response)
open Calendar (Instant)
open Json (Codec Trouble)

/-! ## Surroundings -/

structure Host (ω : Type) where
  now : StateM ω Instant
  /-- Sends a request; none if that is not possible. -/
  send : Request → StateM ω (Option Response)
  /-- Keeps tokens for later; gives the reason if it cannot. -/
  save : Tokens → StateM ω (Except String Unit)

/-- A client's tokens and the state of its host. -/
structure Session (ω : Type) where
  tokens : Tokens
  world : ω
  deriving DecidableEq, Repr

/-- A step of the host. -/
def Session.outside {ω ε α : Type} (step : Step ω ε α) : Step (Session ω) ε α :=
  step.zoom Session.world fun w s ↦ { s with world := w }

/-! ## Errors -/

/-- Why there are no new tokens. -/
inductive ExchangeError
  | noRefreshToken
  | notSent
  | undecodable (trouble : Trouble)
  | refused (status : Nat) (body : String)
  | lifetime (seconds : Int)
  /-- The tokens would expire after the end of the calendar. -/
  | beyondCalendar
  deriving DecidableEq, Repr

def ExchangeError.message : ExchangeError → String
  | .noRefreshToken => "missing refresh token"
  | .notSent => "http error: the request could not be sent"
  | .undecodable trouble => s!"token response decode error: {trouble.message}"
  | .refused status body => s!"token endpoint error {status}: {body}"
  | .lifetime seconds => s!"invalid expires_in value: {seconds}"
  | .beyondCalendar => "the tokens expire after the end of the calendar"

/-- What the error says, and below it what the error behind it says. -/
def ExchangeError.report (e : ExchangeError) : List String :=
  match e with
  | .undecodable trouble => [e.message, trouble.message]
  | _ => [e.message]

/-- Why a call has no result. -/
inductive ClientError
  | notSent
  | status (code : Nat)
  | exchange (error : ExchangeError)
  | unsaved (reason : String)
  | undecodable (trouble : Trouble)
  | unauthorized
  /-- The time at which a token has to be refreshed is after the end of the calendar. -/
  | beyondCalendar
  deriving DecidableEq, Repr

def ClientError.message : ClientError → String
  | .notSent => "http error: the request could not be sent"
  | .status code => s!"http error: the server answered with status {code}"
  | .exchange error => s!"oauth error: {error.message}"
  | .unsaved reason => s!"token persistence error: {reason}"
  | .undecodable trouble => s!"decode error: {trouble.message}"
  | .unauthorized => "unauthorized after refresh"
  | .beyondCalendar => "the calendar ends before the token has to be refreshed"

/-- What the error says, and below it what the errors behind it say. -/
def ClientError.report (e : ClientError) : List String :=
  match e with
  | .exchange error => e.message :: error.report
  | .undecodable trouble => [e.message, trouble.message]
  | _ => [e.message]

/-- Whether the calendar was left, which nobody can go on after. -/
def ClientError.leavesCalendar : ClientError → Bool
  | .beyondCalendar | .exchange .beyondCalendar => true
  | _ => false

/-! ## Refreshing -/

structure Client where
  user : String
  id : String
  secret : String
  apiBase : String
  tokenEndpoint : String
  deriving DecidableEq, Repr

/-- What the token endpoint grants. -/
structure Grant where
  access : String
  /-- Seconds from now. -/
  lifetime : Int
  /-- A new refresh token, if the old one is to be replaced. -/
  refresh : Option String
  deriving DecidableEq, Repr

def Grant.codec : Codec Grant :=
  let refresh : Json.Field (Option String) :=
    { Json.Field.optional "refresh_token" .text with beyond := some none }
  .record
    (.cons (.required "access_token" .text) <| .cons (.required "expires_in" .integer) <|
      .cons refresh .nil)
    (fun (access, lifetime, refresh, _) ↦ { access, lifetime, refresh })
    (fun g ↦ (g.access, g.lifetime, g.refresh, ()))

namespace Client

variable {ω : Type} (client : Client) (host : Host ω)

def exchangeRequest? (refresh : String) : Option Request :=
  Request.postForm? client.tokenEndpoint
    [("grant_type", "refresh_token"), ("client_id", client.id), ("client_secret", client.secret),
      ("refresh_token", refresh)]

/-- What an answer of the token endpoint grants. -/
def granted (response : Response) : Except ExchangeError Grant :=
  if !response.isSuccess then .error (.refused response.status response.text)
  else match Grant.codec.readText response.text with
    | .error trouble => .error (.undecodable trouble)
    | .ok grant => if grant.lifetime ≤ 0 then .error (.lifetime grant.lifetime) else .ok grant

/-- The tokens after a grant made now. A refresh token that is not replaced is kept. -/
def renewed (tokens : Tokens) (grant : Grant) (now : Instant) : Except ExchangeError Tokens :=
  match now.addSeconds? grant.lifetime with
  | none => .error .beyondCalendar
  | some expires =>
    .ok { access := grant.access, refresh := grant.refresh.getD tokens.refresh, expires }

/-- Asks the token endpoint for new tokens. -/
def exchange (tokens : Tokens) : Step ω ExchangeError Tokens := do
  if tokens.refresh.isEmpty then throw .noRefreshToken
  match client.exchangeRequest? tokens.refresh with
  | none => throw .notSent
  | some request =>
    match ← Step.lift (host.send request) with
    | none => throw .notSent
    | some response =>
      let grant ← liftExcept (granted response)
      let now ← Step.lift host.now
      liftExcept (renewed tokens grant now)

/-- Exchanges the refresh token, saves what comes of it, and holds it. -/
def refresh : Step (Session ω) ClientError Tokens := do
  let session ← get
  let fresh ← Session.outside (ExceptT.adapt .exchange (client.exchange host session.tokens))
  match ← Session.outside (Step.lift (host.save fresh)) with
  | .error reason => throw (.unsaved reason)
  | .ok () =>
    modify fun s ↦ { s with tokens := fresh }
    pure fresh

/-- The access token for the next request, refreshed first if it is about to expire. -/
def accessToken : Step (Session ω) ClientError String := do
  let session ← get
  let now ← Session.outside (Step.lift host.now)
  match session.tokens.needRefresh? now with
  | none => throw .beyondCalendar
  | some false => pure session.tokens.access
  | some true =>
    let fresh ← client.refresh host
    pure fresh.access

/-! ## Calling -/

def attempt (request : Option Request) : Step (Session ω) ClientError Response := do
  match request with
  | none => throw .notSent
  | some request =>
    match ← Session.outside (Step.lift (host.send request)) with
    | none => throw .notSent
    | some response => pure response

/-- Sends a request, and once more with a new token if the service turns the token down. -/
def send (request : String → Option Request) : Step (Session ω) ClientError Response := do
  let token ← client.accessToken host
  let first ← attempt host (request token)
  if first.isUnauthorized then
    let fresh ← client.refresh host
    let second ← attempt host (request fresh.access)
    if second.isUnauthorized then throw .unauthorized else pure second
  else pure first

/-- What the last answer says. -/
def received {α : Type} (codec : Codec α) (response : Response) : Except ClientError α :=
  if response.isError then .error (.status response.status)
  else match codec.readGlyphs (Text.Utf8.decode response.body) with
    | .error trouble => .error (.undecodable trouble)
    | .ok x => .ok x

def call {α : Type} (codec : Codec α) (request : String → Option Request) :
    Step (Session ω) ClientError α := do
  let response ← client.send host request
  liftExcept (received codec response)

/-! ## The calls of the service -/

def messagesUrl : String := s!"{client.apiBase}/{client.user}/messages"

def messageUrl (id : String) : String := s!"{client.messagesUrl}/{id}"

/-- The headers a record is made of. -/
def recordHeaders : List String := ["From", "To", "Subject", "Date"]

def listRequest? (label token : String) : Option Request :=
  Request.get? client.messagesUrl [("labelIds", label)] token

def metadataRequest? (id token : String) : Option Request :=
  Request.get? (client.messageUrl id)
    (("format", "metadata") :: recordHeaders.map fun h ↦ ("metadataHeaders", h)) token

def minimalRequest? (id token : String) : Option Request :=
  Request.get? (client.messageUrl id) [("format", "minimal")] token

def modifyRequest? (id : String) (changes : LabelChanges) (token : String) : Option Request :=
  Request.postJson? s!"{client.messageUrl id}/modify" (LabelChanges.codec.write changes) token

/-- The first page of the messages with a label. -/
def listing (label : String) : Step (Session ω) ClientError Listing :=
  client.call host Listing.codec (client.listRequest? label)

/-- A message with the headers a record is made of. -/
def metadata (id : String) : Step (Session ω) ClientError Message :=
  client.call host Message.codec (client.metadataRequest? id)

/-- A message with its labels only. -/
def minimal (id : String) : Step (Session ω) ClientError Message :=
  client.call host Message.codec (client.minimalRequest? id)

def modify (id : String) (changes : LabelChanges) : Step (Session ω) ClientError Message :=
  client.call host Message.codec (client.modifyRequest? id changes)

end Client

end MailRules.Mailbox
