import MailRules.Calendar.Timestamp
import MailRules.Json.Codec

/-!
# Access tokens

The tokens of a client and the credentials they belong to. An access token is refreshed when it has
no more than a buffer of time left; the sum of now and the buffer has to lie inside the calendar.
-/

namespace MailRules.Mailbox

open Json
open Calendar (Instant Timestamp.instant? Timestamp.write)

structure Tokens where
  access : String
  refresh : String
  expires : Instant
  deriving DecidableEq, Repr

structure Credentials where
  clientId : String
  clientSecret : String
  tokens : Tokens
  deriving DecidableEq, Repr

/-- Instants are written as timestamps in UTC. -/
def instantCodec : Codec Instant :=
  .via .text (fun s ↦ Timestamp.instant? s.toList) (fun t ↦ String.ofList (Timestamp.write t))

def Tokens.codec : Codec Tokens :=
  .record
    (.cons (.required "access_token" .text) <| .cons (.required "refresh_token" .text) <|
      .cons (.required "expires_at" instantCodec) .nil)
    (fun (access, refresh, expires, _) ↦ { access, refresh, expires })
    (fun t ↦ (t.access, t.refresh, t.expires, ()))

def Credentials.codec : Codec Credentials :=
  .record
    (.cons (.required "client_id" .text) <| .cons (.required "client_secret" .text) <|
      .cons (.required "oauth" Tokens.codec) .nil)
    (fun (clientId, clientSecret, tokens, _) ↦ { clientId, clientSecret, tokens })
    (fun c ↦ (c.clientId, c.clientSecret, c.tokens, ()))

/-- The text of a credentials file. -/
def Credentials.text (c : Credentials) : String := (Credentials.codec.write c).indentedText

/-- Seconds before its expiry at which a token is refreshed. -/
def refreshBuffer : Int := 300

/-- Whether a token has no more than `buffer` seconds left; none if the calendar ends before. -/
def Tokens.needRefresh? (t : Tokens) (now : Instant) (buffer : Int := refreshBuffer) :
    Option Bool :=
  (now.addSeconds? buffer).map fun soon ↦ !soon.before t.expires

end MailRules.Mailbox
