import MailRules.Http.Url
import MailRules.Json.Value

/-!
# Requests and responses

A request is what is sent: an absolute address, the authorization, the type of the body and the
body. A request that cannot be put together is none; that is so when its address is not one, when
it is longer than servers are asked to read, or when the token has a control character in it.
-/

namespace MailRules.Http

inductive Method
  | get
  | post
  deriving DecidableEq, Repr

structure Request where
  method : Method
  url : String
  authorization : Option String
  contentType : Option String
  body : String
  deriving DecidableEq, Repr

structure Response where
  status : Nat
  body : List UInt8
  deriving DecidableEq, Repr

/-! ## Responses -/

namespace Response

def isSuccess (r : Response) : Bool := 200 ≤ r.status && r.status < 300

/-- Client and server errors. -/
def isError (r : Response) : Bool := 400 ≤ r.status && r.status < 600

def isUnauthorized (r : Response) : Bool := r.status = 401

/-- The body as text, with a replacement for what is not. -/
def text (r : Response) : String := String.ofList (Text.replaced (Text.Utf8.decode r.body))

end Response

/-! ## Requests -/

/-- The longest address that can be sent. -/
def longestAddress : Nat := 65534

def address? (url : String) (parameters : List (String × String)) : Option String := do
  let u ← Url.ofText? url
  let text := (u.withParameters parameters).text
  if longestAddress < text.length then none else some text

def isControl (c : Char) : Bool := (c.toNat < 0x20 && c ≠ '\t') || c.toNat = 0x7F

/-- The value of a header, without the blanks at its end. -/
def headerValue? (s : String) : Option String :=
  if s.toList.any isControl then none
  else
    let blank (c : Char) : Bool := c = ' ' || c = '\t'
    some (String.ofList (s.toList.reverse.dropWhile blank).reverse)

def bearer? (token : String) : Option String := headerValue? s!"Bearer {token}"

namespace Request

def get? (url : String) (parameters : List (String × String)) (token : String) :
    Option Request := do
  let url ← address? url parameters
  let authorization ← bearer? token
  some { method := .get, url, authorization := some authorization, contentType := none, body := "" }

def postJson? (url : String) (body : Json.Value) (token : String) : Option Request := do
  let url ← address? url []
  let authorization ← bearer? token
  some { method := .post, url, authorization := some authorization,
         contentType := some "application/json", body := body.compactText }

/-- Posts a form to a server that asks for no authorization. -/
def postForm? (url : String) (fields : List (String × String)) : Option Request := do
  let url ← address? url []
  some { method := .post, url, authorization := none,
         contentType := some "application/x-www-form-urlencoded",
         body := String.ofList (form fields) }

end Request

end MailRules.Http
