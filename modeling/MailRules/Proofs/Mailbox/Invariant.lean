import Mathlib
import MailRules.Proofs.Mailbox.Exchange

/-!
# What a client keeps while it works

A client asks three things of its host: the time, an answer to a request, and to keep tokens. A
relation between the tokens that are held and the state of the host which each of the three keeps is
kept by whatever the client does (`Client.Invariant.perform`). So a statement about all runs of a
client comes down to three statements about a host, which need not know how calls are made of
requests.

What the three may assume is what a client does of its own accord. It sends no request but the
exchange of the refresh token it holds and requests that bear the access token it holds
(`Client.Sends`), and it asks to keep no tokens but those of a grant made at a time that the clock
showed (`Client.Renews`).

The proof goes through the program once. `Keeps` says of a step that it takes the invariant along
and, if it has a result, how that result is related to the tokens held after it. The access token
for the next request is the one that is held, which is what the request after it needs.
-/

namespace MailRules

/-- The request is authorized by the token. -/
def Http.Request.Bears (request : Http.Request) (token : String) : Prop :=
  ∃ authorization, Http.bearer? token = some authorization ∧
    request.authorization = some authorization

namespace Http.Request

variable {request : Request} {url token : String}

theorem bears_of_get? {parameters : List (String × String)}
    (h : Request.get? url parameters token = some request) : request.Bears token := by
  simp only [Request.get?, Option.bind_eq_bind, Option.bind_eq_some_iff, Option.some.injEq] at h
  obtain ⟨_, -, authorization, hbearer, rfl⟩ := h
  exact ⟨authorization, hbearer, rfl⟩

theorem bears_of_postJson? {body : Json.Value}
    (h : Request.postJson? url body token = some request) : request.Bears token := by
  simp only [Request.postJson?, Option.bind_eq_bind, Option.bind_eq_some_iff,
    Option.some.injEq] at h
  obtain ⟨_, -, authorization, hbearer, rfl⟩ := h
  exact ⟨authorization, hbearer, rfl⟩

end Http.Request

namespace Mailbox

open Http (Request)

/-! ## Steps of a session -/

section Keeps

variable {ω ε α β : Type} {I : Tokens → ω → Prop} {before : Tokens → Prop}
  {after : α → Tokens → Prop}

/-- Where the invariant holds and the tokens are as `before` says, the step ends with the invariant,
and its result is related to the tokens as `after` says. -/
def Keeps (I : Tokens → ω → Prop) (before : Tokens → Prop) (step : Step (Session ω) ε α)
    (after : α → Tokens → Prop) : Prop :=
  ∀ s : Session ω, I s.tokens s.world → before s.tokens →
    I (step.run s).2.tokens (step.run s).2.world ∧
      ∀ a, (step.run s).1 = .ok a → after a (step.run s).2.tokens

theorem Keeps.pure {a : α} (h : ∀ tokens, before tokens → after a tokens) :
    Keeps I before (Pure.pure a : Step (Session ω) ε α) after := by
  intro s hI hbefore
  refine ⟨hI, fun b hb ↦ ?_⟩
  obtain rfl : a = b := by simpa using hb
  exact h s.tokens hbefore

theorem Keeps.throw {e : ε} : Keeps I before (throw e : Step (Session ω) ε α) after := by
  intro s hI _
  exact ⟨hI, fun b hb ↦ by simp at hb⟩

theorem Keeps.bind {step : Step (Session ω) ε α} {next : α → Step (Session ω) ε β}
    {last : β → Tokens → Prop} (hstep : Keeps I before step after)
    (hnext : ∀ a, Keeps I (after a) (next a) last) : Keeps I before (step >>= next) last := by
  intro s hI hbefore
  obtain ⟨hkept, hresult⟩ := hstep s hI hbefore
  rcases hrun : step.run s with ⟨e | a, t⟩
  · rw [Step.run_bind_of_error hrun]
    rw [hrun] at hkept
    exact ⟨hkept, fun b hb ↦ by simp at hb⟩
  · rw [Step.run_bind_of_ok hrun]
    rw [hrun] at hkept hresult
    exact hnext a t hkept (hresult a rfl)

theorem Keeps.get : Keeps I before (MonadState.get : Step (Session ω) ε (Session ω))
    fun s tokens ↦ s.tokens = tokens ∧ before tokens := by
  intro s hI hbefore
  refine ⟨hI, fun t ht ↦ ?_⟩
  obtain rfl : s = t := Except.ok.inj ht
  exact ⟨rfl, hbefore⟩

theorem Keeps.liftExcept {x : Except ε α} :
    Keeps I before (liftExcept x : Step (Session ω) ε α) fun _ tokens ↦ before tokens := by
  intro s hI hbefore
  rw [Step.run_liftExcept]
  exact ⟨hI, fun _ _ ↦ hbefore⟩

theorem Keeps.map {step : Step (Session ω) ε α} {f : α → β} (h : Keeps I before step after) :
    Keeps I before (f <$> step) fun _ _ ↦ True := by
  intro s hI hbefore
  rw [Step.run_map]
  exact ⟨(h s hI hbefore).1, fun _ _ ↦ trivial⟩

theorem run_outside (step : Step ω ε α) (s : Session ω) :
    (Session.outside step).run s =
      ((step.run s.world).1, { s with world := (step.run s.world).2 }) := rfl

theorem Keeps.adapt {ε' : Type} {step : Step (Session ω) ε α} (h : Keeps I before step after)
    (f : ε → ε') : Keeps I before (ExceptT.adapt f step) after := by
  intro s hI hbefore
  obtain ⟨hkept, hresult⟩ := h s hI hbefore
  rw [Step.run_adapt]
  refine ⟨hkept, fun a ha ↦ hresult a ?_⟩
  cases hrun : (step.run s).1 with
  | error e =>
    rw [hrun] at ha
    cases ha
  | ok b =>
    rw [hrun] at ha
    cases ha
    rfl

/-- A call of the host leaves the tokens alone. -/
theorem Keeps.outside {step : Step ω ε α}
    (h : ∀ tokens w, I tokens w → before tokens →
      I tokens (step.run w).2 ∧ ∀ a, (step.run w).1 = .ok a → after a tokens) :
    Keeps I before (Session.outside step) after := by
  intro s hI hbefore
  exact h s.tokens s.world hI hbefore

theorem Keeps.of_imp {step : Step (Session ω) ε α} {before' : Tokens → Prop}
    (h : Keeps I before step after) (himp : ∀ tokens, before' tokens → before tokens) :
    Keeps I before' step after :=
  fun s hI hbefore ↦ h s hI (himp s.tokens hbefore)

end Keeps

/-! ## Refreshing -/

/-- New tokens are held once they are kept, and everything else leaves the old ones. -/
theorem Client.run_refresh {ω : Type} (client : Client) (host : Host ω) (s : Session ω) :
    (client.refresh host).run s =
      match (client.exchange host s.tokens).run s.world with
      | (.error error, w) => (.error (.exchange error), { s with world := w })
      | (.ok fresh, w) =>
        match (host.save fresh).run w with
        | (.error reason, w) => (.error (.unsaved reason), { s with world := w })
        | (.ok (), w) => (.ok fresh, ⟨fresh, w⟩) := by
  rw [Client.refresh, Step.run_bind_of_ok (Step.run_get s)]
  rcases hexchange : (client.exchange host s.tokens).run s.world with ⟨error | fresh, w⟩
  · rw [Step.run_bind_of_error (by rw [run_outside, Step.run_adapt, hexchange]; rfl)]
  · rw [Step.run_bind_of_ok (by rw [run_outside, Step.run_adapt, hexchange]; rfl)]
    dsimp only
    rcases hsave : (host.save fresh).run w with ⟨reason | ⟨⟩, w'⟩
    · rw [Step.run_bind_of_ok (by rw [run_outside, Step.run_lift, hsave])]
      rfl
    · rw [Step.run_bind_of_ok (by rw [run_outside, Step.run_lift, hsave])]
      rfl

/-! ## What is asked of a host -/

namespace Client

variable {ω : Type} {client : Client} {host : Host ω} {I : Tokens → ω → Prop}

/-- The client may send this request while it holds these tokens. -/
def Sends (client : Client) (tokens : Tokens) (request : Request) : Prop :=
  client.exchangeRequest? tokens.refresh = some request ∨ request.Bears tokens.access

/-- The new tokens are those of a grant at a time that the clock of the host shows. -/
def Renews (host : Host ω) (tokens fresh : Tokens) : Prop :=
  ∃ grant w, 0 < grant.lifetime ∧ renewed tokens grant (host.now.run w).1 = .ok fresh

/-- What a client holds and what its host is in are related before and after each call. -/
structure Invariant (client : Client) (host : Host ω) (I : Tokens → ω → Prop) : Prop where
  clock {tokens w} : I tokens w → I tokens (host.now.run w).2
  send {tokens w request} : I tokens w → client.Sends tokens request →
    I tokens ((host.send request).run w).2
  saved {tokens fresh w w'} : I tokens w → Renews host tokens fresh →
    (host.save fresh).run w = (.ok (), w') → I fresh w'
  unsaved {tokens fresh w w' reason} : I tokens w → Renews host tokens fresh →
    (host.save fresh).run w = (.error reason, w') → I tokens w'

variable (inv : client.Invariant host I)

include inv

theorem Invariant.exchange {tokens : Tokens} {w : ω} (h : I tokens w) :
    I tokens ((client.exchange host tokens).run w).2 ∧
      ∀ fresh, ((client.exchange host tokens).run w).1 = .ok fresh → Renews host tokens fresh := by
  have hrun := client.exchanged host tokens w
  generalize (client.exchange host tokens).run w = outcome at hrun ⊢
  cases hrun with
  | unsent => exact ⟨h, by simp⟩
  | refused _ request_eq sent =>
    have hsent := inv.send h (Or.inl request_eq)
    rw [sent] at hsent
    exact ⟨hsent, by simp⟩
  | @granted request response w' grant _ request_eq sent granted_eq =>
    have hsent := inv.send h (Or.inl request_eq)
    rw [sent] at hsent
    exact ⟨inv.clock hsent, fun fresh hfresh ↦
      ⟨grant, w', (granted_eq_ok_iff.mp granted_eq).2.2.2, hfresh⟩⟩

/-- Between keeping new tokens and holding them the invariant need not be there, so that the two are
taken together. -/
theorem Invariant.refresh :
    Keeps I (fun _ ↦ True) (client.refresh host) fun fresh tokens ↦ fresh = tokens := by
  intro s hI _
  obtain ⟨hkept, hrenews⟩ := inv.exchange hI
  rw [run_refresh]
  rcases hexchange : (client.exchange host s.tokens).run s.world with ⟨error | fresh, w⟩
  · rw [hexchange] at hkept
    exact ⟨hkept, fun _ h ↦ by cases h⟩
  · rw [hexchange] at hkept hrenews
    dsimp only
    rcases hsave : (host.save fresh).run w with ⟨reason | ⟨⟩, w'⟩
    · exact ⟨inv.unsaved hkept (hrenews fresh rfl) hsave, fun _ h ↦ by cases h⟩
    · exact ⟨inv.saved hkept (hrenews fresh rfl) hsave, fun _ h ↦ (Except.ok.inj h).symm⟩

theorem Invariant.accessToken :
    Keeps I (fun _ ↦ True) (client.accessToken host) fun token tokens ↦ token = tokens.access := by
  refine Keeps.get.bind fun session ↦ ?_
  have hclock : Keeps I (fun tokens ↦ session.tokens = tokens ∧ True)
      (Session.outside (Step.lift host.now) : Step (Session ω) ClientError _)
      fun _ tokens ↦ session.tokens = tokens :=
    Keeps.outside fun tokens w hI hsession ↦ ⟨inv.clock hI, fun _ _ ↦ hsession.1⟩
  refine hclock.bind fun now ↦ ?_
  cases session.tokens.needRefresh? now with
  | none => exact Keeps.throw
  | some due =>
    cases due with
    | false => exact Keeps.pure fun tokens h ↦ congrArg Tokens.access h
    | true => exact (inv.refresh.of_imp fun _ _ ↦ trivial).bind fun fresh ↦
        Keeps.pure fun tokens h ↦ congrArg Tokens.access h

/-! ## Calling -/

theorem Invariant.attempt {request? : Option Request} {before : Tokens → Prop}
    (h : ∀ tokens, before tokens → ∀ request ∈ request?, client.Sends tokens request) :
    Keeps I before (attempt host request?) fun _ tokens ↦ before tokens := by
  cases request? with
  | none => exact Keeps.throw
  | some request =>
    have hsend : Keeps I before
        (Session.outside (Step.lift (host.send request)) : Step (Session ω) ClientError _)
        fun _ tokens ↦ before tokens :=
      Keeps.outside fun tokens w hI hbefore ↦
        ⟨inv.send hI (h tokens hbefore request rfl), fun _ _ ↦ hbefore⟩
    refine hsend.bind fun answer ↦ ?_
    cases answer with
    | none => exact Keeps.throw
    | some response => exact Keeps.pure fun _ hbefore ↦ hbefore

variable {request : String → Option Request}

theorem Invariant.callWith (h : ∀ token, ∀ r ∈ request token, r.Bears token) :
    Keeps I (fun _ ↦ True) (client.send host request) fun _ _ ↦ True := by
  have hsends : ∀ (token : String) (tokens : Tokens), token = tokens.access →
      ∀ r ∈ request token, client.Sends tokens r := by
    rintro _ tokens rfl r hr
    exact Or.inr (h tokens.access r hr)
  refine inv.accessToken.bind fun token ↦ (inv.attempt (hsends token)).bind fun first ↦ ?_
  by_cases hunauthorized : first.isUnauthorized = true
  · -- the second request is made of the tokens that the refresh has left, not of those before it
    rw [if_pos hunauthorized]
    refine (inv.refresh.of_imp fun _ _ ↦ trivial).bind fun fresh ↦ ?_
    refine (inv.attempt fun tokens hfresh ↦ ?_).bind fun second ↦ ?_
    · exact hsends fresh.access tokens (congrArg Tokens.access hfresh)
    · by_cases hagain : second.isUnauthorized = true
      · rw [if_pos hagain]
        exact Keeps.throw
      · rw [if_neg hagain]
        exact Keeps.pure fun _ _ ↦ trivial
  · rw [if_neg hunauthorized]
    exact Keeps.pure fun _ _ ↦ trivial

theorem Invariant.call {α : Type} (codec : Json.Codec α)
    (h : ∀ token, ∀ r ∈ request token, r.Bears token) :
    Keeps I (fun _ ↦ True) (client.call host codec request) fun _ _ ↦ True :=
  (inv.callWith h).bind fun _ ↦ Keeps.liftExcept

end Client

/-! ## Runs -/

/-- What a client can be told to do. -/
inductive Operation
  | listing (label : String)
  | metadata (id : String)
  | minimal (id : String)
  | modify (id : String) (changes : LabelChanges)
  | refresh
  deriving DecidableEq, Repr

/-- The operation, without its answer. -/
def Operation.step {ω : Type} (client : Client) (host : Host ω) :
    Operation → Step (Session ω) ClientError Unit
  | listing label => (fun _ ↦ ()) <$> client.listing host label
  | metadata id => (fun _ ↦ ()) <$> client.metadata host id
  | minimal id => (fun _ ↦ ()) <$> client.minimal host id
  | modify id changes => (fun _ ↦ ()) <$> client.modify host id changes
  | refresh => (fun _ ↦ ()) <$> client.refresh host

/-- What operations leave one after the other, whether they succeed or not. -/
def Client.perform {ω : Type} (client : Client) (host : Host ω) (operations : List Operation)
    (s : Session ω) : Session ω :=
  operations.foldl (fun s operation ↦ ((operation.step client host).run s).2) s

namespace Client

variable {ω : Type} {client : Client} {host : Host ω} {I : Tokens → ω → Prop}

theorem perform_cons (operation : Operation) (operations : List Operation) (s : Session ω) :
    client.perform host (operation :: operations) s =
      client.perform host operations ((operation.step client host).run s).2 := rfl

theorem Invariant.operation (inv : client.Invariant host I) (operation : Operation) :
    Keeps I (fun _ ↦ True) (operation.step client host) fun _ _ ↦ True := by
  cases operation with
  | listing label =>
    exact (inv.call Listing.codec fun _ _ ↦ Request.bears_of_get?).map
  | metadata id =>
    exact (inv.call Message.codec fun _ _ ↦ Request.bears_of_get?).map
  | minimal id =>
    exact (inv.call Message.codec fun _ _ ↦ Request.bears_of_get?).map
  | modify id changes =>
    exact (inv.call Message.codec fun _ _ ↦ Request.bears_of_postJson?).map
  | refresh => exact inv.refresh.map

/-- **What every call keeps, every run keeps.** -/
theorem Invariant.perform (inv : client.Invariant host I) (operations : List Operation)
    (s : Session ω) (h : I s.tokens s.world) :
    I (client.perform host operations s).tokens (client.perform host operations s).world := by
  induction operations generalizing s with
  | nil => exact h
  | cons operation operations ih =>
    rw [perform_cons]
    exact ih _ (inv.operation operation s h trivial).1

end Client

end Mailbox

end MailRules
