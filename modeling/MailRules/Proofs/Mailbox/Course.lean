import Mathlib
import MailRules.Proofs.Mailbox.History

/-!
# The courses of a call

A call of the service reads the clock, renews the tokens if they are about to expire, and sends its
request. If the service turns that one down it renews the tokens once more and sends the request
again. Each of these may be the last thing that the call does. `Client.Course` lists the ways in
which a call can end, each with its events in their order and with what comes of it, and every call
takes one of them, whatever its host does (`Client.writes_query`).

The proof goes through the program once. `Writes` says of a step what the events that it writes down
have to do with its result and with the tokens that it leaves. In a sequence the events of the
second step follow those of the first.
-/

namespace MailRules

namespace Http.Request

variable {url token token' : String} {r r' : Request}

theorem get?_congr {parameters : List (String × String)}
    (h : get? url parameters token = some r) (h' : get? url parameters token' = some r') :
    r' = { r with authorization := r'.authorization } := by
  simp only [get?, Option.bind_eq_bind, Option.bind_eq_some_iff, Option.some.injEq] at h h'
  obtain ⟨address, haddress, a, -, rfl⟩ := h
  obtain ⟨address', haddress', a', -, rfl⟩ := h'
  rw [haddress] at haddress'
  rw [Option.some.inj haddress']

theorem postJson?_congr {body : Json.Value} (h : postJson? url body token = some r)
    (h' : postJson? url body token' = some r') :
    r' = { r with authorization := r'.authorization } := by
  simp only [postJson?, Option.bind_eq_bind, Option.bind_eq_some_iff, Option.some.injEq] at h h'
  obtain ⟨address, haddress, a, -, rfl⟩ := h
  obtain ⟨address', haddress', a', -, rfl⟩ := h'
  rw [haddress] at haddress'
  rw [Option.some.inj haddress']

end Http.Request

namespace Mailbox

open Http (Request Response)
open Calendar (Instant)
open Json (Codec)

/-! ## Queries -/

/-- The calls of the service, by what they answer. -/
inductive Query : Type → Type
  | listing (label : String) : Query Listing
  | metadata (id : String) : Query Message
  | minimal (id : String) : Query Message
  | modify (id : String) (changes : LabelChanges) : Query Message

namespace Query

variable {α ω : Type} {client : Client}

def step (client : Client) (host : Host ω) : Query α → Step (Session ω) ClientError α
  | listing label => client.listing host label
  | metadata id => client.metadata host id
  | minimal id => client.minimal host id
  | modify id changes => client.modify host id changes

def codec : Query α → Codec α
  | listing _ => Listing.codec
  | metadata _ | minimal _ | modify _ _ => Message.codec

def request? (client : Client) : Query α → String → Option Request
  | listing label => client.listRequest? label
  | metadata id => client.metadataRequest? id
  | minimal id => client.minimalRequest? id
  | modify id changes => client.modifyRequest? id changes

theorem step_eq_call (client : Client) (host : Host ω) (query : Query α) :
    query.step client host = client.call host query.codec (query.request? client) := by
  cases query <;> rfl

theorem bears {query : Query α} {token : String} {r : Request}
    (h : query.request? client token = some r) : r.Bears token := by
  cases query with
  | listing | metadata | minimal => exact Request.bears_of_get? h
  | modify => exact Request.bears_of_postJson? h

/-- A token decides the authorization of the request and nothing else. -/
theorem request?_congr {query : Query α} {token token' : String} {r r' : Request}
    (h : query.request? client token = some r) (h' : query.request? client token' = some r') :
    r' = { r with authorization := r'.authorization } := by
  cases query with
  | listing | metadata | minimal => exact Request.get?_congr h h'
  | modify => exact Request.postJson?_congr h h'

end Query

/-! ## Sending -/

/-- The request is sent, if there is one, and what comes of it. -/
inductive Attempt (request? : Option Request) : List Event → Except ClientError Response → Prop
  | noRequest (none_eq : request? = none) : Attempt request? [] (.error .notSent)
  | unanswered {request : Request} (request_eq : request? = some request) :
      Attempt request? [.call request none] (.error .notSent)
  | answered {request : Request} {response : Response} (request_eq : request? = some request) :
      Attempt request? [.call request (some response)] (.ok response)

/-- What an answer comes to: an error if its status is one, and else what its body says. -/
inductive Decides {α : Type} (codec : Codec α) (response : Response) :
    Except ClientError α → Prop
  | failed (low : 400 ≤ response.status) (high : response.status < 600) :
      Decides codec response (.error (.status response.status))
  | undecodable {trouble : Json.Trouble} (other : ¬(400 ≤ response.status ∧ response.status < 600))
      (read : codec.readGlyphs (Text.Utf8.decode response.body) = .error trouble) :
      Decides codec response (.error (.undecodable trouble))
  | decoded {x : α} (other : ¬(400 ≤ response.status ∧ response.status < 600))
      (read : codec.readGlyphs (Text.Utf8.decode response.body) = .ok x) :
      Decides codec response (.ok x)

namespace Client

/-! ## Courses -/

/-- What is done to renew tokens, and what comes of it. New tokens come of it only once they have
been kept. -/
inductive Renewal (client : Client) (tokens : Tokens) :
    List Event → Except ClientError Tokens → Prop
  | noRefreshToken (empty : tokens.refresh = "") :
      Renewal client tokens [] (.error (.exchange .noRefreshToken))
  | noRequest (refreshable : tokens.refresh ≠ "")
      (none_eq : client.exchangeRequest? tokens.refresh = none) :
      Renewal client tokens [] (.error (.exchange .notSent))
  | refused {request : Request} {answer : Option Response} {error : ExchangeError}
      (refreshable : tokens.refresh ≠ "")
      (request_eq : client.exchangeRequest? tokens.refresh = some request)
      (noGrant : answer.elim (.error .notSent) granted = .error error) :
      Renewal client tokens [.call request answer] (.error (.exchange error))
  | endless {request : Request} {response : Response} {grant : Grant} {now : Instant}
      {error : ExchangeError} (refreshable : tokens.refresh ≠ "")
      (request_eq : client.exchangeRequest? tokens.refresh = some request)
      (granted_eq : granted response = .ok grant)
      (renewed_eq : renewed tokens grant now = .error error) :
      Renewal client tokens [.call request (some response), .clock now] (.error (.exchange error))
  | unsaved {request : Request} {response : Response} {grant : Grant} {now : Instant}
      {fresh : Tokens} {reason : String} (refreshable : tokens.refresh ≠ "")
      (request_eq : client.exchangeRequest? tokens.refresh = some request)
      (granted_eq : granted response = .ok grant)
      (renewed_eq : renewed tokens grant now = .ok fresh) :
      Renewal client tokens
        [.call request (some response), .clock now, .save fresh (.error reason)]
        (.error (.unsaved reason))
  | kept {request : Request} {response : Response} {grant : Grant} {now : Instant}
      {fresh : Tokens} (refreshable : tokens.refresh ≠ "")
      (request_eq : client.exchangeRequest? tokens.refresh = some request)
      (granted_eq : granted response = .ok grant)
      (renewed_eq : renewed tokens grant now = .ok fresh) :
      Renewal client tokens [.call request (some response), .clock now, .save fresh (.ok ())]
        (.ok fresh)

/-- How a call that begins at `now` comes by its tokens. -/
inductive Opening (client : Client) (tokens : Tokens) (now : Instant) :
    List Event → Except ClientError Tokens → Prop
  | beyondCalendar (none_eq : now.addSeconds? refreshBuffer = none) :
      Opening client tokens now [.clock now] (.error .beyondCalendar)
  | lasting {soon : Instant} (soon_eq : now.addSeconds? refreshBuffer = some soon)
      (lasts : soon.before tokens.expires = true) :
      Opening client tokens now [.clock now] (.ok tokens)
  | due {soon : Instant} {events : List Event} {result : Except ClientError Tokens}
      (soon_eq : now.addSeconds? refreshBuffer = some soon)
      (ends : soon.before tokens.expires = false)
      (renewal : client.Renewal tokens events result) :
      Opening client tokens now (.clock now :: events) result

variable {α ω : Type}

/-- What follows when the service has turned down a request that was sent with `tokens`. -/
inductive Resending (client : Client) (query : Query α) (tokens : Tokens) :
    List Event → Except ClientError α → Prop
  | unrenewed {events : List Event} {error : ClientError}
      (renewal : client.Renewal tokens events (.error error)) :
      Resending client query tokens events (.error error)
  | unsent {again events : List Event} {fresh : Tokens} {error : ClientError}
      (renewal : client.Renewal tokens again (.ok fresh))
      (attempt : Attempt (query.request? client fresh.access) events (.error error)) :
      Resending client query tokens (again ++ events) (.error error)
  | unauthorized {again events : List Event} {fresh : Tokens} {response : Response}
      (renewal : client.Renewal tokens again (.ok fresh))
      (attempt : Attempt (query.request? client fresh.access) events (.ok response))
      (status_eq : response.status = 401) :
      Resending client query tokens (again ++ events) (.error .unauthorized)
  | accepted {again events : List Event} {fresh : Tokens} {response : Response}
      {result : Except ClientError α}
      (renewal : client.Renewal tokens again (.ok fresh))
      (attempt : Attempt (query.request? client fresh.access) events (.ok response))
      (status_ne : response.status ≠ 401) (decides : Decides query.codec response result) :
      Resending client query tokens (again ++ events) result

/-- The courses that a call can take. -/
inductive Course (client : Client) (query : Query α) (tokens : Tokens) (now : Instant) :
    List Event → Except ClientError α → Prop
  | unopened {opened : List Event} {error : ClientError}
      (opening : client.Opening tokens now opened (.error error)) :
      Course client query tokens now opened (.error error)
  | unsent {opened events : List Event} {held : Tokens} {error : ClientError}
      (opening : client.Opening tokens now opened (.ok held))
      (attempt : Attempt (query.request? client held.access) events (.error error)) :
      Course client query tokens now (opened ++ events) (.error error)
  | turnedDown {opened events again : List Event} {held : Tokens} {response : Response}
      {result : Except ClientError α}
      (opening : client.Opening tokens now opened (.ok held))
      (attempt : Attempt (query.request? client held.access) events (.ok response))
      (status_eq : response.status = 401) (resending : client.Resending query held again result) :
      Course client query tokens now (opened ++ (events ++ again)) result
  | accepted {opened events : List Event} {held : Tokens} {response : Response}
      {result : Except ClientError α}
      (opening : client.Opening tokens now opened (.ok held))
      (attempt : Attempt (query.request? client held.access) events (.ok response))
      (status_ne : response.status ≠ 401) (decides : Decides query.codec response result) :
      Course client query tokens now (opened ++ events) result

end Client

/-! ## What steps write down -/

section Writes

variable {ω ε α β : Type} {s : Session (ω × List Event)}

/-- What the step writes down is related to its result and to the tokens that it leaves. -/
def Writes (s : Session (ω × List Event)) (step : Step (Session (ω × List Event)) ε α)
    (P : List Event → Except ε α → Tokens → Prop) : Prop :=
  ∃ events, (step.run s).2.world.2 = s.world.2 ++ events ∧
    P events (step.run s).1 (step.run s).2.tokens

variable {P : List Event → Except ε α → Tokens → Prop} {Q : List Event → Except ε β → Tokens → Prop}

theorem Writes.pure {a : α} (h : P [] (.ok a) s.tokens) :
    Writes s (Pure.pure a : Step (Session (ω × List Event)) ε α) P :=
  ⟨[], (List.append_nil _).symm, h⟩

theorem Writes.throw {e : ε} (h : P [] (.error e) s.tokens) :
    Writes s (throw e : Step (Session (ω × List Event)) ε α) P :=
  ⟨[], (List.append_nil _).symm, h⟩

theorem Writes.liftExcept {x : Except ε α} (h : P [] x s.tokens) :
    Writes s (liftExcept x : Step (Session (ω × List Event)) ε α) P := by
  refine ⟨[], ?_⟩
  rw [Step.run_liftExcept]
  exact ⟨(List.append_nil _).symm, h⟩

theorem Writes.mono {step : Step (Session (ω × List Event)) ε α}
    {P' : List Event → Except ε α → Tokens → Prop} (h : Writes s step P)
    (himp : ∀ events result tokens, P events result tokens → P' events result tokens) :
    Writes s step P' := by
  obtain ⟨events, hevents, hP⟩ := h
  exact ⟨events, hevents, himp _ _ _ hP⟩

/-- A call of the host is one event. -/
theorem Writes.watch {call : StateM ω α} {event : α → Event}
    (h : ∀ a, P [event a] (.ok a) s.tokens) :
    Writes s (Session.outside (Step.lift (watch call event)) : Step _ ε α) P := by
  refine ⟨[event (call.run s.world.1).1], ?_⟩
  rw [run_outside, Step.run_lift, run_watch]
  exact ⟨rfl, h _⟩

/-- What was written down before a step goes on as another one. -/
theorem Writes.of_run {step : Step (Session (ω × List Event)) ε β}
    {next : Step (Session (ω × List Event)) ε β} {t : Session (ω × List Event)}
    {events : List Event} (hrun : step.run s = next.run t)
    (hevents : t.world.2 = s.world.2 ++ events)
    (h : Writes t next fun more result tokens ↦ Q (events ++ more) result tokens) :
    Writes s step Q := by
  obtain ⟨more, hmore, hQ⟩ := h
  refine ⟨events ++ more, ?_⟩
  rw [hrun, hmore, hevents, List.append_assoc]
  exact ⟨rfl, hQ⟩

theorem Writes.bind {step : Step (Session (ω × List Event)) ε α}
    {next : α → Step (Session (ω × List Event)) ε β} (h : Writes s step P)
    (herror : ∀ events e tokens, P events (.error e) tokens → Q events (.error e) tokens)
    (hnext : ∀ events a t, P events (.ok a) t.tokens →
      Writes t (next a) fun more result tokens ↦ Q (events ++ more) result tokens) :
    Writes s (step >>= next) Q := by
  obtain ⟨events, hevents, hP⟩ := h
  rcases hrun : step.run s with ⟨e | a, t⟩
  · rw [hrun] at hevents hP
    refine ⟨events, ?_⟩
    rw [Step.run_bind_of_error hrun]
    exact ⟨hevents, herror _ _ _ hP⟩
  · rw [hrun] at hevents hP
    exact Writes.of_run (Step.run_bind_of_ok hrun) hevents (hnext events a t hP)

theorem Writes.map {f : α → β} {step : Step (Session (ω × List Event)) ε α} (h : Writes s step P)
    (himp : ∀ events result tokens, P events result tokens → Q events (result.map f) tokens) :
    Writes s (f <$> step) Q := by
  obtain ⟨events, hevents, hP⟩ := h
  refine ⟨events, ?_⟩
  rw [Step.run_map]
  exact ⟨hevents, himp _ _ _ hP⟩

end Writes

namespace Client

variable {α ω : Type} {client : Client} {host : Host ω}

/-- **A renewal takes one of its courses**, and the tokens that come of it are held. -/
theorem writes_refresh (s : Session (ω × List Event)) :
    Writes s (client.refresh host.watched) fun events result tokens ↦
      client.Renewal s.tokens events result ∧ ∀ fresh, result = .ok fresh → tokens = fresh := by
  have hrun := client.exchanged host.watched s.tokens s.world
  rw [Writes, run_refresh]
  generalize (client.exchange host.watched s.tokens).run s.world = outcome at hrun ⊢
  cases hrun with
  | unsent ne noRequest error_eq =>
    refine ⟨[], (List.append_nil _).symm, ?_, fun _ h ↦ by cases h⟩
    by_cases hrefresh : s.tokens.refresh = ""
    · rw [error_eq, if_pos hrefresh]
      exact .noRefreshToken hrefresh
    · rw [error_eq, if_neg hrefresh]
      exact .noRequest hrefresh (noRequest.resolve_left hrefresh)
  | refused ne request_eq sent noGrant refreshable =>
    rw [Host.watched, run_watch] at sent
    obtain ⟨rfl, rfl⟩ := Prod.mk.inj sent
    exact ⟨_, rfl, .refused refreshable request_eq noGrant, fun _ h ↦ by cases h⟩
  | @granted request response w grant refreshable request_eq sent granted_eq =>
    rw [Host.watched, run_watch] at sent
    obtain ⟨hanswer, rfl⟩ := Prod.mk.inj sent
    rw [hanswer, Host.watched, run_watch]
    dsimp only
    cases hrenewed : renewed s.tokens grant (host.now.run _).1 with
    | error error =>
      refine ⟨_, List.append_assoc _ _ _, .endless refreshable request_eq granted_eq hrenewed, ?_⟩
      exact fun _ h ↦ by cases h
    | ok fresh =>
      dsimp only
      rw [run_watch]
      have hassoc (a b c d : List Event) : a ++ b ++ c ++ d = a ++ (b ++ (c ++ d)) := by
        rw [List.append_assoc, List.append_assoc]
      rcases (host.save fresh).run _ with ⟨reason | ⟨⟩, w'⟩
      · refine ⟨_, hassoc _ _ _ _, ?_, fun _ h ↦ by cases h⟩
        exact .unsaved refreshable request_eq granted_eq hrenewed
      · refine ⟨_, hassoc _ _ _ _, ?_, fun _ h ↦ Except.ok.inj h⟩
        exact .kept refreshable request_eq granted_eq hrenewed

theorem run_now_watched {ε : Type} (s : Session (ω × List Event)) :
    (Session.outside (Step.lift host.watched.now) : Step _ ε _).run s =
      (.ok (host.now.run s.world.1).1, ⟨s.tokens, (host.now.run s.world.1).2,
        s.world.2 ++ [.clock (host.now.run s.world.1).1]⟩) := rfl

theorem writes_accessToken (s : Session (ω × List Event)) :
    Writes s (client.accessToken host.watched) fun events result tokens ↦
      ∃ held, client.Opening s.tokens (host.now.run s.world.1).1 events held ∧
        result = held.map Tokens.access ∧ ∀ fresh, held = .ok fresh → tokens = fresh := by
  rw [accessToken]
  refine Writes.of_run (Step.run_bind_of_ok (Step.run_get s)) (List.append_nil _).symm ?_
  refine Writes.of_run (Step.run_bind_of_ok (run_now_watched s)) rfl ?_
  generalize (host.now.run s.world.1).1 = now
  rw [Tokens.needRefresh?]
  cases hsoon : now.addSeconds? refreshBuffer with
  | none => exact Writes.throw ⟨_, .beyondCalendar hsoon, rfl, fun _ h ↦ by cases h⟩
  | some soon =>
    rw [Option.map_some]
    cases hlasts : soon.before s.tokens.expires with
    | true => exact Writes.pure ⟨_, .lasting hsoon hlasts, rfl, fun _ h ↦ Except.ok.inj h⟩
    | false =>
      refine (writes_refresh _).bind (fun events error tokens h ↦ ?_) fun events fresh t h ↦ ?_
      · exact ⟨_, .due hsoon hlasts h.1, rfl, fun _ h ↦ by cases h⟩
      · refine Writes.pure ⟨_, .due hsoon hlasts ((List.append_nil events).symm ▸ h.1), rfl, ?_⟩
        exact fun _ hfresh ↦ (h.2 fresh rfl).trans (Except.ok.inj hfresh)

theorem writes_attempt (s : Session (ω × List Event)) (request? : Option Request) :
    Writes s (attempt host.watched request?) fun events result tokens ↦
      Attempt request? events result ∧ tokens = s.tokens := by
  cases request? with
  | none => exact Writes.throw ⟨.noRequest rfl, rfl⟩
  | some request =>
    have hsend : Writes s
        (Session.outside (Step.lift (host.watched.send request)) : Step _ ClientError _)
        fun events result tokens ↦ (∃ answer, events = [.call request answer] ∧
          result = .ok answer) ∧ tokens = s.tokens :=
      Writes.watch fun answer ↦ ⟨⟨answer, rfl, rfl⟩, rfl⟩
    refine hsend.bind (fun _ _ _ h ↦ ?_) fun events answer t h ↦ ?_
    · obtain ⟨⟨_, -, h⟩, -⟩ := h
      cases h
    · obtain ⟨⟨answer', rfl, h⟩, htokens⟩ := h
      obtain rfl := Except.ok.inj h
      cases answer with
      | none => exact Writes.throw ⟨.unanswered rfl, htokens⟩
      | some response => exact Writes.pure ⟨.answered rfl, htokens⟩

theorem decides_received (codec : Codec α) (response : Response) :
    Decides codec response (received codec response) := by
  rw [received]
  by_cases herror : 400 ≤ response.status ∧ response.status < 600
  · rw [if_pos (by simpa [Response.isError] using herror)]
    exact .failed herror.1 herror.2
  · rw [if_neg (by simpa [Response.isError] using herror)]
    cases hread : codec.readGlyphs (Text.Utf8.decode response.body) with
    | error trouble => exact .undecodable herror hread
    | ok x => exact .decoded herror hread

/-- The result of a call whose request was answered in the end, or was not. -/
def Concludes (codec : Codec α) : Except ClientError Response → Except ClientError α → Prop
  | .error error, result => result = .error error
  | .ok response, result => Decides codec response result

variable {query : Query α}

/-- After a 401 the call goes on with the tokens that the renewal leaves. -/
theorem writes_resend (s : Session (ω × List Event)) :
    Writes s
      (do
        let fresh ← client.refresh host.watched
        let second ← attempt host.watched (query.request? client fresh.access)
        if second.isUnauthorized then throw .unauthorized else pure second)
      fun events sent _ ↦ ∀ result, Concludes query.codec sent result →
        client.Resending query s.tokens events result := by
  refine (writes_refresh s).bind (fun events error _ h result hresult ↦ ?_)
    fun again fresh t hrenewal ↦ (writes_attempt t _).bind
      (fun events error _ h result hresult ↦ ?_) fun events second u hattempt ↦ ?_
  · cases hresult
    exact .unrenewed h.1
  · cases hresult
    exact .unsent hrenewal.1 h.1
  · by_cases hstatus : second.status = 401
    · rw [if_pos (by simpa [Response.isUnauthorized] using hstatus)]
      refine Writes.throw fun result hresult ↦ ?_
      cases hresult
      rw [List.append_nil]
      exact .unauthorized hrenewal.1 hattempt.1 hstatus
    · rw [if_neg (by simpa [Response.isUnauthorized] using hstatus)]
      refine Writes.pure fun result hresult ↦ ?_
      rw [List.append_nil]
      exact .accepted hrenewal.1 hattempt.1 hstatus hresult

theorem writes_send (s : Session (ω × List Event)) :
    Writes s (client.send host.watched (query.request? client)) fun events sent _ ↦
      ∀ result, Concludes query.codec sent result →
        client.Course query s.tokens (host.now.run s.world.1).1 events result := by
  refine (writes_accessToken s).bind (fun events error _ h result hresult ↦ ?_)
    fun opened token t hopening ↦ ?_
  · obtain ⟨held, hopening, hheld, -⟩ := h
    cases hresult
    cases held with
    | error e =>
      cases hheld
      exact .unopened hopening
    | ok held => cases hheld
  · obtain ⟨held, hopening, hheld, htokens⟩ := hopening
    cases held with
    | error e => cases hheld
    | ok held =>
      obtain rfl := Except.ok.inj hheld
      have hheld : t.tokens = held := htokens held rfl
      refine (writes_attempt t _).bind (fun events error _ h result hresult ↦ ?_)
        fun events first u hattempt ↦ ?_
      · cases hresult
        exact .unsent hopening h.1
      · by_cases hstatus : first.status = 401
        · rw [if_pos (by simpa [Response.isUnauthorized] using hstatus)]
          refine (writes_resend u).mono fun again sent _ hresending result hresult ↦ ?_
          have hu : u.tokens = held := hattempt.2.trans hheld
          exact .turnedDown hopening hattempt.1 hstatus (hu ▸ hresending result hresult)
        · rw [if_neg (by simpa [Response.isUnauthorized] using hstatus)]
          refine Writes.pure fun result hresult ↦ ?_
          rw [List.append_nil]
          exact .accepted hopening hattempt.1 hstatus hresult

/-- **A call takes one of its courses.** -/
theorem writes_query (query : Query α) (s : Session (ω × List Event)) :
    Writes s (query.step client host.watched) fun events result _ ↦
      client.Course query s.tokens (host.now.run s.world.1).1 events result := by
  rw [Query.step_eq_call, call]
  refine (writes_send s).bind (fun events error _ h ↦ h _ rfl) fun events response t h ↦ ?_
  refine Writes.liftExcept ?_
  rw [List.append_nil]
  exact h _ (decides_received _ _)

end Client

end Mailbox

end MailRules
