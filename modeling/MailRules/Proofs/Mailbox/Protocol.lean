import Mathlib
import MailRules.Proofs.Mailbox.Course

/-!
# The protocol of a call

What is sent for a call, how often, and what decides its result (`Client.query_protocol`). A renewal
sends a request without authorization, and a query sends one with it. So the events tell the two
apart, and what is said of the number of requests and of their answers can be read off the parts of
a course.

A request that cannot be put together is not sent, and the call ends there. An access token with a
control character in it is no value of a header, so that the service is never asked
(`Client.minimal_of_control_character`).
-/

namespace MailRules.Mailbox

open Http (Request Response)
open Calendar (Instant)
open Json (Codec)

/-! ## Counting requests -/

/-- The request for new tokens that was sent in the event. -/
def Event.exchange? : Event → Option Request
  | call request _ => if request.authorization = none then some request else none
  | _ => none

/-- The request of a query that was sent in the event, with its answer. -/
def Event.query? : Event → Option (Request × Option Response)
  | call request answer => if request.authorization = none then none else some (request, answer)
  | _ => none

def exchanges (log : List Event) : List Request := log.filterMap Event.exchange?

def queries (log : List Event) : List (Request × Option Response) := log.filterMap Event.query?

@[simp] theorem exchanges_append (log log' : List Event) :
    exchanges (log ++ log') = exchanges log ++ exchanges log' := List.filterMap_append

@[simp] theorem queries_append (log log' : List Event) :
    queries (log ++ log') = queries log ++ queries log' := List.filterMap_append

variable {α ω : Type} {client : Client} {query : Query α} {tokens : Tokens} {now : Instant}
  {events : List Event}

theorem authorization_of_exchangeRequest? {refresh : String} {request : Request}
    (h : client.exchangeRequest? refresh = some request) : request.authorization = none := by
  simp only [Client.exchangeRequest?, Request.postForm?, Option.bind_eq_bind,
    Option.bind_eq_some_iff, Option.some.injEq] at h
  obtain ⟨address, -, rfl⟩ := h
  rfl

theorem Query.authorization_ne_none {token : String} {request : Request}
    (h : query.request? client token = some request) : request.authorization ≠ none := by
  obtain ⟨authorization, -, hauthorization⟩ := query.bears h
  simp [hauthorization]

namespace Client

theorem Renewal.exchanges_length_le {result : Except ClientError Tokens}
    (h : client.Renewal tokens events result) : (exchanges events).length ≤ 1 := by
  cases h with
  | noRefreshToken | noRequest => exact Nat.zero_le 1
  | refused _ request_eq | endless _ request_eq | unsaved _ request_eq | kept _ request_eq =>
    simp [exchanges, Event.exchange?, authorization_of_exchangeRequest? request_eq]

theorem Renewal.queries_eq {result : Except ClientError Tokens}
    (h : client.Renewal tokens events result) : queries events = [] := by
  cases h with
  | noRefreshToken | noRequest => rfl
  | refused _ request_eq | endless _ request_eq | unsaved _ request_eq | kept _ request_eq =>
    simp [queries, Event.query?, authorization_of_exchangeRequest? request_eq]

theorem Renewal.ne_unauthorized {error : ClientError}
    (h : client.Renewal tokens events (.error error)) : error ≠ .unauthorized := by
  cases h <;> simp

/-- Where there is a request for new tokens, a renewal begins with it. -/
theorem Renewal.exists_call {result : Except ClientError Tokens} {request : Request}
    (h : client.Renewal tokens events result) (refreshable : tokens.refresh ≠ "")
    (request_eq : client.exchangeRequest? tokens.refresh = some request) :
    ∃ answer rest, events = .call request answer :: rest := by
  have hsame {r : Request} (h : client.exchangeRequest? tokens.refresh = some r) : r = request :=
    Option.some.inj (h.symm.trans request_eq)
  cases h with
  | noRefreshToken empty => exact absurd empty refreshable
  | noRequest _ none_eq => cases none_eq.symm.trans request_eq
  | refused _ h | endless _ h | unsaved _ h | kept _ h =>
    rw [hsame h]
    exact ⟨_, _, rfl⟩

theorem Opening.exchanges_length_le {result : Except ClientError Tokens}
    (h : client.Opening tokens now events result) : (exchanges events).length ≤ 1 := by
  cases h with
  | beyondCalendar | lasting => exact Nat.zero_le 1
  | due _ _ renewal => exact renewal.exchanges_length_le

theorem Opening.queries_eq {result : Except ClientError Tokens}
    (h : client.Opening tokens now events result) : queries events = [] := by
  cases h with
  | beyondCalendar | lasting => rfl
  | due _ _ renewal => exact renewal.queries_eq

theorem Opening.ne_unauthorized {error : ClientError}
    (h : client.Opening tokens now events (.error error)) : error ≠ .unauthorized := by
  cases h with
  | beyondCalendar => simp
  | due _ _ renewal => exact renewal.ne_unauthorized

end Client

section Attempt

variable {token : String}

theorem Attempt.exchanges_eq {result : Except ClientError Response}
    (h : Attempt (query.request? client token) events result) : exchanges events = [] := by
  cases h with
  | noRequest => rfl
  | unanswered request_eq | answered request_eq =>
    simp [exchanges, Event.exchange?, Query.authorization_ne_none request_eq]

theorem Attempt.queries_of_ok {response : Response}
    (h : Attempt (query.request? client token) events (.ok response)) :
    ∃ request, query.request? client token = some request ∧
      queries events = [(request, some response)] := by
  cases h with
  | @answered request _ request_eq =>
    exact ⟨request, request_eq, by
      simp [queries, Event.query?, Query.authorization_ne_none request_eq]⟩

theorem Attempt.queries_of_error {error : ClientError}
    (h : Attempt (query.request? client token) events (.error error)) :
    error = .notSent ∧ (queries events = [] ∨ ∃ request,
      query.request? client token = some request ∧ queries events = [(request, none)]) := by
  cases h with
  | noRequest => exact ⟨rfl, Or.inl rfl⟩
  | @unanswered request request_eq =>
    refine ⟨rfl, Or.inr ⟨request, request_eq, ?_⟩⟩
    simp [queries, Event.query?, Query.authorization_ne_none request_eq]

end Attempt

/-! ## What the answers come to -/

/-- The requests that were sent for a query with their answers, and what comes of the call. -/
inductive Verdict (codec : Codec α) :
    List (Request × Option Response) → Except ClientError α → Prop
  | unasked {error : ClientError} (ne : error ≠ .unauthorized) : Verdict codec [] (.error error)
  | unanswered {r : Request} : Verdict codec [(r, none)] (.error .notSent)
  | decided {r : Request} {a : Response} {result : Except ClientError α}
      (status_ne : a.status ≠ 401) (decides : Decides codec a result) :
      Verdict codec [(r, some a)] result
  | abandoned {r : Request} {a : Response} {error : ClientError} (status_eq : a.status = 401)
      (ne : error ≠ .unauthorized) : Verdict codec [(r, some a)] (.error error)
  | resent {r r' : Request} {a : Response} {answer : Option Response}
      {result : Except ClientError α} (status_eq : a.status = 401)
      (same : r' = { r with authorization := r'.authorization })
      (last : answer = none ∧ result = .error .notSent ∨
        ∃ a', answer = some a' ∧ (a'.status = 401 ∧ result = .error .unauthorized ∨
          a'.status ≠ 401 ∧ Decides codec a' result)) :
      Verdict codec [(r, some a), (r', answer)] result

theorem Decides.ne_unauthorized {codec : Codec α} {response : Response}
    {result : Except ClientError α} (h : Decides codec response result) :
    result ≠ .error .unauthorized := by
  cases h <;> simp

namespace Client

variable {result : Except ClientError α}

theorem Resending.exchanges_length_le (h : client.Resending query tokens events result) :
    (exchanges events).length ≤ 1 := by
  cases h with
  | unrenewed renewal => exact renewal.exchanges_length_le
  | unsent renewal attempt | unauthorized renewal attempt | accepted renewal attempt =>
    rw [exchanges_append, attempt.exchanges_eq, List.append_nil]
    exact renewal.exchanges_length_le

theorem Course.exchanges_length_le (h : client.Course query tokens now events result) :
    (exchanges events).length ≤ 2 := by
  cases h with
  | unopened opening => exact opening.exchanges_length_le.trans one_le_two
  | unsent opening attempt | accepted opening attempt =>
    rw [exchanges_append, attempt.exchanges_eq, List.append_nil]
    exact opening.exchanges_length_le.trans one_le_two
  | turnedDown opening attempt _ resending =>
    rw [exchanges_append, exchanges_append, attempt.exchanges_eq, List.nil_append,
      List.length_append]
    exact Nat.add_le_add opening.exchanges_length_le resending.exchanges_length_le

theorem Resending.verdict {token : String} {r : Request} {a : Response}
    (h : client.Resending query tokens events result)
    (request_eq : query.request? client token = some r) (status_eq : a.status = 401) :
    Verdict query.codec ((r, some a) :: queries events) result := by
  cases h with
  | unrenewed renewal =>
    rw [renewal.queries_eq]
    exact .abandoned status_eq renewal.ne_unauthorized
  | unsent renewal attempt =>
    rw [queries_append, renewal.queries_eq, List.nil_append]
    obtain ⟨rfl, hnone | ⟨r', request_eq', hsent⟩⟩ := attempt.queries_of_error
    · rw [hnone]
      exact .abandoned status_eq (by simp)
    · rw [hsent]
      exact .resent status_eq (query.request?_congr request_eq request_eq') (Or.inl ⟨rfl, rfl⟩)
  | unauthorized renewal attempt status_eq' =>
    obtain ⟨r', request_eq', hsent⟩ := attempt.queries_of_ok
    rw [queries_append, renewal.queries_eq, List.nil_append, hsent]
    exact .resent status_eq (query.request?_congr request_eq request_eq')
      (Or.inr ⟨_, rfl, Or.inl ⟨status_eq', rfl⟩⟩)
  | accepted renewal attempt status_ne decides =>
    obtain ⟨r', request_eq', hsent⟩ := attempt.queries_of_ok
    rw [queries_append, renewal.queries_eq, List.nil_append, hsent]
    exact .resent status_eq (query.request?_congr request_eq request_eq')
      (Or.inr ⟨_, rfl, Or.inr ⟨status_ne, decides⟩⟩)

/-- **The answers of the service decide the result.** -/
theorem Course.verdict (h : client.Course query tokens now events result) :
    Verdict query.codec (queries events) result := by
  cases h with
  | unopened opening =>
    rw [opening.queries_eq]
    exact .unasked opening.ne_unauthorized
  | unsent opening attempt =>
    rw [queries_append, opening.queries_eq, List.nil_append]
    obtain ⟨rfl, hnone | ⟨r, -, hsent⟩⟩ := attempt.queries_of_error
    · rw [hnone]
      exact .unasked (by simp)
    · rw [hsent]
      exact .unanswered
  | turnedDown opening attempt status_eq resending =>
    obtain ⟨r, request_eq, hsent⟩ := attempt.queries_of_ok
    rw [queries_append, queries_append, opening.queries_eq, hsent]
    exact resending.verdict request_eq status_eq
  | accepted opening attempt status_ne decides =>
    obtain ⟨r, -, hsent⟩ := attempt.queries_of_ok
    rw [queries_append, opening.queries_eq, List.nil_append, hsent]
    exact .decided status_ne decides

/-- The events of the opening come first, and if a request follows them at once it is no exchange.
-/
theorem Course.exists_opening (h : client.Course query tokens now events result) :
    ∃ opened held rest, client.Opening tokens now opened held ∧ events = opened ++ rest ∧
      ∀ request answer more, rest = .call request answer :: more →
        request.authorization ≠ none := by
  cases h with
  | unopened opening => exact ⟨_, _, [], opening, (List.append_nil _).symm, by simp⟩
  | unsent opening attempt =>
    refine ⟨_, _, _, opening, rfl, fun request answer more hrest ↦ ?_⟩
    cases attempt with
    | noRequest => cases hrest
    | unanswered request_eq =>
      cases hrest
      exact Query.authorization_ne_none request_eq
  | turnedDown opening attempt | accepted opening attempt =>
    refine ⟨_, _, _, opening, rfl, fun request answer more hrest ↦ ?_⟩
    cases attempt with
    | answered request_eq =>
      cases hrest
      exact Query.authorization_ne_none request_eq

/-- **A call begins with an exchange exactly if the tokens are about to expire.** -/
theorem Course.exchange_first_iff (h : client.Course query tokens now events result)
    {request : Request} {soon : Instant} (refreshable : tokens.refresh ≠ "")
    (request_eq : client.exchangeRequest? tokens.refresh = some request)
    (soon_eq : now.addSeconds? refreshBuffer = some soon) :
    (∃ answer rest, events = .clock now :: .call request answer :: rest) ↔
      soon.before tokens.expires = false := by
  obtain ⟨opened, held, rest, opening, rfl, hrest⟩ := h.exists_opening
  cases opening with
  | beyondCalendar none_eq => cases none_eq.symm.trans soon_eq
  | lasting soon_eq' lasts =>
    obtain rfl := Option.some.inj (soon_eq'.symm.trans soon_eq)
    constructor
    · rintro ⟨answer, more, hevents⟩
      exact absurd (authorization_of_exchangeRequest? request_eq)
        (hrest request answer more (List.cons.inj hevents).2)
    · intro hends
      rw [lasts] at hends
      cases hends
  | due soon_eq' ends renewal =>
    obtain rfl := Option.some.inj (soon_eq'.symm.trans soon_eq)
    obtain ⟨answer, more, rfl⟩ := renewal.exists_call refreshable request_eq
    exact ⟨fun _ ↦ ends, fun _ ↦ ⟨answer, more ++ rest, rfl⟩⟩

end Client

/-! ## The protocol -/

namespace Verdict

variable {codec : Codec α} {sent : List (Request × Option Response)} {result : Except ClientError α}

theorem length_le (h : Verdict codec sent result) : sent.length ≤ 2 := by
  cases h <;> simp

theorem resent_iff (h : Verdict codec sent result) {r r' : Request}
    {answer answer' : Option Response} (hsent : sent = [(r, answer), (r', answer')]) :
    (∃ a, answer = some a ∧ a.status = 401) ∧
      r' = { r with authorization := r'.authorization } := by
  cases h with
  | unasked | unanswered | decided | abandoned => simp at hsent
  | resent status_eq same =>
    cases hsent
    exact ⟨⟨_, rfl, status_eq⟩, same⟩

theorem unauthorized_iff (h : Verdict codec sent result) :
    result = .error .unauthorized ↔ ∃ r a r' a', sent = [(r, some a), (r', some a')] ∧
      a.status = 401 ∧ a'.status = 401 := by
  cases h with
  | unasked ne => simp [ne]
  | unanswered => simp
  | decided _ decides => simp [decides.ne_unauthorized]
  | abandoned _ ne => simp [ne]
  | resent status_eq _ last =>
    obtain ⟨rfl, rfl⟩ | ⟨a', rfl, ⟨status_eq', rfl⟩ | ⟨status_ne, decides⟩⟩ := last
    · simp
    · simp [status_eq, status_eq']
    · simp [decides.ne_unauthorized, status_ne]

theorem decides_of_last (h : Verdict codec sent result) {before : List (Request × Option Response)}
    {r : Request} {a : Response} (hsent : sent = before ++ [(r, some a)])
    (status_ne : a.status ≠ 401) : Decides codec a result := by
  have hlast : sent.getLast? = some (r, some a) := by rw [hsent, List.getLast?_concat]
  cases h with
  | unasked => cases hlast
  | unanswered => cases hlast
  | decided _ decides =>
    cases hlast
    exact decides
  | abandoned status_eq =>
    cases hlast
    exact absurd status_eq status_ne
  | resent _ _ last =>
    obtain ⟨rfl, rfl⟩ | ⟨a', rfl, ⟨status_eq', rfl⟩ | ⟨-, decides⟩⟩ := last
    · cases hlast
    · cases hlast
      exact absurd status_eq' status_ne
    · cases hlast
      exact decides

end Verdict

namespace Client

/-- **What a call sends, and what decides it.** Every call takes one of its courses. It begins with
an exchange exactly if the tokens expire within the buffer, if there is a request for one; it sends
at most two exchanges and its own request at most twice. The second time is after a 401, and only
the token is another. The call is unauthorized exactly if both answers are a 401, and any other last
answer decides what comes of it. -/
theorem query_protocol (client : Client) (host : Host ω) (query : Query α) (tokens : Tokens)
    (w : ω) :
    let run := (query.step client host.watched).run ⟨tokens, (w, [])⟩
    let log := run.2.world.2
    let now := (host.now.run w).1
    run.1 = ((query.step client host).run ⟨tokens, w⟩).1 ∧
      client.Course query tokens now log run.1 ∧
      (∀ request soon, tokens.refresh ≠ "" →
        client.exchangeRequest? tokens.refresh = some request →
        now.addSeconds? refreshBuffer = some soon →
        ((∃ answer rest, log = .clock now :: .call request answer :: rest) ↔
          soon.before tokens.expires = false)) ∧
      (exchanges log).length ≤ 2 ∧ (queries log).length ≤ 2 ∧
      (∀ r answer r' answer', queries log = [(r, answer), (r', answer')] →
        (∃ a, answer = some a ∧ a.status = 401) ∧
          r' = { r with authorization := r'.authorization }) ∧
      (run.1 = .error .unauthorized ↔ ∃ r a r' a',
        queries log = [(r, some a), (r', some a')] ∧ a.status = 401 ∧ a'.status = 401) ∧
      ∀ before r a, queries log = before ++ [(r, some a)] → a.status ≠ 401 →
        Decides query.codec a run.1 := by
  intro run log now
  have hwatched : run.1 = ((query.step client host).run ⟨tokens, w⟩).1 := by
    have hfollows : Follows Session.unwatched ⟨tokens, (w, [])⟩ (query.step client host.watched)
        (query.step client host) := by
      rw [Query.step_eq_call, Query.step_eq_call]
      exact call_watched _ _ _
    exact (congrArg Prod.fst hfollows).symm
  have hcourse : client.Course query tokens now log run.1 := by
    obtain ⟨events, hevents, h⟩ : Writes ⟨tokens, (w, [])⟩ (query.step client host.watched) _ :=
      writes_query query _
    have hlog : log = events := hevents.trans (List.nil_append events)
    rw [hlog]
    exact h
  have hverdict : Verdict query.codec (queries log) run.1 := hcourse.verdict
  exact ⟨hwatched, hcourse, fun _ _ ↦ hcourse.exchange_first_iff, hcourse.exchanges_length_le,
    hverdict.length_le, fun _ _ _ _ ↦ hverdict.resent_iff, hverdict.unauthorized_iff,
    fun _ _ _ ↦ hverdict.decides_of_last⟩

/-- The token lasts, the service would accept it, and nothing is sent. -/
theorem minimal_of_control_character :
    let client : Client :=
      ⟨"me", "client", "secret", "http://gmail.test/v1/users", "http://oauth.test/token"⟩
    let tokens : Tokens := ⟨"bad\nvalue", "refresh", ⟨32472144000, 0⟩⟩
    let body := "\x7b\"id\":\"m1\",\"labelIds\":[\"INBOX\",\"UNREAD\"]\x7d".toList
    let script : Script := { clock := ⟨1718020800, 0⟩, answers := [⟨200, Http.bytes body⟩] }
    let run := ((Query.minimal "m1").step client Script.network.host.watched).run
      ⟨tokens, (⟨{}, script⟩, [])⟩
    tokens.needRefresh? script.clock = some false ∧ run.1 = .error .notSent ∧
      run.2.world.2 = [.clock script.clock] ∧ run.2.world.1.network.sent = [] := by
  decide +kernel

end Client

end MailRules.Mailbox
