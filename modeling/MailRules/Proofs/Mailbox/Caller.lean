import Mathlib
import MailRules.Proofs.Mailbox.Invariant

/-!
# One caller among several

When several callers use one client, its tokens are behind a lock. Whoever likes reads them as long
as nobody writes. A refresh takes the lock for itself, exchanges, saves and replaces the tokens, and
gives it back. So a call is not one step any more, and here it is cut where another caller can come
between (`Phase.move`). What is left of it at each place is a step of the client again
(`Phase.rest`), and a move takes off what it does (`Moved.run_rest`), so that all the moves of a
caller, one after the other, are the call (`Client.send`).

What a caller does to be seen fits where it is (`Story`). There is an exchange for each time that it
found tokens about to expire or was turned down (`Story.balance`).
-/

namespace MailRules.Mailbox

open Http (Request Response)
open Calendar (Instant)

/-! ## Moves -/

/-- Where a caller is. It comes to the lock `again` if the service has turned a token down. -/
inductive Phase
  | start
  | waiting (again : Bool)
  | locked (again : Bool)
  | exchanged (again : Bool) (fresh : Tokens)
  | saved (again : Bool) (fresh : Tokens)
  | replaced (again : Bool) (fresh : Tokens)
  | ready (again : Bool) (token : String)
  | done (result : Except ClientError Response)
  deriving DecidableEq

/-- The caller has the lock. -/
def Phase.holds : Phase → Bool
  | locked _ | exchanged .. | saved .. | replaced .. => true
  | _ => false

/-- The caller cannot go on while another one has the lock. -/
def Phase.waits : Phase → Bool
  | start | waiting _ => true
  | _ => false

/-- The tokens that a caller has and that are not held yet. -/
def Phase.fetched? : Phase → Option Tokens
  | exchanged _ fresh | saved _ fresh => some fresh
  | _ => none

/-- What can be seen of a caller. -/
inductive Act
  /-- It read these tokens, and its clock showed this. -/
  | found (tokens : Tokens) (now : Instant)
  | exchanged (old fresh : Tokens)
  | replaced (fresh : Tokens)
  /-- It sent its request with this token and got this answer, if any. -/
  | asked (token : String) (answer : Option Response)
  deriving DecidableEq

/-- What a move of a caller leaves, and what can be seen of it. -/
structure Move (ω : Type) where
  session : Session ω
  phase : Phase
  act : Option Act := none

/-- Where an answer takes a caller. -/
def Phase.answered (again : Bool) : Option Response → Phase
  | none => .done (.error .notSent)
  | some response =>
    if response.isUnauthorized then
      if again then .done (.error .unauthorized) else .waiting true
    else .done (.ok response)

/-- The next move of a caller that does not have to wait. -/
def Phase.move {ω : Type} (client : Client) (host : Host ω) (request : String → Option Request)
    (phase : Phase) (s : Session ω) : Move ω :=
  match phase with
  | start =>
    -- the expiry is looked at here, where the lock is only read under, and nowhere after it
    let (now, w) := host.now.run s.world
    let next : Phase := match s.tokens.needRefresh? now with
      | none => .done (.error .beyondCalendar)
      | some false => .ready false s.tokens.access
      | some true => .waiting false
    ⟨⟨s.tokens, w⟩, next, some (.found s.tokens now)⟩
  | waiting again => ⟨s, .locked again, none⟩
  | locked again =>
    match (client.exchange host s.tokens).run s.world with
    | (.error error, w) => ⟨⟨s.tokens, w⟩, .done (.error (.exchange error)), none⟩
    | (.ok fresh, w) =>
      ⟨⟨s.tokens, w⟩, .exchanged again fresh, some (.exchanged s.tokens fresh)⟩
  | exchanged again fresh =>
    match (host.save fresh).run s.world with
    | (.error reason, w) => ⟨⟨s.tokens, w⟩, .done (.error (.unsaved reason)), none⟩
    | (.ok (), w) => ⟨⟨s.tokens, w⟩, .saved again fresh, none⟩
  | saved again fresh => ⟨⟨fresh, s.world⟩, .replaced again fresh, some (.replaced fresh)⟩
  | replaced again fresh =>
    -- the lock is given back
    ⟨s, .ready again fresh.access, none⟩
  | ready again token =>
    match request token with
    | none => ⟨s, .done (.error .notSent), none⟩
    | some r =>
      let (answer, w) := (host.send r).run s.world
      ⟨⟨s.tokens, w⟩, answered again answer, some (.asked token answer)⟩
  | done result => ⟨s, .done result, none⟩

/-- What a move of a caller can come to. -/
inductive Moved {ω : Type} (client : Client) (host : Host ω) (request : String → Option Request)
    (s : Session ω) : Phase → Move ω → Prop
  | endless {now : Instant} {w : ω} (now_eq : host.now.run s.world = (now, w))
      (none_eq : s.tokens.needRefresh? now = none) :
      Moved client host request s .start
        ⟨⟨s.tokens, w⟩, .done (.error .beyondCalendar), some (.found s.tokens now)⟩
  | lasting {now : Instant} {w : ω} (now_eq : host.now.run s.world = (now, w))
      (lasts : s.tokens.needRefresh? now = some false) :
      Moved client host request s .start
        ⟨⟨s.tokens, w⟩, .ready false s.tokens.access, some (.found s.tokens now)⟩
  | due {now : Instant} {w : ω} (now_eq : host.now.run s.world = (now, w))
      (ends : s.tokens.needRefresh? now = some true) :
      Moved client host request s .start
        ⟨⟨s.tokens, w⟩, .waiting false, some (.found s.tokens now)⟩
  | taken {again : Bool} :
      Moved client host request s (.waiting again) ⟨s, .locked again, none⟩
  | refused {again : Bool} {error : ExchangeError} {w : ω}
      (exchange_eq : (client.exchange host s.tokens).run s.world = (.error error, w)) :
      Moved client host request s (.locked again)
        ⟨⟨s.tokens, w⟩, .done (.error (.exchange error)), none⟩
  | exchanged {again : Bool} {fresh : Tokens} {w : ω}
      (exchange_eq : (client.exchange host s.tokens).run s.world = (.ok fresh, w)) :
      Moved client host request s (.locked again)
        ⟨⟨s.tokens, w⟩, .exchanged again fresh, some (.exchanged s.tokens fresh)⟩
  | unsaved {again : Bool} {fresh : Tokens} {reason : String} {w : ω}
      (save_eq : (host.save fresh).run s.world = (.error reason, w)) :
      Moved client host request s (.exchanged again fresh)
        ⟨⟨s.tokens, w⟩, .done (.error (.unsaved reason)), none⟩
  | saved {again : Bool} {fresh : Tokens} {w : ω}
      (save_eq : (host.save fresh).run s.world = (.ok (), w)) :
      Moved client host request s (.exchanged again fresh)
        ⟨⟨s.tokens, w⟩, .saved again fresh, none⟩
  | replaced {again : Bool} {fresh : Tokens} :
      Moved client host request s (.saved again fresh)
        ⟨⟨fresh, s.world⟩, .replaced again fresh, some (.replaced fresh)⟩
  | released {again : Bool} {fresh : Tokens} :
      Moved client host request s (.replaced again fresh) ⟨s, .ready again fresh.access, none⟩
  | unsent {again : Bool} {token : String} (none_eq : request token = none) :
      Moved client host request s (.ready again token) ⟨s, .done (.error .notSent), none⟩
  | unanswered {again : Bool} {token : String} {r : Request} {w : ω}
      (request_eq : request token = some r) (sent : (host.send r).run s.world = (none, w)) :
      Moved client host request s (.ready again token)
        ⟨⟨s.tokens, w⟩, .done (.error .notSent), some (.asked token none)⟩
  | denied {token : String} {r : Request} {response : Response} {w : ω}
      (request_eq : request token = some r)
      (sent : (host.send r).run s.world = (some response, w))
      (unauthorized : response.isUnauthorized) :
      Moved client host request s (.ready false token)
        ⟨⟨s.tokens, w⟩, .waiting true, some (.asked token (some response))⟩
  | deniedAgain {token : String} {r : Request} {response : Response} {w : ω}
      (request_eq : request token = some r)
      (sent : (host.send r).run s.world = (some response, w))
      (unauthorized : response.isUnauthorized) :
      Moved client host request s (.ready true token)
        ⟨⟨s.tokens, w⟩, .done (.error .unauthorized), some (.asked token (some response))⟩
  | answered {again : Bool} {token : String} {r : Request} {response : Response} {w : ω}
      (request_eq : request token = some r)
      (sent : (host.send r).run s.world = (some response, w))
      (authorized : ¬response.isUnauthorized) :
      Moved client host request s (.ready again token)
        ⟨⟨s.tokens, w⟩, .done (.ok response), some (.asked token (some response))⟩
  | ended {result : Except ClientError Response} :
      Moved client host request s (.done result) ⟨s, .done result, none⟩

variable {ω : Type} {client : Client} {host : Host ω} {request : String → Option Request}
  {s : Session ω} {phase : Phase} {move : Move ω}

theorem moved_move (client : Client) (host : Host ω) (request : String → Option Request)
    (phase : Phase) (s : Session ω) :
    Moved client host request s phase (phase.move client host request s) := by
  cases phase with
  | start =>
    rcases hnow : host.now.run s.world with ⟨now, w⟩
    simp only [Phase.move, hnow]
    rcases hdue : s.tokens.needRefresh? now with _ | _ | _
    · exact .endless hnow hdue
    · exact .lasting hnow hdue
    · exact .due hnow hdue
  | waiting again => exact .taken
  | locked again =>
    rcases hexchange : (client.exchange host s.tokens).run s.world with ⟨error | fresh, w⟩
    · simp only [Phase.move, hexchange]
      exact .refused hexchange
    · simp only [Phase.move, hexchange]
      exact .exchanged hexchange
  | exchanged again fresh =>
    rcases hsave : (host.save fresh).run s.world with ⟨reason | ⟨⟩, w⟩
    · simp only [Phase.move, hsave]
      exact .unsaved hsave
    · simp only [Phase.move, hsave]
      exact .saved hsave
  | saved again fresh => exact .replaced
  | replaced again fresh => exact .released
  | ready again token =>
    cases hrequest : request token with
    | none =>
      simp only [Phase.move, hrequest]
      exact .unsent hrequest
    | some r =>
      rcases hsend : (host.send r).run s.world with ⟨_ | response, w⟩
      · simp only [Phase.move, hrequest, hsend]
        exact .unanswered hrequest hsend
      · simp only [Phase.move, hrequest, hsend, Phase.answered]
        by_cases hdenied : response.isUnauthorized
        · cases again with
          | false =>
            rw [if_pos hdenied, if_neg Bool.false_ne_true]
            exact .denied hrequest hsend hdenied
          | true =>
            rw [if_pos hdenied, if_pos rfl]
            exact .deniedAgain hrequest hsend hdenied
        · rw [if_neg hdenied]
          exact .answered hrequest hsend hdenied
  | done result => exact .ended

theorem Phase.holds_of_fetched {fresh : Tokens} (h : phase.fetched? = some fresh) :
    phase.holds := by
  cases phase with
  | exchanged | saved => rfl
  | _ => cases h

/-- Nobody comes to have the lock but by asking for it. -/
theorem Moved.holds (h : Moved client host request s phase move) (hholds : move.phase.holds) :
    phase.holds ∨ phase.waits := by
  cases h with
  | taken => exact Or.inr rfl
  | exchanged | saved | replaced => exact Or.inl rfl
  | _ => cases hholds

/-! ## The call as a whole -/

/-- What a call does once it has a token. -/
def Client.ask (client : Client) (host : Host ω) (request : String → Option Request)
    (again : Bool) (token : String) : Step (Session ω) ClientError Response := do
  let response ← attempt host (request token)
  if response.isUnauthorized then
    if again then throw .unauthorized
    else
      let fresh ← client.refresh host
      let second ← attempt host (request fresh.access)
      if second.isUnauthorized then throw .unauthorized else pure second
  else pure response

/-- What is left of a call, as a step. -/
def Phase.rest (client : Client) (host : Host ω) (request : String → Option Request) :
    Phase → Step (Session ω) ClientError Response
  | start => client.send host request
  | waiting again | locked again => do
    let fresh ← client.refresh host
    client.ask host request again fresh.access
  | exchanged again fresh => do
    match ← Session.outside (Step.lift (host.save fresh)) with
    | .error reason => throw (.unsaved reason)
    | .ok () =>
      modify fun s ↦ { s with tokens := fresh }
      client.ask host request again fresh.access
  | saved again fresh => do
    modify fun s ↦ { s with tokens := fresh }
    client.ask host request again fresh.access
  | replaced again fresh => client.ask host request again fresh.access
  | ready again token => client.ask host request again token
  | done result => liftExcept result

/-- The access token of a caller whose clock shows this. -/
theorem run_accessToken (client : Client) {host : Host ω} {s : Session ω} {now : Instant} {w : ω}
    (h : host.now.run s.world = (now, w)) :
    (client.accessToken host).run s =
      match s.tokens.needRefresh? now with
      | none => (.error .beyondCalendar, ⟨s.tokens, w⟩)
      | some false => (.ok s.tokens.access, ⟨s.tokens, w⟩)
      | some true => (Tokens.access <$> client.refresh host).run ⟨s.tokens, w⟩ := by
  have hnow : (Session.outside (Step.lift host.now) : Step (Session ω) ClientError Instant).run s =
      (.ok now, ⟨s.tokens, w⟩) := by rw [run_outside, Step.run_lift, h]
  rw [Client.accessToken, Step.run_bind_of_ok (Step.run_get s), Step.run_bind_of_ok hnow]
  rcases s.tokens.needRefresh? now with _ | _ | _
  · rfl
  · rfl
  · rw [map_eq_pure_bind]

theorem run_attempt {host : Host ω} {request : Option Request} {r : Request} {s : Session ω}
    {answer : Option Response} {w : ω} (request_eq : request = some r)
    (sent : (host.send r).run s.world = (answer, w)) :
    (Client.attempt host request).run s =
      (answer.elim (.error .notSent) Except.ok, ⟨s.tokens, w⟩) := by
  subst request_eq
  have hsend : (Session.outside (Step.lift (host.send r)) :
      Step (Session ω) ClientError (Option Response)).run s = (.ok answer, ⟨s.tokens, w⟩) := by
    rw [run_outside, Step.run_lift, sent]
  rw [Client.attempt, Step.run_bind_of_ok hsend]
  cases answer with
  | none => rfl
  | some response => rfl

/-- A caller that was answered comes to the lock again, or is through. -/
theorem run_ask {again : Bool} {token : String} {r : Request} {response : Response} {w : ω}
    (request_eq : request token = some r)
    (sent : (host.send r).run s.world = (some response, w)) :
    (client.ask host request again token).run s =
      ((Phase.answered again (some response)).rest client host request).run ⟨s.tokens, w⟩ := by
  rw [Client.ask, Step.run_bind_of_ok (run_attempt request_eq sent), Phase.answered]
  by_cases hdenied : response.isUnauthorized
  · cases again with
    | false => simp only [if_pos hdenied]; rfl
    | true => simp only [if_pos hdenied]; rfl
  · simp only [if_neg hdenied]; rfl

theorem run_rest_start : (Phase.start.rest client host request).run s =
    (client.accessToken host >>= client.ask host request false).run s := rfl

/-- **A move takes off the rest of the call what it does.** -/
theorem Moved.run_rest (h : Moved client host request s phase move) :
    (phase.rest client host request).run s =
      (move.phase.rest client host request).run move.session := by
  cases h with
  | endless now_eq none_eq =>
    rw [run_rest_start, Step.run_bind, run_accessToken client now_eq, none_eq]
    rfl
  | lasting now_eq lasts =>
    rw [run_rest_start, Step.run_bind, run_accessToken client now_eq, lasts]
    rfl
  | due now_eq ends =>
    -- the refresh is a part of `accessToken`, and what is left begins with it
    rw [run_rest_start, Step.run_bind, run_accessToken client now_eq, ends, Step.run_map,
      Phase.rest, Step.run_bind]
    rcases (client.refresh host).run _ with ⟨_ | _, _⟩ <;> rfl
  | taken => rfl
  | refused exchange_eq =>
    rw [Phase.rest, Step.run_bind, Client.run_refresh, exchange_eq]
    rfl
  | @exchanged again fresh w exchange_eq =>
    rw [Phase.rest, Phase.rest, Step.run_bind, Step.run_bind, Client.run_refresh, exchange_eq,
      run_outside, Step.run_lift]
    dsimp only
    rcases (host.save fresh).run w with ⟨_ | ⟨⟩, _⟩ <;> rfl
  | unsaved save_eq | saved save_eq =>
    rw [Phase.rest, Step.run_bind, run_outside, Step.run_lift, save_eq]
    rfl
  | replaced => rfl
  | released => rfl
  | unsent none_eq =>
    rw [Phase.rest, Client.ask, none_eq]
    rfl
  | unanswered request_eq sent =>
    rw [Phase.rest, Client.ask, Step.run_bind_of_error (run_attempt request_eq sent)]
    rfl
  | denied request_eq sent unauthorized | deniedAgain request_eq sent unauthorized =>
    refine (run_ask request_eq sent).trans ?_
    rw [Phase.answered, if_pos unauthorized]
    rfl
  | answered request_eq sent authorized =>
    refine (run_ask request_eq sent).trans ?_
    rw [Phase.answered, if_neg authorized]
  | ended => rfl

/-- A caller is through after so many moves at most. -/
def Phase.rank : Phase → ℕ
  | start => 13
  | waiting again => if again then 6 else 12
  | locked again => if again then 5 else 11
  | exchanged again _ => if again then 4 else 10
  | saved again _ => if again then 3 else 9
  | replaced again _ => if again then 2 else 8
  | ready again _ => if again then 1 else 7
  | done _ => 0

theorem Moved.rank_le (h : Moved client host request s phase move) :
    move.phase.rank ≤ phase.rank - 1 := by
  cases h with
  | @exchanged again | @saved again | @replaced again | @released again | @taken again =>
    cases again <;> simp [Phase.rank]
  | _ => simp [Phase.rank]

theorem Phase.eq_done_of_rank_eq_zero (h : phase.rank = 0) : ∃ result, phase = .done result := by
  cases phase with
  | done result => exact ⟨result, rfl⟩
  | start => cases h
  | waiting again | locked again | exchanged again _ | saved again _ | replaced again _
  | ready again _ => cases again <;> cases h

/-! ## What a caller has done -/

/-- The acts with which a caller gets to where it is. -/
inductive Story : Phase → List Act → Prop
  | start : Story .start []
  | lasting {tokens : Tokens} {now : Instant} (lasts : tokens.needRefresh? now = some false) :
      Story (.ready false tokens.access) [.found tokens now]
  | due {tokens : Tokens} {now : Instant} (ends : tokens.needRefresh? now = some true) :
      Story (.waiting false) [.found tokens now]
  | locked {again : Bool} {acts : List Act} (before : Story (.waiting again) acts) :
      Story (.locked again) acts
  | exchanged {again : Bool} {old fresh : Tokens} {acts : List Act}
      (before : Story (.locked again) acts) :
      Story (.exchanged again fresh) (acts ++ [.exchanged old fresh])
  | saved {again : Bool} {fresh : Tokens} {acts : List Act}
      (before : Story (.exchanged again fresh) acts) : Story (.saved again fresh) acts
  | replaced {again : Bool} {fresh : Tokens} {acts : List Act}
      (before : Story (.saved again fresh) acts) :
      Story (.replaced again fresh) (acts ++ [.replaced fresh])
  | ready {again : Bool} {fresh : Tokens} {acts : List Act}
      (before : Story (.replaced again fresh) acts) : Story (.ready again fresh.access) acts
  | denied {token : String} {response : Response} {acts : List Act}
      (before : Story (.ready false token) acts) (unauthorized : response.isUnauthorized) :
      Story (.waiting true) (acts ++ [.asked token (some response)])
  | answered {again : Bool} {token : String} {response : Response} {acts : List Act}
      (before : Story (.ready again token) acts) (authorized : ¬response.isUnauthorized) :
      Story (.done (.ok response)) (acts ++ [.asked token (some response)])
  | failed {error : ClientError} {acts : List Act} : Story (.done (.error error)) acts

variable {acts : List Act} {token : String} {response : Response}

/-- **What a caller does goes on with its story.** -/
theorem Story.step (h : Story phase acts) (hmoved : Moved client host request s phase move) :
    Story move.phase (acts ++ move.act.toList) := by
  cases hmoved with
  | endless | refused | unsaved | unsent | unanswered | deniedAgain => exact .failed
  | lasting _ lasts =>
    cases h
    exact .lasting lasts
  | due _ ends =>
    cases h
    exact .due ends
  | taken => exact (List.append_nil acts).symm ▸ .locked h
  | exchanged => exact .exchanged h
  | saved => exact (List.append_nil acts).symm ▸ .saved h
  | replaced => exact .replaced h
  | released => exact (List.append_nil acts).symm ▸ .ready h
  | denied _ _ unauthorized => exact .denied h unauthorized
  | answered _ _ authorized => exact .answered h authorized
  | ended => exact (List.append_nil acts).symm ▸ h

/-! ## How many exchanges there are -/

/-- The act is an exchange. -/
def Act.renews : Act → Bool
  | exchanged .. => true
  | _ => false

/-- The caller has found tokens that are about to expire. -/
def Act.findsExpiring : Act → Bool
  | found tokens now => tokens.needRefresh? now = some true
  | _ => false

/-- The service has turned the token down. -/
def Act.isDenied : Act → Bool
  | asked _ (some response) => response.isUnauthorized
  | _ => false

/-- The caller has a reason for an exchange that it has not made yet. -/
def Phase.owes : Phase → Bool
  | waiting _ | locked _ => true
  | _ => false

/-- **There is one exchange for each time that tokens were found about to expire or a token was
turned down**, unless the caller has failed. -/
theorem Story.balance (h : Story phase acts) (hrunning : ∀ error, phase ≠ .done (.error error)) :
    acts.countP Act.renews + phase.owes.toNat =
      acts.countP Act.findsExpiring + acts.countP Act.isDenied := by
  induction h with
  | start => rfl
  | lasting lasts => simp [Act.renews, Act.findsExpiring, Act.isDenied, lasts, Phase.owes]
  | due ends => simp [Act.renews, Act.findsExpiring, Act.isDenied, ends, Phase.owes]
  | failed => exact absurd rfl (hrunning _)
  | locked _ ih | saved _ ih | ready _ ih => exact ih (by simp)
  | exchanged _ ih | replaced _ ih =>
    -- an exchange is what was owed before it
    have := ih (by simp)
    simpa [Act.renews, Act.findsExpiring, Act.isDenied, Phase.owes] using this
  | denied _ unauthorized ih =>
    have := ih (by simp)
    simp [Act.renews, Act.findsExpiring, Act.isDenied, Phase.owes, unauthorized] at this ⊢
    omega
  | answered _ authorized ih =>
    have := ih (by simp)
    simpa [Act.renews, Act.findsExpiring, Act.isDenied, Phase.owes, authorized] using this

/-- What was replaced had been exchanged just before. -/
theorem Story.of_replaced {again : Bool} {fresh : Tokens} (h : Story (.replaced again fresh) acts) :
    ∃ old before, Story (.waiting again) before ∧
      acts = before ++ [.exchanged old fresh, .replaced fresh] := by
  cases h with
  | replaced hsaved =>
    cases hsaved with
    | saved hexchanged =>
      cases hexchanged with
      | exchanged hlocked =>
        cases hlocked with
        | locked hwaiting => exact ⟨_, _, hwaiting, List.append_assoc _ _ _⟩

/-- A caller that has not been turned down sends the token it found, or that of its own exchange. -/
theorem Story.of_ready (h : Story (.ready false token) acts) :
    (∃ tokens now, tokens.needRefresh? now = some false ∧ token = tokens.access ∧
      acts = [.found tokens now]) ∨
    ∃ tokens now old fresh, tokens.needRefresh? now = some true ∧ token = fresh.access ∧
      acts = [.found tokens now, .exchanged old fresh, .replaced fresh] := by
  cases h with
  | lasting lasts => exact Or.inl ⟨_, _, lasts, rfl, rfl⟩
  | ready hreplaced =>
    obtain ⟨old, before, hwaiting, rfl⟩ := hreplaced.of_replaced
    cases hwaiting with
    | due ends => exact Or.inr ⟨_, _, old, _, ends, rfl, rfl⟩

/-- A caller that comes to the lock again was turned down. -/
theorem Story.isDenied_of_ready (h : Story (.ready true token) acts) :
    acts.countP Act.isDenied ≠ 0 := by
  cases h with
  | ready hreplaced =>
    obtain ⟨old, before, hwaiting, rfl⟩ := hreplaced.of_replaced
    cases hwaiting with
    | denied _ unauthorized => simp [Act.isDenied, unauthorized]

/-- **A caller that was never turned down has made one request**, with the tokens it found or with
those of its own exchange. -/
theorem Story.of_answered (h : Story (.done (.ok response)) acts)
    (hnever : acts.countP Act.isDenied = 0) :
    (∃ tokens now, tokens.needRefresh? now = some false ∧
      acts = [.found tokens now, .asked tokens.access (some response)]) ∨
    ∃ tokens now old fresh, tokens.needRefresh? now = some true ∧
      acts = [.found tokens now, .exchanged old fresh, .replaced fresh,
        .asked fresh.access (some response)] := by
  cases h with
  | @answered again _ _ _ hready authorized =>
    cases again with
    | true =>
      rw [List.countP_append] at hnever
      exact absurd (Nat.eq_zero_of_add_eq_zero_right hnever) hready.isDenied_of_ready
    | false =>
      rcases hready.of_ready with ⟨tokens, now, lasts, rfl, rfl⟩ |
        ⟨tokens, now, old, fresh, ends, rfl, rfl⟩
      · exact Or.inl ⟨tokens, now, lasts, rfl⟩
      · exact Or.inr ⟨tokens, now, old, fresh, ends, rfl⟩

end MailRules.Mailbox
