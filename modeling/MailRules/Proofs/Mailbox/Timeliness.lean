import Mathlib
import MailRules.Proofs.Mailbox.Rotation

/-!
# When tokens are renewed

A call renews the tokens before it sends its request if they have no more than a buffer of time
left, and not otherwise. That is one look at the clock, compared with an expiry that was written
down in another call, at another reading of the clock. Two statements about a run come of it
(`Client.renewals_timely`). A request that no exchange of its call precedes bears a token that lasts
longer than the buffer. And an exchange that does not answer a 401 comes no earlier than the buffer
before the end of the lifetime that was granted last.

Both are said of every request of a call together with the events before it (`Throughout`), so that
they can be read off the parts of a course one after the other. The second needs to know where the
expiry comes from: tokens are kept only as they were granted (`OfGrants`), so the last grant in the
events decides it (`LastGranted.expires_eq`). The clock may go backwards, any answer may come, and
tokens may be refused by whoever keeps them.
-/

namespace MailRules

namespace Calendar.Instant

variable {t u : Instant} {seconds : ℤ}

/-- The instant so many seconds later, whether or not the calendar has it. A leap second counts as
the end of its minute. -/
def after (t : Instant) (seconds : ℤ) : Instant :=
  ⟨t.secs + seconds, if t.isLeapSecond then t.nanos - nanosPerSecond else t.nanos⟩

theorem eq_after_of_addSeconds? (h : 0 < seconds) (hsum : t.addSeconds? seconds = some u) :
    u = t.after seconds :=
  ((addSeconds?_eq_some_iff_of_pos h).mp hsum).2

theorem after_nanos_le (t : Instant) (seconds : ℤ) : (t.after seconds).nanos ≤ t.nanos := by
  rw [after]
  split
  · exact Nat.sub_le _ _
  · exact le_rfl

/-- What is not over yet in so many seconds does not end before so many seconds from now. -/
theorem not_before_after_sub {lifetime : ℤ}
    (h : (u.after seconds).before (t.after lifetime) = false) :
    u.before (t.after (lifetime - seconds)) = false := by
  have hnanos := u.after_nanos_le seconds
  simp only [before, Bool.or_eq_false_iff, Bool.and_eq_false_iff, decide_eq_false_iff_not,
    beq_eq_false_iff_ne] at h ⊢
  simp only [after] at h hnanos ⊢
  omega

end Calendar.Instant

namespace Mailbox

open Http (Request Response)
open Calendar (Instant)

/-! ## Events with those before them -/

section Throughout

variable {ε : Type}

/-- This is so of each event and the events before it. -/
def Throughout (P : List ε → ε → Prop) (log : List ε) : Prop :=
  ∀ before event after, log = before ++ event :: after → P before event

variable {P : List ε → ε → Prop} {log later : List ε} {event : ε}

theorem throughout_nil : Throughout P [] := by
  intro before event after h
  simp at h

theorem Throughout.append (h : Throughout P log)
    (h' : Throughout (fun before event ↦ P (log ++ before) event) later) :
    Throughout P (log ++ later) := by
  intro before event after hsplit
  rcases List.append_eq_append_iff.mp hsplit with ⟨begun, rfl, hlater⟩ | ⟨rest, hlog, hrest⟩
  · exact h' begun event after hlater
  · cases rest with
    | nil =>
      rw [List.append_nil] at hlog
      simpa [hlog] using h' [] event after hrest.symm
    | cons first rest =>
      obtain ⟨rfl, -⟩ := List.cons.inj hrest
      exact h before event rest hlog

theorem Throughout.cons (h : P [] event)
    (h' : Throughout (fun before next ↦ P (event :: before) next) log) :
    Throughout P (event :: log) := by
  intro before next after hsplit
  cases before with
  | nil =>
    obtain ⟨rfl, -⟩ := List.cons.inj hsplit
    exact h
  | cons first before =>
    obtain ⟨rfl, hlog⟩ := List.cons.inj hsplit
    exact h' before next after hlog

end Throughout

/-! ## The requests of a call -/

/-- A new token is due: the service has turned one down, or the one that the call began with does
not last, and it has not been replaced yet. -/
def Due (tokens : Tokens) (now : Instant) (before : List Event) : Prop :=
  (∃ r a, (r, some a) ∈ queries before ∧ a.status = 401) ∨
    (now.after refreshBuffer).before tokens.expires = false ∧ KeepsNothing before

/-- How a request stands to the events before it in a call that began at `now` with `tokens`. A
request of the query that no exchange precedes bears a token that lasts, and an exchange comes where
a new token is due. -/
def Timely (tokens : Tokens) (now : Instant) (before : List Event) (event : Event) : Prop :=
  ∀ request answer, event = .call request answer →
    (request.authorization ≠ none → exchanges before = [] →
      request.Bears tokens.access ∧ (now.after refreshBuffer).before tokens.expires = true) ∧
    (request.authorization = none → Due tokens now before)

theorem refreshBuffer_pos : 0 < refreshBuffer := by decide

section Timely

variable {α : Type} {client : Client} {query : Query α} {tokens : Tokens} {now : Instant}
  {before events : List Event}

/-- Looking at the clock and keeping tokens send nothing. -/
theorem timely_of_ne_call {event : Event} (h : ∀ request answer, event ≠ .call request answer) :
    Timely tokens now before event :=
  fun request answer hevent ↦ absurd hevent (h request answer)

theorem timely_exchange {refresh : String} {request : Request} {answer : Option Response}
    (request_eq : client.exchangeRequest? refresh = some request) (h : Due tokens now before) :
    Timely tokens now before (.call request answer) := by
  intro request' answer' hevent
  cases hevent
  exact ⟨fun hne ↦ absurd (authorization_of_exchangeRequest? request_eq) hne, fun _ ↦ h⟩

namespace Client

/-- A renewal sends no request but that of its exchange. -/
theorem Renewal.timely {held : Tokens} {result : Except ClientError Tokens}
    (h : client.Renewal held events result) (hdue : Due tokens now before) :
    Throughout (fun during event ↦ Timely tokens now (before ++ during) event) events := by
  have hquiet (during : List Event) {log : List Event} (hlog : ∀ event ∈ log, ∀ request answer,
      event ≠ .call request answer) :
      Throughout (fun more event ↦ Timely tokens now (before ++ (during ++ more)) event) log := by
    rintro more event after rfl
    exact timely_of_ne_call (hlog event (List.mem_append_right _ List.mem_cons_self))
  cases h with
  | noRefreshToken | noRequest => exact throughout_nil
  | refused _ request_eq | endless _ request_eq | unsaved _ request_eq | kept _ request_eq =>
    refine Throughout.cons (timely_exchange request_eq ?_) (hquiet [_] (by simp))
    rwa [List.append_nil]

theorem Renewal.exchanges_ne_nil {held fresh : Tokens}
    (h : client.Renewal held events (.ok fresh)) : exchanges events ≠ [] := by
  cases h with
  | kept _ request_eq =>
    simp [exchanges, Event.exchange?, authorization_of_exchangeRequest? request_eq]

theorem Opening.timely {result : Except ClientError Tokens}
    (h : client.Opening tokens now events result) : Throughout (Timely tokens now) events := by
  have hclock : Timely tokens now [] (.clock now) := timely_of_ne_call (by simp)
  cases h with
  | beyondCalendar | lasting => exact Throughout.cons hclock throughout_nil
  | due soon_eq ends renewal =>
    rw [Instant.eq_after_of_addSeconds? refreshBuffer_pos soon_eq] at ends
    have hdue : Due tokens now [.clock now] := Or.inr ⟨ends, List.forall_mem_singleton.mpr rfl⟩
    exact Throughout.cons hclock (renewal.timely hdue)

/-- A call that goes on without an exchange goes on with the tokens it began with, and they last. -/
theorem Opening.lasts {held : Tokens} (h : client.Opening tokens now events (.ok held))
    (hnone : exchanges events = []) :
    held = tokens ∧ (now.after refreshBuffer).before tokens.expires = true := by
  cases h with
  | lasting soon_eq lasts =>
    rw [Instant.eq_after_of_addSeconds? refreshBuffer_pos soon_eq] at lasts
    exact ⟨rfl, lasts⟩
  | due _ _ renewal => exact absurd hnone renewal.exchanges_ne_nil

end Client

/-- An attempt sends the request of the query, if anything. -/
theorem Attempt.timely {token : String} {result : Except ClientError Response}
    (h : Attempt (query.request? client token) events result)
    (hlasts : exchanges before = [] →
      token = tokens.access ∧ (now.after refreshBuffer).before tokens.expires = true) :
    Throughout (fun during event ↦ Timely tokens now (before ++ during) event) events := by
  have hsent {request : Request} {answer : Option Response}
      (request_eq : query.request? client token = some request) :
      Throughout (fun during event ↦ Timely tokens now (before ++ during) event)
        [.call request answer] := by
    refine Throughout.cons ?_ throughout_nil
    intro request' answer' hevent
    cases hevent
    refine ⟨fun _ hnone ↦ ?_, fun hauthorization ↦ ?_⟩
    · rw [List.append_nil] at hnone
      obtain ⟨rfl, hlast⟩ := hlasts hnone
      exact ⟨query.bears request_eq, hlast⟩
    · exact absurd hauthorization (Query.authorization_ne_none request_eq)
  cases h with
  | noRequest => exact throughout_nil
  | unanswered request_eq | answered request_eq => exact hsent request_eq

namespace Client

variable {result : Except ClientError α}

theorem Resending.timely {held : Tokens} (h : client.Resending query held events result)
    (hdenied : ∃ r a, (r, some a) ∈ queries before ∧ a.status = 401) :
    Throughout (fun during event ↦ Timely tokens now (before ++ during) event) events := by
  have hagain {again log : List Event} {fresh : Tokens} {result : Except ClientError Response}
      (renewal : client.Renewal held again (.ok fresh))
      (attempt : Attempt (query.request? client fresh.access) log result) :
      Throughout (fun during event ↦ Timely tokens now (before ++ during) event)
        (again ++ log) := by
    refine (renewal.timely (Or.inl hdenied)).append ?_
    simp only [← List.append_assoc]
    refine attempt.timely fun hnone ↦ absurd ?_ renewal.exchanges_ne_nil
    rw [exchanges_append] at hnone
    exact (List.append_eq_nil_iff.mp hnone).2
  cases h with
  | unrenewed renewal => exact renewal.timely (Or.inl hdenied)
  | unsent renewal attempt | unauthorized renewal attempt | accepted renewal attempt =>
    exact hagain renewal attempt

theorem Course.exists_clock (h : client.Course query tokens now events result) :
    ∃ rest, events = .clock now :: rest := by
  obtain ⟨opened, held, rest, opening, rfl, -⟩ := h.exists_opening
  cases opening with
  | beyondCalendar | lasting | due => exact ⟨_, rfl⟩

/-- **Every request of a call comes in time.** -/
theorem Course.timely (h : client.Course query tokens now events result) :
    Throughout (Timely tokens now) events := by
  cases h with
  | unopened opening => exact opening.timely
  | unsent opening attempt | accepted opening attempt =>
    refine opening.timely.append (attempt.timely fun hnone ↦ ?_)
    obtain ⟨rfl, hlast⟩ := opening.lasts hnone
    exact ⟨rfl, hlast⟩
  | @turnedDown opened sent again held response _ opening attempt status_eq resending =>
    refine opening.timely.append ((attempt.timely fun hnone ↦ ?_).append ?_)
    · obtain ⟨rfl, hlast⟩ := opening.lasts hnone
      exact ⟨rfl, hlast⟩
    · obtain ⟨request, -, hsent⟩ := attempt.queries_of_ok
      have hdenied : ∃ r a, (r, some a) ∈ queries (opened ++ sent) ∧ a.status = 401 := by
        refine ⟨request, response, ?_, status_eq⟩
        rw [queries_append, hsent]
        exact List.mem_append_right _ (List.mem_singleton_self _)
      simpa only [List.append_assoc] using resending.timely hdenied

end Client

end Timely

/-! ## The last grant -/

/-- The last tokens that were kept had been granted for so many seconds from `t`. -/
def LastGranted (log : List Event) (t : Instant) (lifetime : ℤ) : Prop :=
  ∃ before request response grant fresh after,
    log = before ++ .call request (some response) :: .clock t :: .save fresh (.ok ()) :: after ∧
      Client.granted response = .ok grant ∧ grant.lifetime = lifetime ∧ KeepsNothing after

theorem LastGranted.expires_eq {start : Tokens} {log : List Event} {t : Instant} {lifetime : ℤ}
    (h : LastGranted log t lifetime) (hgrants : OfGrants start log) :
    (held start log).expires = t.after lifetime := by
  obtain ⟨before, request, response, grant, fresh, after, rfl, hgranted, rfl, hafter⟩ := h
  have hsplit :
      before ++ .call request (some response) :: .clock t :: .save fresh (.ok ()) :: after =
        before ++ [.call request (some response), .clock t] ++ .save fresh (.ok ()) :: after := by
    simp
  rw [hsplit] at hgrants ⊢
  have hheld : held start (before ++ [.call request (some response), .clock t] ++
      .save fresh (.ok ()) :: after) = fresh := by
    have hcons : Event.save fresh (.ok ()) :: after = [.save fresh (.ok ())] ++ after := rfl
    rw [held_append, hcons, held_append, hafter.held_eq]
    rfl
  -- the events that granted the tokens are the ones that the log ends with before they were kept
  obtain ⟨earlier, request', response', now, grant', hbefore, hgranted', hrenewed⟩ :=
    hgrants _ fresh after rfl
  obtain ⟨-, hlast⟩ := List.append_inj' hbefore rfl
  cases hlast
  obtain rfl := Except.ok.inj (hgranted.symm.trans hgranted')
  have hlifetime := (Client.granted_eq_ok_iff.mp hgranted).2.2.2
  rw [hheld, ((Client.renewed_eq_ok_iff hlifetime).mp hrenewed).2]
  rfl

/-! ## Runs -/

theorem Query.step_watched {α ω : Type} {client : Client} {host : Host ω} (query : Query α)
    (s : Session (ω × List Event)) :
    Follows Session.unwatched s (query.step client host.watched) (query.step client host) := by
  rw [Query.step_eq_call, Query.step_eq_call]
  exact Client.call_watched _ _ _

namespace Client

variable {α ω : Type}

/-- **Tokens are renewed when they have to be, and not before.** Take any call of a run. A request
of the query that no exchange of the call precedes bears the token that was held, and by the clock
of the call it had more than 300 seconds left. An exchange comes after a 401 of the same call, or
else the clock of the call shows no less than 300 seconds before the end of the lifetime that was
granted last. -/
theorem renewals_timely (client : Client) (host : Host ω) (start : Tokens) (w : ω)
    (operations : List Operation) (query : Query α) :
    let held := client.perform host.watched operations ⟨start, (w, [])⟩
    let run := (query.step client host.watched).run held
    let now := (host.now.run held.world.1).1
    held.unwatched = client.perform host operations ⟨start, w⟩ ∧
      (query.step client host).run held.unwatched = (run.1, run.2.unwatched) ∧
      ∃ events, run.2.world.2 = held.world.2 ++ .clock now :: events ∧
        ∀ before request answer after,
          .clock now :: events = before ++ .call request answer :: after →
          (request.authorization ≠ none → exchanges before = [] →
            request.Bears held.tokens.access ∧
              (now.after 300).before held.tokens.expires = true) ∧
          (request.authorization = none →
            (∃ r a, (r, some a) ∈ queries before ∧ a.status = 401) ∨
              ∀ t lifetime, LastGranted (held.world.2 ++ before) t lifetime →
                now.before (t.after (lifetime - 300)) = false) := by
  intro held run now
  have hheld : client.Recorded start held := (recorded_start start w).perform operations
  obtain ⟨log, hlog, hcourse⟩ : Writes held (query.step client host.watched) _ :=
    writes_query query held
  obtain ⟨events, rfl⟩ := hcourse.exists_clock
  refine ⟨perform_watched _ operations, Query.step_watched query held, events, hlog, ?_⟩
  intro before request answer after hsplit
  obtain ⟨hlasts, hdue⟩ := hcourse.timely before _ after hsplit request answer rfl
  refine ⟨hlasts, fun hexchange ↦ (hdue hexchange).imp_right ?_⟩
  rintro ⟨hends, hbefore⟩ t lifetime hgranted
  -- nothing has been kept since the call began, so the last grant is that of the tokens held then
  have hkept : OfGrants start (held.world.2 ++ before) := hheld.ofGrants.append hbefore.ofGrants
  have hexpires : held.tokens.expires = t.after lifetime := by
    rw [← hgranted.expires_eq hkept, held_append, hbefore.held_eq, ← hheld.accounted.tokens_eq]
  rw [hexpires] at hends
  exact Instant.not_before_after_sub hends

end Client

end Mailbox

end MailRules
