import Mathlib
import MailRules.Proofs.Mailbox.Protocol

/-!
# The journal of a fetch

A fetch calls its host and has records stored, and which of the two came first matters. A journal
holds both in one order. It is kept by a host and by a place for records that write down what they
are asked for and what comes of it (`Host.journaled`, `journaledPut`), and as before, to write
something down changes nothing.

What a call writes into the journal is what it writes into the history of its host, so that a course
of the call can be found there (`Client.run_query_journaled`). The history is carried over by a view
of its state: the events come after whatever is in the journal already.
-/

namespace MailRules.Mailbox

open Http (Request Response)
open Calendar (Instant)

/-- A call of the host with what came of it, or a record that was handed over to be stored. -/
inductive Deed (ε : Type)
  | host (event : Event)
  | put (r : Record) (result : Except ε Unit)

variable {ω ε α : Type}

/-! ## Writing it -/

/-- A call of a host that is written into the journal. -/
def journaledCall (call : StateM ω α) (event : α → Event) : StateM (ω × List (Deed ε)) α :=
  fun (w, journal) ↦
    let (a, w) := call.run w
    (a, (w, journal ++ [.host (event a)]))

/-- A host whose calls are written into the journal. -/
def Host.journaled (host : Host ω) : Host (ω × List (Deed ε)) where
  now := journaledCall host.now .clock
  send request := journaledCall (host.send request) (.call request)
  save tokens := journaledCall (host.save tokens) (.save tokens)

/-- A place for records that writes into the journal what it was given. -/
def journaledPut (put : Record → Step ω ε Unit) (r : Record) : Step (ω × List (Deed ε)) ε Unit :=
  Step.ofRun fun (w, journal) ↦
    let (result, w) := (put r).run w
    (result, (w, journal ++ [.put r result]))

theorem run_journaledPut (put : Record → Step ω ε Unit) (r : Record) (w : ω × List (Deed ε)) :
    (journaledPut put r).run w =
      (((put r).run w.1).1, (((put r).run w.1).2, w.2 ++ [.put r ((put r).run w.1).1])) := rfl

/-- What was written down about the calls of a host, after a journal. -/
def afterJournal (journal : List (Deed ε)) (w : ω × List Event) : ω × List (Deed ε) :=
  (w.1, journal ++ w.2.map Deed.host)

theorem run_journaledCall (journal : List (Deed ε)) (call : StateM ω α) (event : α → Event)
    (w : ω × List Event) :
    (journaledCall call event).run (afterJournal journal w) =
      (((watch call event).run w).1, afterJournal journal ((watch call event).run w).2) := by
  rw [run_watch, afterJournal, afterJournal, List.map_append, List.map_singleton,
    ← List.append_assoc]
  rfl

theorem Host.shadows_afterJournal (host : Host ω) (journal : List (Deed ε)) :
    host.watched.Shadows (afterJournal journal) host.journaled where
  now := run_journaledCall journal _ _
  send _ := run_journaledCall journal _ _
  save _ := run_journaledCall journal _ _

/-! ## Answers -/

/-- The answers that were written down are answers of the host. -/
def Answered (host : Host ω) (log : List Event) : Prop :=
  ∀ request answer, .call request answer ∈ log → ∃ w, ((host.send request).run w).1 = answer

theorem answered_nil {host : Host ω} : Answered host [] := fun _ _ h ↦ nomatch h

theorem Answered.append {host : Host ω} {log later : List Event} (h : Answered host log)
    (h' : Answered host later) : Answered host (log ++ later) := fun request answer hmem ↦
  (List.mem_append.mp hmem).elim (h request answer) (h' request answer)

theorem Answered.concat {host : Host ω} {log : List Event} (h : Answered host log) {event : Event}
    (hlast : ∀ request answer, event = .call request answer →
      ∃ w, ((host.send request).run w).1 = answer) :
    Answered host (log ++ [event]) :=
  h.append fun request answer hmem ↦ hlast request answer (List.mem_singleton.mp hmem).symm

namespace Client

variable {client : Client} {host : Host ω}

theorem invariant_answered (client : Client) (host : Host ω) :
    client.Invariant host.watched fun _ w ↦ Answered host w.2 where
  clock h := h.concat fun _ _ h ↦ by cases h
  send {_ w _} h _ := h.concat fun _ _ h ↦ by
    cases h
    exact ⟨w.1, rfl⟩
  saved h _ hsave := by
    rw [eq_of_run_watched_save hsave]
    exact h.concat fun _ _ h ↦ by cases h
  unsaved h _ hsave := by
    rw [eq_of_run_watched_save hsave]
    exact h.concat fun _ _ h ↦ by cases h

/-! ## Calls -/

theorem query_shadows {τ : Type} {f : ω → τ} {host' : Host τ} (h : host.Shadows f host')
    (query : Query α) (s : Session ω) :
    Follows (Session.map f) s (query.step client host) (query.step client host') := by
  rw [Query.step_eq_call, Query.step_eq_call]
  exact call_shadows h s _ _

theorem Invariant.query {I : Tokens → ω → Prop} (inv : client.Invariant host I) (query : Query α) :
    Keeps I (fun _ ↦ True) (query.step client host) fun _ _ ↦ True := by
  rw [Query.step_eq_call]
  exact inv.call query.codec fun _ _ ↦ Query.bears

/-- **A call writes one of its courses into the journal.** What it gives, the tokens that it leaves
and what it does to the host are as they are without a journal. -/
theorem run_query_journaled (client : Client) (host : Host ω) (query : Query α) (s : Session ω)
    (journal : List (Deed ε)) :
    ∃ result events w,
      (query.step client host).run s = (result, ⟨held s.tokens events, w⟩) ∧
      (query.step client host.journaled).run ⟨s.tokens, (s.world, journal)⟩ =
        (result, ⟨held s.tokens events, (w, journal ++ events.map .host)⟩) ∧
      client.Course query s.tokens (host.now.run s.world).1 events result ∧
      Answered host events := by
  -- both runs are views of one run over the watched host, from an empty history
  let start : Session (ω × List Event) := ⟨s.tokens, (s.world, [])⟩
  have hplain : Follows (Session.map Prod.fst) start (query.step client host.watched)
      (query.step client host) := query_shadows host.shadows_watched query start
  have hjournaled : Follows (Session.map (afterJournal journal)) start
      (query.step client host.watched) (query.step client host.journaled) :=
    query_shadows (host.shadows_afterJournal journal) query start
  have hcourse : Writes start (query.step client host.watched) _ := writes_query query start
  have haccounted := (client.invariant_accounted host s.tokens).query query start
    (client.accounted_nil s.world) trivial
  have hanswered := (client.invariant_answered host).query query start answered_nil trivial
  rcases hrun : (query.step client host.watched).run start with ⟨result, tokens, w, log⟩
  rw [Follows, hrun] at hplain hjournaled
  rw [Writes, hrun] at hcourse
  rw [hrun] at haccounted hanswered
  obtain ⟨events, hlog, hcourse⟩ := hcourse
  obtain rfl : log = events := hlog
  obtain rfl : tokens = held s.tokens log := haccounted.1.tokens_eq
  have hstart : start.map (afterJournal journal) = ⟨s.tokens, (s.world, journal)⟩ := by
    rw [Session.map, afterJournal, List.map_nil, List.append_nil]
  rw [hstart] at hjournaled
  exact ⟨result, log, w, hplain, hjournaled, hcourse, hanswered.1⟩

/-- The request is one of the query, with some token. -/
def Asks (client : Client) (query : Query α) (request : Request) : Prop :=
  ∃ token, query.request? client token = some request

end Client

theorem mem_queries {events : List Event} {request : Request} {answer : Option Response} :
    (request, answer) ∈ queries events ↔
      .call request answer ∈ events ∧ request.authorization ≠ none := by
  rw [queries, List.mem_filterMap]
  constructor
  · rintro ⟨event, hevent, hquery⟩
    cases event with
    | clock | save => cases hquery
    | call request' answer' =>
      by_cases hauthorization : request'.authorization = none
      · rw [Event.query?, if_pos hauthorization] at hquery
        cases hquery
      · rw [Event.query?, if_neg hauthorization] at hquery
        cases hquery
        exact ⟨hevent, hauthorization⟩
  · rintro ⟨hevent, hauthorization⟩
    exact ⟨_, hevent, if_neg hauthorization⟩

variable {client : Client} {query : Query α} {tokens : Tokens} {now : Instant}
  {events : List Event}

theorem Attempt.asks {token : String} {result : Except ClientError Response}
    (h : Attempt (query.request? client token) events result) :
    ∀ sent ∈ queries events, client.Asks query sent.1 := by
  cases result with
  | ok response =>
    obtain ⟨request, request_eq, hsent⟩ := h.queries_of_ok
    rw [hsent]
    exact List.forall_mem_singleton.mpr ⟨token, request_eq⟩
  | error error =>
    obtain ⟨-, hnone | ⟨request, request_eq, hsent⟩⟩ := h.queries_of_error
    · rw [hnone]
      exact fun _ h ↦ by cases h
    · rw [hsent]
      exact List.forall_mem_singleton.mpr ⟨token, request_eq⟩

namespace Client

theorem Resending.asks {result : Except ClientError α}
    (h : client.Resending query tokens events result) :
    ∀ sent ∈ queries events, client.Asks query sent.1 := by
  cases h with
  | unrenewed renewal =>
    rw [renewal.queries_eq]
    exact fun _ h ↦ by cases h
  | unsent renewal attempt | unauthorized renewal attempt | accepted renewal attempt =>
    rw [queries_append, renewal.queries_eq, List.nil_append]
    exact attempt.asks

/-- **What is sent with a token in a call is the request of that call.** -/
theorem Course.asks {result : Except ClientError α}
    (h : client.Course query tokens now events result) :
    ∀ sent ∈ queries events, client.Asks query sent.1 := by
  cases h with
  | unopened opening =>
    rw [opening.queries_eq]
    exact fun _ h ↦ by cases h
  | unsent opening attempt | accepted opening attempt =>
    rw [queries_append, opening.queries_eq, List.nil_append]
    exact attempt.asks
  | turnedDown opening attempt _ resending =>
    rw [queries_append, queries_append, opening.queries_eq, List.nil_append]
    exact fun sent hsent ↦ (List.mem_append.mp hsent).elim (attempt.asks sent) (resending.asks sent)

/-- What a call gives was read from an answer to its request. -/
theorem Course.exists_answer {x : α} (h : client.Course query tokens now events (.ok x)) :
    ∃ request response, .call request (some response) ∈ events ∧ client.Asks query request ∧
      Decides query.codec response (.ok x) := by
  have hlast : ∃ sent response, sent ∈ queries events ∧ sent.2 = some response ∧
      Decides query.codec response (.ok x) := by
    have hverdict := h.verdict
    generalize queries events = sent at hverdict
    cases hverdict with
    | decided _ decides => exact ⟨_, _, List.mem_singleton_self _, rfl, decides⟩
    | resent _ _ last =>
      obtain ⟨-, hnone⟩ | ⟨a, rfl, ⟨-, hunauthorized⟩ | ⟨-, decides⟩⟩ := last
      · cases hnone
      · cases hunauthorized
      · exact ⟨_, a, List.mem_cons_of_mem _ (List.mem_singleton_self _), rfl, decides⟩
  obtain ⟨⟨request, answer⟩, response, hsent, rfl, decides⟩ := hlast
  exact ⟨request, response, (mem_queries.mp hsent).1, h.asks _ hsent, decides⟩

end Client

end MailRules.Mailbox
