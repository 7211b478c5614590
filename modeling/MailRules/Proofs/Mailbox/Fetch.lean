import Mathlib
import MailRules.Mailbox.Fetch
import MailRules.Proofs.Mailbox.Archive

/-!
# How far a fetch gets

A fetch asks for one message after the other and stores the record of each before it asks for the
next. It ends when it has come through its list, or with the first message that it cannot get or
cannot store. `Client.Fetching` says so of the journal, with the course of every call, and every
fetch goes as it says (`Client.run_fetchAll`). So at any end the archive holds what it held before
and the records of the messages so far, and nobody was asked for a message behind the one that the
fetch ended with (`Client.fetch_stores_prefix`).

The induction is on the list of messages that are wanted. The tokens that a call leaves are those
that the next one begins with, so they go along with it.
-/

namespace MailRules.Mailbox

open Http (Request Response)
open Calendar (Instant)

/-- The call of the host in a journal's line. -/
def Deed.event? {ε : Type} : Deed ε → Option Event
  | host event => some event
  | put _ _ => none

/-- The calls of the host in a journal. -/
def eventsOf {ε : Type} (journal : List (Deed ε)) : List Event := journal.filterMap Deed.event?

section EventsOf

variable {ε : Type}

theorem eventsOf_append (journal later : List (Deed ε)) :
    eventsOf (journal ++ later) = eventsOf journal ++ eventsOf later := List.filterMap_append

@[simp] theorem eventsOf_map_host (events : List Event) :
    eventsOf (events.map Deed.host : List (Deed ε)) = events := by
  rw [eventsOf, List.filterMap_map]
  exact List.filterMap_some

@[simp] theorem eventsOf_put (r : Record) (result : Except ε Unit) (journal : List (Deed ε)) :
    eventsOf (.put r result :: journal) = eventsOf journal := rfl

end EventsOf

namespace Client

variable {ω ε : Type} {client : Client} {host : Host ω} {tokens : Tokens} {ids : List String}
  {messages : List Message} {journal : List (Deed ε)} {result : Except (FetchError ε) Nat}

/-- How a fetch goes, with the messages whose records it stores and with its journal. -/
inductive Fetching (client : Client) {ε : Type} :
    Tokens → List String → List Message → List (Deed ε) → Except (FetchError ε) Nat → Prop
  | finished {tokens : Tokens} : Fetching client tokens [] [] [] (.ok 0)
  | unfetched {tokens : Tokens} {now : Instant} {id : String} {ids : List String}
      {events : List Event} {cause : ClientError}
      (course : client.Course (.metadata id) tokens now events (.error cause)) :
      Fetching client tokens (id :: ids) [] (events.map .host) (.error (.message id cause))
  | unstored {tokens : Tokens} {now : Instant} {id : String} {ids : List String}
      {events : List Event} {message : Message} {error : ε}
      (course : client.Course (.metadata id) tokens now events (.ok message)) :
      Fetching client tokens (id :: ids) []
        (events.map .host ++ [.put message.record (.error error)]) (.error (.store error))
  | stored {tokens : Tokens} {now : Instant} {id : String} {ids : List String}
      {events : List Event} {message : Message} {messages : List Message} {journal : List (Deed ε)}
      {result : Except (FetchError ε) Nat}
      (course : client.Course (.metadata id) tokens now events (.ok message))
      (rest : Fetching client (held tokens events) ids messages journal result) :
      Fetching client tokens (id :: ids) (message :: messages)
        (events.map .host ++ .put message.record (.ok ()) :: journal) (result.map (· + 1))

/-! ## What can be read off it -/

namespace Fetching

/-- A fetch that succeeds has stored all, and one that fails ends with the message behind those
that it has stored. -/
theorem result_cases (h : client.Fetching tokens ids messages journal result) :
    (result = .ok messages.length ∧ messages.length = ids.length) ∨
      ∃ id, ids[messages.length]? = some id ∧
        ((∃ cause, result = .error (.message id cause)) ∨
          ∃ error, result = .error (.store error)) := by
  induction h with
  | finished => exact Or.inl ⟨rfl, rfl⟩
  | unfetched => exact Or.inr ⟨_, rfl, Or.inl ⟨_, rfl⟩⟩
  | unstored => exact Or.inr ⟨_, rfl, Or.inr ⟨_, rfl⟩⟩
  | stored _ _ ih =>
    obtain ⟨rfl, hlength⟩ | ⟨id, hid, ⟨cause, rfl⟩ | ⟨error, rfl⟩⟩ := ih
    · exact Or.inl ⟨rfl, congrArg (· + 1) hlength⟩
    · exact Or.inr ⟨id, hid, Or.inl ⟨cause, rfl⟩⟩
    · exact Or.inr ⟨id, hid, Or.inr ⟨error, rfl⟩⟩

theorem length_le (h : client.Fetching tokens ids messages journal result) :
    messages.length ≤ ids.length := by
  obtain ⟨-, hlength⟩ | ⟨id, hid, -⟩ := h.result_cases
  · exact hlength.le
  · exact (List.getElem?_eq_some_iff.mp hid).1.le

/-- **Nothing is asked about a message behind the one that the fetch ends with.** -/
theorem asks (h : client.Fetching tokens ids messages journal result) :
    ∀ sent ∈ queries (eventsOf journal), ∃ id ∈ ids.take (messages.length + 1),
      client.Asks (.metadata id) sent.1 := by
  induction h with
  | finished => exact fun _ h ↦ by cases h
  | unfetched course =>
    rw [eventsOf_map_host]
    exact fun sent hsent ↦ ⟨_, List.mem_cons_self, course.asks sent hsent⟩
  | unstored course =>
    rw [eventsOf_append, eventsOf_map_host, eventsOf_put, eventsOf, List.filterMap_nil,
      List.append_nil]
    exact fun sent hsent ↦ ⟨_, List.mem_cons_self, course.asks sent hsent⟩
  | stored course rest ih =>
    rw [eventsOf_append, eventsOf_map_host, eventsOf_put, queries_append]
    intro sent hsent
    rcases List.mem_append.mp hsent with hsent | hsent
    · exact ⟨_, List.mem_cons_self, course.asks sent hsent⟩
    · obtain ⟨id, hid, hasks⟩ := ih sent hsent
      exact ⟨id, List.mem_cons_of_mem _ hid, hasks⟩

end Fetching

/-! ## Runs -/

section Runs

variable {put : Record → Step ω ε Unit} {s t : Session ω} {id : String}

theorem run_fetchOne_of_error {cause : ClientError}
    (h : ((Query.metadata id).step client host).run s = (.error cause, t)) :
    (client.fetchOne host put id).run s = (.error (.message id cause), t) := by
  have hfetched : (client.metadata host id).run s = (.error cause, t) := h
  rw [fetchOne, Step.run_bind_of_error (by rw [Step.run_adapt, hfetched]; rfl)]

theorem run_fetchOne_of_ok {message : Message}
    (h : ((Query.metadata id).step client host).run s = (.ok message, t)) :
    (client.fetchOne host put id).run s =
      (((put message.record).run t.world).1.mapError .store,
        { t with world := ((put message.record).run t.world).2 }) := by
  have hfetched : (client.metadata host id).run s = (.ok message, t) := h
  rw [fetchOne, Step.run_bind_of_ok (by rw [Step.run_adapt, hfetched]; rfl), Step.run_adapt,
    run_outside]

theorem run_fetchAll_of_error {error : FetchError ε}
    (h : (client.fetchOne host put id).run s = (.error error, t)) :
    (client.fetchAll host put (id :: ids)).run s = (.error error, t) := by
  rw [fetchAll, Step.run_bind_of_error h]

theorem run_fetchAll_of_ok (ids : List String)
    (h : (client.fetchOne host put id).run s = (.ok (), t)) :
    (client.fetchAll host put (id :: ids)).run s =
      (((client.fetchAll host put ids).run t).1.map (· + 1),
        ((client.fetchAll host put ids).run t).2) := by
  rw [fetchAll, Step.run_bind_of_ok h, ← Step.run_map, map_eq_pure_bind]

end Runs

/-- **A fetch goes as it should**, and the records of the messages it got through are in the
archive, in their order. -/
theorem run_fetchAll (client : Client) (archive : Archive host ε) (ids : List String)
    (s : Session ω) (before : List (Deed ε)) :
    ∃ result messages journal t,
      (client.fetchAll host archive.put ids).run s = (result, t) ∧
      (client.fetchAll host.journaled (journaledPut archive.put) ids).run
        ⟨s.tokens, (s.world, before)⟩ = (result, ⟨t.tokens, (t.world, before ++ journal)⟩) ∧
      client.Fetching s.tokens ids messages journal result ∧
      Mailbox.Answered host (eventsOf journal) ∧
      archive.listing t.world =
        (archive.listing s.world).map (Table.putAll (messages.map Message.record)) := by
  have hnone (listed : Except ε (List Record)) : listed = listed.map (Table.putAll []) := by
    cases listed <;> rfl
  induction ids generalizing s before with
  | nil =>
    refine ⟨.ok 0, [], [], s, rfl, ?_, .finished, answered_nil, hnone _⟩
    rw [List.append_nil]
    rfl
  | cons id ids ih =>
    obtain ⟨got, events, w, hplain, hjournaled, hcourse, hanswered⟩ :=
      run_query_journaled client host (.metadata id) s before
    have hlisted : archive.listing w = archive.listing s.world :=
      archive.listing_of_run_query hplain
    cases got with
    | error cause =>
      -- the message cannot be got: a call has left the archive as it was
      refine ⟨_, [], events.map .host, _, run_fetchAll_of_error (run_fetchOne_of_error hplain),
        run_fetchAll_of_error (run_fetchOne_of_error hjournaled), .unfetched hcourse, ?_, ?_⟩
      · rwa [eventsOf_map_host]
      · rw [hlisted]
        exact hnone _
    | ok message =>
      have hone : (client.fetchOne host archive.put id).run s = _ := run_fetchOne_of_ok hplain
      have hone' : (client.fetchOne host.journaled (journaledPut archive.put) id).run
          ⟨s.tokens, (s.world, before)⟩ = _ := run_fetchOne_of_ok hjournaled
      rw [run_journaledPut] at hone'
      dsimp only at hone hone'
      rcases hput : (archive.put message.record).run w with ⟨error | ⟨⟩, w'⟩
      · -- its record is refused
        rw [hput] at hone hone'
        refine ⟨_, [], events.map .host ++ [.put message.record (.error error)], _,
          run_fetchAll_of_error hone, ?_, .unstored hcourse, ?_, ?_⟩
        · rw [← List.append_assoc]
          exact run_fetchAll_of_error hone'
        · rwa [eventsOf_append, eventsOf_map_host, eventsOf_put, eventsOf, List.filterMap_nil,
            List.append_nil]
        · rw [archive.refused hput, hlisted]
          exact hnone _
      · -- its record is stored, and the fetch goes on with the tokens and the journal of now
        rw [hput] at hone hone'
        obtain ⟨result, messages, journal, t, hrest, hrest', hfetching, hanswered', hlisted'⟩ :=
          ih ⟨held s.tokens events, w'⟩
            (before ++ events.map .host ++ [.put message.record (.ok ())])
        have hrun := run_fetchAll_of_ok ids hone
        have hrun' := run_fetchAll_of_ok ids hone'
        rw [hrest] at hrun
        rw [hrest'] at hrun'
        refine ⟨_, _, _, t, hrun, ?_, .stored hcourse hfetching, ?_, ?_⟩
        · rw [hrun', List.append_assoc, List.append_assoc, List.singleton_append]
        · rw [eventsOf_append, eventsOf_map_host, eventsOf_put]
          exact hanswered.append hanswered'
        · rw [hlisted', archive.stored hput, hlisted, List.map_cons]
          cases archive.listing s.world <;> rfl

/-! ## How far it gets -/

/-- **A fetch stores what it has got through.** It asks for the messages in their order, by one call
each, and stores the record of each before it begins the next call. It succeeds only with the number
of all that were wanted. If it fails, then with the message behind those whose records it stored:
that one could not be fetched, and the error names it, or it could not be stored. Either way the
archive lists what it listed before, with the records so far, and the service was not asked about
any later message. -/
theorem fetch_stores_prefix (client : Client) (archive : Archive host ε) (ids : List String)
    (limit : Nat) (s : Session ω) :
    ∃ result messages journal t,
      (client.fetch host archive.put ids limit).run s = (result, t) ∧
      (client.fetch host.journaled (journaledPut archive.put) ids limit).run
        ⟨s.tokens, (s.world, [])⟩ = (result, ⟨t.tokens, (t.world, journal)⟩) ∧
      client.Fetching s.tokens (ids.take limit) messages journal result ∧
      archive.listing t.world =
        (archive.listing s.world).map (Table.putAll (messages.map Message.record)) ∧
      (result = .ok messages.length ∧ messages.length = min limit ids.length ∨
        ∃ id, (ids.take limit)[messages.length]? = some id ∧
          ((∃ cause, result = .error (.message id cause)) ∨
            ∃ error, result = .error (.store error))) ∧
      ∀ request answer, .host (.call request answer) ∈ journal → request.authorization ≠ none →
        ∃ id ∈ (ids.take limit).take (messages.length + 1), ∃ token,
          client.metadataRequest? id token = some request := by
  obtain ⟨result, messages, journal, t, hrun, hrun', hfetching, -, hlisted⟩ :=
    run_fetchAll client archive (ids.take limit) s []
  have hcases := hfetching.result_cases
  rw [List.length_take] at hcases
  refine ⟨result, messages, journal, t, hrun, hrun', hfetching, hlisted, hcases, ?_⟩
  intro request answer hcall hauthorization
  have hevent : .call request answer ∈ eventsOf journal := List.mem_filterMap.mpr ⟨_, hcall, rfl⟩
  exact hfetching.asks (request, answer) (mem_queries.mpr ⟨hevent, hauthorization⟩)

/-- The tokens are renewed first, and kept in a file beside the store. The first message is there
already, the second is not found, and the third is not asked for. -/
theorem fetch_stores_prefix_of_missing_message :
    let client : Client := ⟨"me", "client", "secret", "http://gmail", "http://oauth"⟩
    let now : Instant := ⟨1718020800, 0⟩
    let tokens : Tokens := ⟨"first", "refresh", now⟩
    let disk : Disk := { entries := [(["mail.db".toList],
      .database (Database.ofArrivals [⟨"1", "", "", "old", ""⟩, ⟨"0", "", "", "", ""⟩]))] }
    let grant := "\x7b\"access_token\":\"next\",\"expires_in\":3600\x7d"
    let header := "\x7b\"name\":\"Subject\",\"value\":\"new\"\x7d"
    let body := "\x7b\"id\":\"1\",\"payload\":\x7b\"headers\":[" ++ header ++ "]\x7d\x7d"
    let script : Script := { clock := now, answers :=
      [⟨200, Http.bytes grant.toList⟩, ⟨200, Http.bytes body.toList⟩, ⟨404, []⟩] }
    let host : Host (World Script) :=
      Script.network.hostWithFile "credentials.json" ⟨"client", "secret", tokens⟩
    have apart : (Store.file "mail.db").Apart "credentials.json" :=
      Store.apart_of_steps_ne (by decide) (by decide) (by decide) (by decide)
    let archive : Archive host StoreError :=
      (Store.file "mail.db").archive (Store.spares_hostWithFile apart _ _)
    let error : FetchError StoreError := .message "2" (.status 404)
    ∃ messages journal t,
      (client.fetch host archive.put ["1", "2", "3", "4"] 3).run ⟨tokens, ⟨disk, script⟩⟩ =
        (.error error, t) ∧
      client.Fetching tokens ["1", "2", "3"] messages journal (.error error) ∧
      messages.length = 1 ∧ t.tokens = ⟨"next", "refresh", ⟨1718024400, 0⟩⟩ ∧
      archive.listing t.world = .ok [⟨"1", "", "", "new", ""⟩, ⟨"0", "", "", "", ""⟩] := by
  intro client now tokens disk grant header body script host apart archive error
  obtain ⟨result, messages, journal, t, hrun, -, hfetching, -, hcases, -⟩ :=
    fetch_stores_prefix client archive ["1", "2", "3", "4"] 3 ⟨tokens, ⟨disk, script⟩⟩
  have hdecided (run : Except (FetchError StoreError) Nat × Session (World Script)) :
      run = (client.fetch host archive.put ["1", "2", "3", "4"] 3).run ⟨tokens, ⟨disk, script⟩⟩ →
      run.1 = .error error ∧ run.2.tokens = ⟨"next", "refresh", ⟨1718024400, 0⟩⟩ ∧
        archive.listing run.2.world = .ok [⟨"1", "", "", "new", ""⟩, ⟨"0", "", "", "", ""⟩] := by
    rintro rfl
    decide +kernel
  obtain ⟨hresult, htokens, hlisted⟩ := hdecided _ hrun.symm
  obtain rfl : result = .error error := hresult
  refine ⟨messages, journal, t, hrun, hfetching, ?_, htokens, hlisted⟩
  -- the error names the message behind those that were stored, and only the second has that name
  obtain ⟨hok, -⟩ | ⟨id, hid, hfailed⟩ := hcases
  · cases hok
  · have htwo : id = "2" := by
      obtain ⟨cause, h⟩ | ⟨_, h⟩ := hfailed
      · exact (FetchError.message.inj (Except.error.inj h)).1.symm
      · exact nomatch Except.error.inj h
    rw [htwo] at hid
    rcases hlength : messages.length with _ | _ | _ | n <;> rw [hlength] at hid <;> simp at hid ⊢

end Client

end MailRules.Mailbox
