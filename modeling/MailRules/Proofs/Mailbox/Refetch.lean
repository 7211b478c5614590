import Mathlib
import MailRules.Proofs.Mailbox.Fetch

/-!
# Fetching again

A fetch that was cut short, or one of fewer messages, is made up for by fetching again: in the end
the archive lists what one fetch of all would have brought, in the same order
(`Client.refetch_converges`). The first fetch has stored the records of the first messages, and the
second brings the same records once more before it goes on. That leaves nothing to be seen of the
first, whatever the records and the archive are (`Table.putAll_of_prefix`).

The same records come only from a service that does not change its mind. `Client.Consistent` says
that of requests for one message, in whatever state they find the service: two answers to them may
be an error, but not two messages that make different records. The record may have another
identifier than the one that was asked for. Between the fetches anything may happen to the tokens,
the clock and the service, as long as the archive is left alone.

A service that keeps a page under each address is consistent, even if it fails now and then
(`Client.consistent_of_pages`).
-/

namespace MailRules.Mailbox

open Http (Request Response)
open Calendar (Instant)

namespace Client

variable {ω ε : Type} {client : Client} {host : Host ω} {tokens : Tokens} {ids : List String}
  {messages : List Message} {journal : List (Deed ε)} {result : Except (FetchError ε) Nat}

/-! ## Consistent services -/

/-- In some state, the message is read from the answer to a request for this identifier. -/
def Gives (client : Client) (host : Host ω) (id : String) (message : Message) : Prop :=
  ∃ request w response, client.Asks (.metadata id) request ∧
    ((host.send request).run w).1 = some response ∧ Decides Message.codec response (.ok message)

/-- Messages that are given for one identifier make one record. -/
def Consistent (client : Client) (host : Host ω) : Prop :=
  ∀ id message message', client.Gives host id message → client.Gives host id message' →
    message.record = message'.record

theorem Fetching.gives (h : client.Fetching tokens ids messages journal result)
    (hanswered : Mailbox.Answered host (eventsOf journal)) :
    List.Forall₂ (client.Gives host) (ids.take messages.length) messages := by
  induction h with
  | finished | unfetched | unstored => exact .nil
  | stored course rest ih =>
    rw [eventsOf_append, eventsOf_map_host, eventsOf_put] at hanswered
    obtain ⟨request, response, hcall, hasks, decides⟩ := course.exists_answer
    obtain ⟨w, hsent⟩ := hanswered request _ (List.mem_append_left _ hcall)
    exact .cons ⟨request, w, response, hasks, hsent, decides⟩
      (ih fun request answer hmem ↦ hanswered request answer (List.mem_append_right _ hmem))

/-- What a consistent service gives for the first of some messages, it gives first for all. -/
theorem Consistent.first_records (consistent : client.Consistent host) {ids' : List String}
    {messages' : List Message} (h : List.Forall₂ (client.Gives host) ids messages)
    (h' : List.Forall₂ (client.Gives host) ids' messages') (hids : ids <+: ids') :
    messages.map Message.record <+: messages'.map Message.record := by
  induction h generalizing ids' messages' with
  | nil => exact List.nil_prefix
  | cons hgives _ ih =>
    cases h' with
    | nil => exact absurd (List.prefix_nil.mp hids) (by simp)
    | cons hgives' hrest' =>
      obtain ⟨rfl, hrest⟩ := List.cons_prefix_cons.mp hids
      rw [List.map_cons, List.map_cons, consistent _ _ _ hgives hgives']
      exact List.cons_prefix_cons.mpr ⟨rfl, ih hrest' hrest⟩

theorem Consistent.records_eq (consistent : client.Consistent host) {messages' : List Message}
    (h : List.Forall₂ (client.Gives host) ids messages)
    (h' : List.Forall₂ (client.Gives host) ids messages') :
    messages.map Message.record = messages'.map Message.record :=
  (consistent.first_records h h' List.prefix_rfl).eq_of_length_le
    (consistent.first_records h' h List.prefix_rfl).length_le

/-! ## Fetching again -/

/-- What a fetch brings is given for the first of the messages that were wanted, and for all of them
if the fetch succeeds. -/
theorem exists_given_of_run_fetch {archive : Archive host ε} {limit : Nat} {s t : Session ω}
    (h : (client.fetch host archive.put ids limit).run s = (result, t)) :
    ∃ messages wanted, List.Forall₂ (client.Gives host) wanted messages ∧
      wanted <+: ids.take limit ∧
      archive.listing t.world =
        (archive.listing s.world).map (Table.putAll (messages.map Message.record)) ∧
      ∀ n, result = .ok n → wanted = ids.take limit ∧ n = (ids.take limit).length := by
  obtain ⟨result', messages, journal, t', hrun, -, hfetching, hanswered, hlisted⟩ :=
    run_fetchAll client archive (ids.take limit) s []
  obtain ⟨rfl, rfl⟩ := Prod.mk.inj (h.symm.trans hrun)
  refine ⟨messages, _, hfetching.gives hanswered, List.take_prefix _ _, hlisted, ?_⟩
  rintro n rfl
  obtain ⟨hn, hlength⟩ | ⟨id, -, ⟨cause, hfailed⟩ | ⟨error, hfailed⟩⟩ := hfetching.result_cases
  · rw [hlength]
    exact ⟨List.take_length, (Except.ok.inj hn).trans hlength⟩
  · cases hfailed
  · cases hfailed

theorem map_putAll_of_prefix {before arrivals : List Record} (h : before <+: arrivals)
    (listed : Except ε (List Record)) :
    (listed.map (Table.putAll before)).map (Table.putAll arrivals) =
      listed.map (Table.putAll arrivals) := by
  cases listed with
  | error e => rfl
  | ok records => exact congrArg Except.ok (Table.putAll_of_prefix h records)

/-- **Fetching again converges.** The first fetch, of no more messages, ends somehow. Another one
succeeds when nothing but the archive is left of the first. Then the archive lists what it lists
after one fetch that succeeds where the first one began. If the first one was such a fetch itself,
the other has changed nothing. -/
theorem refetch_converges (archive : Archive host ε) (consistent : client.Consistent host)
    {first limit n m : Nat} (hle : first ≤ limit) {s s' t t' u u' : Session ω}
    (cut : (client.fetch host archive.put ids first).run s = (result, s'))
    (left : archive.listing t.world = archive.listing s'.world)
    (again : (client.fetch host archive.put ids limit).run t = (.ok n, t'))
    (same : archive.listing u.world = archive.listing s.world)
    (once : (client.fetch host archive.put ids limit).run u = (.ok m, u')) :
    archive.listing t'.world = archive.listing u'.world ∧ n = m ∧
      ∀ k, result = .ok k → first = limit →
        archive.listing t'.world = archive.listing s'.world := by
  obtain ⟨brought, wanted, hbrought, hwanted, hcut, hwhole⟩ := exists_given_of_run_fetch cut
  obtain ⟨all, wanted', hall, -, hagain, hcame⟩ := exists_given_of_run_fetch again
  obtain ⟨all', wanted'', hall', -, honce, hcame'⟩ := exists_given_of_run_fetch once
  obtain ⟨rfl, rfl⟩ := hcame n rfl
  obtain ⟨rfl, rfl⟩ := hcame' m rfl
  -- the first fetch brought the first of the records that the second brings
  have hbefore : brought.map Message.record <+: all.map Message.record :=
    consistent.first_records hbrought hall (hwanted.trans (List.take_prefix_take_left hle))
  have hend : archive.listing t'.world =
      (archive.listing s.world).map (Table.putAll (all.map Message.record)) := by
    rw [hagain, left, hcut, map_putAll_of_prefix hbefore]
  refine ⟨?_, rfl, ?_⟩
  · rw [hend, honce, same, consistent.records_eq hall hall']
  · rintro k rfl rfl
    obtain ⟨rfl, -⟩ := hwhole k rfl
    rw [hend, hcut, consistent.records_eq hbrought hall]

/-! ## Services with pages -/

/-- A service that has a page for each address and answers with it, or else with an error. -/
theorem consistent_of_pages (client : Client) {host : Host ω} (page : String → Response)
    (hpage : ∀ request w response, ((host.send request).run w).1 = some response →
      response.isError ∨ response = page request.url) :
    client.Consistent host := by
  have hread {id : String} {message : Message} (h : client.Gives host id message) :
      ∃ request, client.Asks (.metadata id) request ∧
        Decides Message.codec (page request.url) (.ok message) := by
    obtain ⟨request, w, response, hasks, hsent, decides⟩ := h
    obtain herror | rfl := hpage request w response hsent
    · cases decides with
      | decoded other => exact absurd (by simpa [Response.isError] using herror) other
    · exact ⟨request, hasks, decides⟩
  intro id message message' h h'
  obtain ⟨request, ⟨token, hrequest⟩, decides⟩ := hread h
  obtain ⟨request', ⟨token', hrequest'⟩, decides'⟩ := hread h'
  rw [Query.request?_congr hrequest hrequest'] at decides'
  cases decides with
  | decoded _ read =>
    cases decides' with
    | decoded _ read' => rw [Except.ok.inj (read.symm.trans read')]

/-- A network with a page under each address. A list says which of the next requests fail. -/
def pagesNetwork (page : String → Response) (now : Instant) : Network (List Bool) where
  now := pure now
  send request := fun failures ↦
    (some (if failures.headD false then ⟨503, []⟩ else page request.url), failures.tail)

theorem consistent_pagesNetwork (client : Client) (page : String → Response) (now : Instant) :
    client.Consistent (pagesNetwork page now).host := by
  refine consistent_of_pages client page fun request w response h ↦ ?_
  have hanswer : (if w.network.headD false then ⟨503, []⟩ else page request.url) = response :=
    Option.some.inj h
  by_cases hfails : w.network.headD false = true
  · rw [if_pos hfails] at hanswer
    rw [← hanswer]
    exact Or.inl rfl
  · rw [if_neg hfails] at hanswer
    exact Or.inr hanswer.symm

/-- A page with a message that has a subject. -/
def messagePage (id subject : String) : Response :=
  let header := "\x7b\"name\":\"Subject\",\"value\":\"" ++ subject ++ "\"\x7d"
  let payload := "\x7b\"headers\":[" ++ header ++ "]\x7d"
  ⟨200, Http.bytes ("\x7b\"id\":\"" ++ id ++ "\",\"payload\":" ++ payload ++ "\x7d").toList⟩

/-- The first fetch fails with its second message. That one comes under the identifier of a record
that is there, and the first is wanted twice. -/
theorem refetch_converges_after_failure :
    let client : Client := ⟨"me", "client", "secret", "http://gmail", "http://oauth"⟩
    let parameters := "?format=metadata&metadataHeaders=From&metadataHeaders=To" ++
      "&metadataHeaders=Subject&metadataHeaders=Date"
    let pages (url : String) : Response :=
      if url = "http://gmail/me/messages/1" ++ parameters then messagePage "1" "first"
      else if url = "http://gmail/me/messages/2" ++ parameters then messagePage "0" "moved"
      else ⟨404, []⟩
    let network := pagesNetwork pages ⟨1718020800, 0⟩
    let archive : Archive network.host StoreError :=
      (Store.file "mail.db").archive (Store.spares_host _ network)
    let disk : Disk := { entries := [(["mail.db".toList],
      .database (Database.ofArrivals [⟨"0", "", "", "old", ""⟩]))] }
    let tokens : Tokens := ⟨"access", "refresh", ⟨32472144000, 0⟩⟩
    let fetch := client.fetch network.host archive.put ["1", "2", "1", "3"] 3
    let s : Session (World (List Bool)) := ⟨tokens, ⟨disk, [false, true]⟩⟩
    let u : Session (World (List Bool)) := ⟨tokens, ⟨disk, []⟩⟩
    ∃ s' t' u', client.Consistent network.host ∧
      fetch.run s = (.error (.message "2" (.status 503)), s') ∧
      archive.listing s'.world = .ok [⟨"0", "", "", "old", ""⟩, ⟨"1", "", "", "first", ""⟩] ∧
      fetch.run s' = (.ok 3, t') ∧ fetch.run u = (.ok 3, u') ∧
      archive.listing t'.world = archive.listing u'.world ∧
      archive.listing u'.world =
        .ok [⟨"0", "", "", "moved", ""⟩, ⟨"1", "", "", "first", ""⟩] := by
  intro client parameters pages network archive disk tokens fetch s u
  have consistent : client.Consistent network.host :=
    consistent_pagesNetwork client pages ⟨1718020800, 0⟩
  have hdecided : (fetch.run s).1 = .error (.message "2" (.status 503)) ∧
      archive.listing (fetch.run s).2.world =
        .ok [⟨"0", "", "", "old", ""⟩, ⟨"1", "", "", "first", ""⟩] ∧
      (fetch.run (fetch.run s).2).1 = .ok 3 ∧ (fetch.run u).1 = .ok 3 ∧
      archive.listing u.world = archive.listing s.world ∧
      archive.listing (fetch.run u).2.world =
        .ok [⟨"0", "", "", "moved", ""⟩, ⟨"1", "", "", "first", ""⟩] := by
    decide +kernel
  rcases hcut : fetch.run s with ⟨result, s'⟩
  rcases honce : fetch.run u with ⟨result', u'⟩
  rw [hcut, honce] at hdecided
  rcases hagain : fetch.run s' with ⟨result'', t'⟩
  rw [hagain] at hdecided
  obtain ⟨rfl, hleft, rfl, rfl, hsame, hend⟩ := hdecided
  have hconverges := refetch_converges archive consistent (le_refl 3) hcut rfl hagain hsame honce
  exact ⟨s', t', u', consistent, rfl, hleft, hagain, rfl, hconverges.1, hend⟩

end Client

end MailRules.Mailbox
