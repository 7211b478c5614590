import Mathlib
import MailRules.Proofs.Mailbox.Protocol

/-!
# Where the refresh token comes from

A grant may bring a new refresh token, and if it does not, the old one stays. The events tell which
one is held: tokens are kept only directly after the answer that granted them and a look at the
clock (`OfGrants`), so the refresh token that is held at any point is the last one that a grant has
brought by then, or the one of the start (`OfGrants.refresh_eq`).

A grant brings a refresh token if its answer has a text there, and the empty text is one. An
exchange refuses an empty refresh token as a missing one and nothing ever replaces it then. So a
single answer of the token endpoint can end what a client is able to do
(`Client.refresh_token_lost`). Nothing else does (`Client.refresh_token_follows_grants`).
-/

namespace MailRules.Mailbox

open Http (Request Response)
open Calendar (Instant)

/-! ## New refresh tokens -/

/-- What was answered in the event, if something was sent. -/
def Event.answer? : Event → Option (Option Response)
  | call _ answer => some answer
  | _ => none

/-- The last answer. -/
def lastAnswer (log : List Event) : Option Response :=
  (log.filterMap Event.answer?).getLastD none

theorem lastAnswer_of_answered (log : List Event) (request : Request) (answer : Option Response)
    (now : Instant) : lastAnswer (log ++ [.call request answer, .clock now]) = answer := by
  rw [lastAnswer, List.filterMap_append]
  exact List.getLastD_concat

/-- The refresh token that an event brings after a log: tokens are kept, and the last answer, which
granted them, has a new one. -/
def rotation? (log : List Event) : Event → Option String
  | .save _ (.ok ()) => do
    let response ← lastAnswer log
    let grant ← (Client.granted response).toOption
    grant.refresh
  | _ => none

/-- The refresh tokens that the second log brings after the first. -/
def rotationsAfter (before : List Event) : List Event → List String
  | [] => []
  | event :: log => (rotation? before event).toList ++ rotationsAfter (before ++ [event]) log

/-- The refresh tokens that came with grants. -/
def rotations (log : List Event) : List String := rotationsAfter [] log

theorem rotationsAfter_append (before log later : List Event) :
    rotationsAfter before (log ++ later) =
      rotationsAfter before log ++ rotationsAfter (before ++ log) later := by
  induction log generalizing before with
  | nil => rw [List.append_nil, rotationsAfter, List.nil_append, List.nil_append]
  | cons event log ih =>
    rw [List.cons_append, rotationsAfter, rotationsAfter, ih, List.append_assoc,
      List.append_assoc, List.singleton_append]

theorem rotations_append (log later : List Event) :
    rotations (log ++ later) = rotations log ++ rotationsAfter log later :=
  rotationsAfter_append [] log later

theorem rotations_concat (log : List Event) (event : Event) :
    rotations (log ++ [event]) = rotations log ++ (rotation? log event).toList := by
  rw [rotations_append, rotationsAfter, rotationsAfter, List.append_nil]

theorem eq_save_of_kept?_eq_some {event : Event} {tokens : Tokens}
    (h : event.kept? = some tokens) : event = .save tokens (.ok ()) := by
  cases event with
  | clock | call => cases h
  | save tokens' result =>
    cases result with
    | error reason => cases h
    | ok =>
      obtain rfl := Option.some.inj h
      rfl

theorem rotation?_eq_none {log : List Event} {event : Event} (h : event.kept? = none) :
    rotation? log event = none := by
  cases event with
  | clock | call => rfl
  | save tokens result =>
    cases result with
    | error reason => rfl
    | ok => cases h

/-! ## Tokens of grants -/

theorem held_append (start : Tokens) (log later : List Event) :
    held start (log ++ later) = held (held start log) later := by
  induction later using List.reverseRecOn with
  | nil => rw [List.append_nil]; rfl
  | append_singleton later event ih =>
    rw [← List.append_assoc, held_concat, held_concat, ih]

/-- No tokens were kept. -/
def KeepsNothing (log : List Event) : Prop := ∀ event ∈ log, event.kept? = none

theorem KeepsNothing.held_eq {log : List Event} (h : KeepsNothing log) (start : Tokens) :
    held start log = start := by
  rw [held, List.filterMap_eq_nil_iff.mpr h]
  rfl

/-- Tokens were kept only where they had just been granted. -/
def OfGrants (start : Tokens) (log : List Event) : Prop :=
  ∀ before fresh after, log = before ++ .save fresh (.ok ()) :: after →
    ∃ earlier request response now grant,
      before = earlier ++ [.call request (some response), .clock now] ∧
      Client.granted response = .ok grant ∧
      Client.renewed (held start earlier) grant now = .ok fresh

variable {start tokens : Tokens} {log later : List Event}

theorem Client.refresh_of_renewed {fresh : Tokens} {grant : Grant} {now : Instant}
    (h : Client.renewed tokens grant now = .ok fresh) :
    fresh.refresh = grant.refresh.getD tokens.refresh := by
  rw [Client.renewed] at h
  cases hexpires : now.addSeconds? grant.lifetime with
  | none => simp [hexpires] at h
  | some expires =>
    rw [hexpires] at h
    rw [← Except.ok.inj h]

theorem KeepsNothing.ofGrants (h : KeepsNothing log) : OfGrants start log := by
  rintro before fresh after rfl
  cases h (.save fresh (.ok ())) (List.mem_append_right _ List.mem_cons_self)

theorem OfGrants.append (h : OfGrants start log) (h' : OfGrants (held start log) later) :
    OfGrants start (log ++ later) := by
  intro before fresh after hsplit
  rcases List.append_eq_append_iff.mp hsplit with ⟨begun, rfl, hlater⟩ | ⟨rest, hlog, hrest⟩
  · obtain ⟨earlier, request, response, now, grant, rfl, hgranted, hrenewed⟩ :=
      h' begun fresh after hlater
    refine ⟨log ++ earlier, request, response, now, grant, ?_, hgranted, ?_⟩
    · rw [List.append_assoc]
    · rw [held_append]
      exact hrenewed
  · cases rest with
    | nil =>
      -- nothing of the second log comes before the tokens, but a grant does
      obtain ⟨earlier, request, response, now, grant, himpossible, -, -⟩ :=
        h' [] fresh after hrest.symm
      simp at himpossible
    | cons event rest =>
      obtain ⟨rfl, rfl⟩ := List.cons.inj hrest
      exact h before fresh rest hlog

theorem OfGrants.left (h : OfGrants start (log ++ later)) : OfGrants start log := by
  rintro before fresh after rfl
  exact h before fresh (after ++ later) (by rw [List.append_assoc, List.cons_append])

/-- **The refresh token that is held is the last one that a grant has brought**, or the one of the
start. -/
theorem OfGrants.refresh_eq (h : OfGrants start log) :
    (held start log).refresh = (rotations log).getLastD start.refresh := by
  induction log using List.reverseRecOn with
  | nil => rfl
  | append_singleton log event ih =>
    rw [held_concat, rotations_concat]
    cases hkept : event.kept? with
    | none =>
      rw [rotation?_eq_none hkept, Option.getD_none, Option.toList_none, List.append_nil]
      exact ih h.left
    | some fresh =>
      obtain rfl := eq_save_of_kept?_eq_some hkept
      obtain ⟨earlier, request, response, now, grant, rfl, hgranted, hrenewed⟩ :=
        h log fresh [] rfl
      have hgrant : rotation? (earlier ++ [.call request (some response), .clock now])
          (.save fresh (.ok ())) = grant.refresh := by
        simp [rotation?, lastAnswer_of_answered, hgranted, Except.toOption]
      have hquiet : KeepsNothing [.call request (some response), .clock now] := by
        simp [KeepsNothing, Event.kept?]
      have hheld : (held start earlier).refresh =
          (rotations (earlier ++ [.call request (some response), .clock now])).getLastD
            start.refresh := by
        rw [← ih h.left, held_append, hquiet.held_eq]
      rw [Option.getD_some, hgrant, Client.refresh_of_renewed hrenewed, hheld]
      cases grant.refresh with
      | none => simp
      | some refresh => simp

/-! ## Calls -/

namespace Client

variable {α ω : Type} {client : Client} {now : Instant} {events : List Event}

theorem Renewal.held_eq {fresh : Tokens} (h : client.Renewal tokens events (.ok fresh)) :
    held tokens events = fresh := by
  cases h
  rfl

theorem Renewal.ofGrants {result : Except ClientError Tokens}
    (h : client.Renewal tokens events result) : OfGrants tokens events := by
  cases h with
  | noRefreshToken | noRequest | refused | endless | unsaved =>
    apply KeepsNothing.ofGrants
    simp [KeepsNothing, Event.kept?]
  | @kept request response grant now fresh refreshable request_eq granted_eq renewed_eq =>
    intro before fresh' after hsplit
    obtain ⟨rfl, rfl⟩ : before = [.call request (some response), .clock now] ∧ fresh' = fresh := by
      rcases before with _ | ⟨_, _ | ⟨_, _ | ⟨_, before⟩⟩⟩
      · simp at hsplit
      · simp at hsplit
      · simp only [List.cons_append, List.nil_append, List.cons.injEq, Event.save.injEq] at hsplit
        obtain ⟨rfl, rfl, ⟨rfl, -⟩, -⟩ := hsplit
        exact ⟨rfl, rfl⟩
      · simp at hsplit
    exact ⟨[], request, response, now, grant, rfl, granted_eq, renewed_eq⟩

theorem Opening.held_eq {fresh : Tokens} (h : client.Opening tokens now events (.ok fresh)) :
    held tokens events = fresh := by
  cases h with
  | lasting => rfl
  | due _ _ renewal => exact renewal.held_eq

theorem Opening.ofGrants {result : Except ClientError Tokens}
    (h : client.Opening tokens now events result) : OfGrants tokens events := by
  have hclock : KeepsNothing [.clock now] := List.forall_mem_singleton.mpr rfl
  cases h with
  | beyondCalendar | lasting => exact hclock.ofGrants
  | due _ _ renewal => exact hclock.ofGrants.append renewal.ofGrants

end Client

theorem Attempt.keepsNothing {request? : Option Request} {events : List Event}
    {result : Except ClientError Response} (h : Attempt request? events result) :
    KeepsNothing events := by
  cases h with
  | noRequest => exact List.forall_mem_nil _
  | unanswered | answered => exact List.forall_mem_singleton.mpr rfl

namespace Client

variable {α ω : Type} {client : Client} {query : Query α} {now : Instant} {events : List Event}
  {result : Except ClientError α}

theorem Resending.ofGrants (h : client.Resending query tokens events result) :
    OfGrants tokens events := by
  cases h with
  | unrenewed renewal => exact renewal.ofGrants
  | unsent renewal attempt | unauthorized renewal attempt | accepted renewal attempt =>
    exact renewal.ofGrants.append attempt.keepsNothing.ofGrants

theorem Course.ofGrants (h : client.Course query tokens now events result) :
    OfGrants tokens events := by
  cases h with
  | unopened opening => exact opening.ofGrants
  | unsent opening attempt | accepted opening attempt =>
    exact opening.ofGrants.append attempt.keepsNothing.ofGrants
  | turnedDown opening attempt _ resending =>
    apply opening.ofGrants.append
    apply attempt.keepsNothing.ofGrants.append
    rw [attempt.keepsNothing.held_eq, opening.held_eq]
    exact resending.ofGrants

/-! ## A missing refresh token -/

/-- A renewal misses a refresh token exactly if an empty one is held. -/
theorem Renewal.noRefreshToken_iff {result : Except ClientError Tokens}
    (h : client.Renewal tokens events result) :
    result = .error (.exchange .noRefreshToken) ↔ tokens.refresh = "" := by
  cases h with
  | noRefreshToken empty => exact iff_of_true rfl empty
  | noRequest refreshable => exact iff_of_false (by simp) refreshable
  | @refused _ answer _ refreshable _ noGrant =>
    refine iff_of_false (fun himpossible ↦ ?_) refreshable
    cases himpossible
    cases answer with
    | none => cases noGrant
    | some response => simpa using cases_of_granted_eq_error noGrant
  | endless refreshable _ _ renewed_eq =>
    refine iff_of_false (fun himpossible ↦ ?_) refreshable
    cases himpossible
    rw [renewed] at renewed_eq
    split at renewed_eq <;> cases renewed_eq
  | unsaved refreshable | kept refreshable => exact iff_of_false (by simp) refreshable

/-- At some point of these events the refresh token that is held is empty. -/
def Loses (start : Tokens) (log : List Event) : Prop :=
  ∃ before after, log = before ++ after ∧ (held start before).refresh = ""

theorem Opening.loses (h : client.Opening tokens now events (.error (.exchange .noRefreshToken))) :
    Loses tokens events := by
  cases h with
  | due _ _ renewal => exact ⟨[], _, rfl, renewal.noRefreshToken_iff.mp rfl⟩

theorem Course.loses
    (h : client.Course query tokens now events (.error (.exchange .noRefreshToken))) :
    Loses tokens events := by
  cases h with
  | unopened opening => exact opening.loses
  | unsent opening attempt => cases attempt
  | turnedDown opening attempt _ resending =>
    refine ⟨_, _, rfl, ?_⟩
    rw [opening.held_eq]
    cases resending with
    | unrenewed renewal => exact renewal.noRefreshToken_iff.mp rfl
    | unsent _ attempt => cases attempt
    | accepted _ _ _ decides => cases decides
  | accepted _ _ _ decides => cases decides

/-! ## Runs -/

variable {α ω : Type} {client : Client} {host : Host ω}

/-- What an operation writes down. -/
theorem writes_operation (operation : Operation) (s : Session (ω × List Event)) :
    Writes s (operation.step client host.watched) fun events result _ ↦
      OfGrants s.tokens events ∧
        (result = .error (.exchange .noRefreshToken) → Loses s.tokens events) := by
  have hquery {α : Type} (query : Query α) : Writes s
      ((fun _ ↦ ()) <$> query.step client host.watched) fun events result _ ↦
        OfGrants s.tokens events ∧
          (result = .error (.exchange .noRefreshToken) → Loses s.tokens events) := by
    refine (writes_query query s).map fun events result _ h ↦ ⟨h.ofGrants, fun hresult ↦ ?_⟩
    cases result with
    | ok a => cases hresult
    | error error =>
      obtain rfl := Except.error.inj hresult
      exact h.loses
  cases operation with
  | listing label => exact hquery (.listing label)
  | metadata id => exact hquery (.metadata id)
  | minimal id => exact hquery (.minimal id)
  | modify id changes => exact hquery (.modify id changes)
  | refresh =>
    refine (writes_refresh s).map fun events result _ h ↦ ⟨h.1.ofGrants, fun hresult ↦ ?_⟩
    cases result with
    | ok a => cases hresult
    | error error =>
      obtain rfl := Except.error.inj hresult
      exact ⟨[], events, rfl, h.1.noRefreshToken_iff.mp rfl⟩

/-- What was written down tells which tokens are held, and that they were granted. -/
structure Recorded (client : Client) (start : Tokens) (s : Session (ω × List Event)) : Prop where
  accounted : client.Accounted start s.tokens s.world
  ofGrants : OfGrants start s.world.2

theorem recorded_start (start : Tokens) (w : ω) : client.Recorded start ⟨start, (w, [])⟩ where
  accounted := accounted_nil w
  ofGrants := KeepsNothing.ofGrants (List.forall_mem_nil _)

theorem refresh_error_iff (s : Session (ω × List Event)) :
    ((client.refresh host).run s.unwatched).1 = .error (.exchange .noRefreshToken) ↔
      s.tokens.refresh = "" := by
  have hwrites : Writes s (client.refresh host.watched) _ := writes_refresh s
  obtain ⟨events, -, renewal, -⟩ := hwrites
  rw [refresh_watched s]
  exact renewal.noRefreshToken_iff

theorem Recorded.operation {s : Session (ω × List Event)} (h : client.Recorded start s)
    (operation : Operation) :
    client.Recorded start ((operation.step client host.watched).run s).2 ∧
      (((operation.step client host.watched).run s).1 = .error (.exchange .noRefreshToken) →
        Loses start ((operation.step client host.watched).run s).2.world.2) := by
  have hwrites : Writes s (operation.step client host.watched) _ := writes_operation operation s
  obtain ⟨events, hevents, hgrants, hloses⟩ := hwrites
  have haccounted := (invariant_accounted client host start).operation operation s h.accounted
    trivial
  rw [h.accounted.tokens_eq] at hgrants hloses
  rw [hevents]
  refine ⟨⟨haccounted.1, hevents ▸ h.ofGrants.append hgrants⟩, fun hresult ↦ ?_⟩
  obtain ⟨before, after, rfl, hempty⟩ := hloses hresult
  refine ⟨s.world.2 ++ before, after, (List.append_assoc _ _ _).symm, ?_⟩
  rw [held_append]
  exact hempty

theorem Recorded.perform {s : Session (ω × List Event)} (h : client.Recorded start s)
    (operations : List Operation) :
    client.Recorded start (client.perform host.watched operations s) := by
  induction operations generalizing s with
  | nil => exact h
  | cons operation operations ih =>
    rw [perform_cons]
    exact ih (h.operation operation).1

/-- Where the refresh token that is held is empty at some point, one that was brought is, or that of
the start. -/
theorem mem_rotations_of_loses {log : List Event} (h : OfGrants start log)
    (hloses : Loses start log) : "" ∈ start.refresh :: rotations log := by
  obtain ⟨before, after, rfl, hempty⟩ := hloses
  rw [h.left.refresh_eq] at hempty
  have hlast : "" ∈ start.refresh :: rotations before := by
    rw [← hempty]
    exact List.getLastD_mem_cons
  rw [rotations_append, ← List.cons_append]
  exact List.mem_append_left _ hlast

/-- **The refresh token is that of the last grant which has brought one**, at every point of a run,
or the one of the start. A refresh misses it exactly if that one is empty. So if the client begins
with a refresh token and no grant brings an empty one, there always is one, and nothing that the
client is told to do fails for want of it. -/
theorem refresh_token_follows_grants (client : Client) (host : Host ω) (start : Tokens) (w : ω)
    (operations : List Operation) :
    let after := client.perform host.watched operations ⟨start, (w, [])⟩
    after.unwatched = client.perform host operations ⟨start, w⟩ ∧
      after.tokens = held start after.world.2 ∧
      OfGrants start after.world.2 ∧
      (∀ log later, after.world.2 = log ++ later →
        (held start log).refresh = (rotations log).getLastD start.refresh) ∧
      (((client.refresh host).run after.unwatched).1 = .error (.exchange .noRefreshToken) ↔
        (rotations after.world.2).getLastD start.refresh = "") ∧
      (start.refresh ≠ "" → ∀ operation : Operation,
        let next := (operation.step client host.watched).run after
        "" ∉ rotations next.2.world.2 →
          (∀ log later, next.2.world.2 = log ++ later → (held start log).refresh ≠ "") ∧
          next.1 ≠ .error (.exchange .noRefreshToken)) := by
  intro after
  have hafter : client.Recorded start after := (recorded_start start w).perform operations
  refine ⟨perform_watched _ operations, hafter.accounted.tokens_eq, hafter.ofGrants, ?_, ?_, ?_⟩
  · intro log later hsplit
    apply OfGrants.refresh_eq
    apply OfGrants.left
    rw [← hsplit]
    exact hafter.ofGrants
  · rw [refresh_error_iff, hafter.accounted.tokens_eq, hafter.ofGrants.refresh_eq]
  · intro hstart operation next hrotations
    obtain ⟨hnext, hmissing⟩ := hafter.operation operation
    have hkept : ¬Loses start next.2.world.2 := by
      intro hloses
      rcases List.mem_cons.mp (mem_rotations_of_loses hnext.ofGrants hloses) with hempty | hmem
      · exact hstart hempty.symm
      · exact hrotations hmem
    exact ⟨fun log later hsplit hempty ↦ hkept ⟨log, later, hsplit, hempty⟩,
      fun hresult ↦ hkept (hmissing hresult)⟩

/-- The endpoint grants tokens with an empty refresh token. The client holds it, and there is no
second refresh. -/
theorem refresh_token_lost :
    let client : Client :=
      ⟨"me", "client", "secret", "http://api.test", "http://oauth.test/token"⟩
    let body := "\x7b\"access_token\":\"n\",\"expires_in\":3600,\"refresh_token\":\"\"\x7d".toList
    let script : Script :=
      { clock := ⟨1718020800, 0⟩, answers := [⟨200, Http.bytes body⟩, ⟨200, Http.bytes body⟩] }
    let host := Script.network.host
    let start : Tokens := ⟨"access", "refresh", ⟨1718020900, 0⟩⟩
    let after := client.perform host [.refresh] ⟨start, ⟨{}, script⟩⟩
    after.tokens.refresh = "" ∧
      ((client.refresh host).run after).1 = .error (.exchange .noRefreshToken) := by
  decide +kernel

end Client

end MailRules.Mailbox
