import Mathlib
import MailRules.Mailbox.Sorting
import MailRules.Proofs.Sorting.Outcome
import MailRules.Proofs.Documents
import MailRules.Proofs.Mailbox.Protocol

/-!
# Servers that keep labels

What a client may expect of a server that keeps the labels of messages (`Client.Serves`). It is said
of requests as they are sent, and not of calls: a request for a known message is answered from the
labels, a request to change labels changes them, and either may be turned down without effect,
unless it was turned down before. An exchange is answered with a grant that can be used. In between,
nothing touches the labels.

Which requests are turned down is left to the server. It may owe an answer to a request, and then it
does not turn that one down; turning a request down is what makes it owe one, to the same request
with any token. Exchanges, the clock and the keeping of tokens do not settle what is owed.

Over such a server a call has a result, whatever happens to the tokens on the way
(`Serves.run_send`): a request that is turned down is sent again, and the answer to that one counts.
-/

namespace MailRules.Mailbox

open Http (Request Response)
open Calendar (Instant)
open Json (Codec)

/-- What a request to change labels makes of a labelling. -/
def LabelChanges.applyTo (changes : LabelChanges) (id : String) (v : Labelling) : Labelling :=
  fun i ↦ if i = id then {l | (l ∈ v i ∨ l ∈ changes.add) ∧ l ∉ changes.remove} else v i

theorem LabelChanges.applyTo_add (id label : String) (v : Labelling) :
    ({ add := [label] } : LabelChanges).applyTo id v = v.change .add id label := by
  funext i
  ext l
  by_cases hi : i = id <;> by_cases hl : l = label <;>
    simp [LabelChanges.applyTo, Labelling.change, hi, hl]

theorem LabelChanges.applyTo_remove (id label : String) (v : Labelling) :
    ({ remove := [label] } : LabelChanges).applyTo id v = v.change .remove id label := by
  funext i
  ext l
  by_cases hi : i = id <;> by_cases hl : l = label <;>
    simp [LabelChanges.applyTo, Labelling.change, hi, hl]

/-- The access token can be sent, and there is a refresh token. -/
structure Tokens.Usable (tokens : Tokens) : Prop where
  access : ∃ authorization, Http.bearer? tokens.access = some authorization
  refresh : tokens.refresh ≠ ""

/-- The status is that of an error. -/
def IsFailure (response : Response) : Prop := 400 ≤ response.status ∧ response.status < 600

theorem isUnauthorized_of_not_isFailure {response : Response} (h : ¬IsFailure response) :
    ¬response.isUnauthorized = true := by
  intro hunauthorized
  have hstatus : response.status = 401 := by
    simpa [Response.isUnauthorized] using hunauthorized
  exact h ⟨by omega, by omega⟩

section Answers

variable {ω : Type}

/-- A request is answered, with what it makes of the labelling, or it is turned down without effect.
What is turned down is owed an answer when it comes with another token, and a request that is owed
an answer is not turned down. -/
def Answers (host : Host ω) (view : ω → Labelling) (owes : ω → Request → Prop) (request : Request)
    (w : ω) (effect : Labelling) (content : Response → Prop) : Prop :=
  ∃ response w', (host.send request).run w = (some response, w') ∧
    (response.status = 401 ∧ ¬owes w request ∧ view w' = view w ∧
        (∀ authorization, owes w' { request with authorization }) ∨
      ¬IsFailure response ∧ view w' = effect ∧ content response)

/-- The labels are as they were, and what was owed is still owed. -/
def Unaffected (view : ω → Labelling) (owes : ω → Request → Prop) (w w' : ω) : Prop :=
  view w' = view w ∧ ∀ request, owes w request → owes w' request

variable {view : ω → Labelling} {owes : ω → Request → Prop}

theorem Unaffected.refl (w : ω) : Unaffected view owes w w := ⟨rfl, fun _ howes ↦ howes⟩

theorem Unaffected.trans {w w' w'' : ω} (h : Unaffected view owes w w')
    (h' : Unaffected view owes w' w'') : Unaffected view owes w w'' :=
  ⟨h'.1.trans h.1, fun request howes ↦ h'.2 request (h.2 request howes)⟩

/-- What a client may expect of its host if that is a server of labels. -/
structure Client.Serves (client : Client) (host : Host ω) (known : String → Prop)
    (view : ω → Labelling) (owes : ω → Request → Prop) : Prop where
  /-- The clock shows a time well before the end of the calendar. -/
  clock (w : ω) : Instant.InRange ((host.now.run w).1.secs + refreshBuffer) ∧
    Unaffected view owes w (host.now.run w).2
  save (tokens : Tokens) (w : ω) : ((host.save tokens).run w).1 = .ok () ∧
    Unaffected view owes w ((host.save tokens).run w).2
  /-- An exchange is answered with a grant of any lifetime that ends inside the calendar. -/
  exchange {refresh : String} (refreshable : refresh ≠ "") (w : ω) :
    ∃ request response w' grant, client.exchangeRequest? refresh = some request ∧
      (host.send request).run w = (some response, w') ∧ Unaffected view owes w w' ∧
      200 ≤ response.status ∧ response.status < 300 ∧
      Grant.codec.readText response.text = .ok grant ∧
      0 < grant.lifetime ∧ Instant.InRange ((host.now.run w').1.secs + grant.lifetime) ∧
      (∃ authorization, Http.bearer? grant.access = some authorization) ∧ grant.refresh ≠ some ""
  /-- The address of a known message needs no escapes. -/
  address {id : String} (hknown : known id) :
    Http.address? (client.messageUrl id) [("format", "minimal")] =
        some s!"{client.messageUrl id}?format=minimal" ∧
      Http.address? s!"{client.messageUrl id}/modify" [] = some s!"{client.messageUrl id}/modify"
  /-- Asked for a message, the server answers with its labels. -/
  minimal {id : String} (hknown : known id) (authorization : String) (w : ω) :
    Answers host view owes
      { method := .get, url := s!"{client.messageUrl id}?format=minimal",
        authorization := some authorization, contentType := none, body := "" }
      w (view w) fun response ↦ ∃ message,
        Message.codec.readGlyphs (Text.Utf8.decode response.body) = .ok message ∧
          ∀ label, label ∈ message.labels ↔ label ∈ view w id
  /-- Asked to change labels, the server changes those that the body lists. -/
  modify {id : String} (hknown : known id) (authorization : String) {body : String}
    {changes : LabelChanges} (hread : LabelChanges.codec.readText body = .ok changes) (w : ω) :
    Answers host view owes
      { method := .post, url := s!"{client.messageUrl id}/modify",
        authorization := some authorization, contentType := some "application/json", body }
      w (changes.applyTo id (view w)) fun response ↦ ∃ message,
        Message.codec.readGlyphs (Text.Utf8.decode response.body) = .ok message

end Answers

/-- Requests of a kind that come to one request with its answer: it was accepted, or it was turned
down and sent again with another token. -/
inductive Delivered (kind : Request → Prop) : List (Request × Option Response) → Prop
  | once {r : Request} {a : Response} (is : kind r) (accepted : ¬IsFailure a) :
      Delivered kind [(r, some a)]
  | again {r r' : Request} {a a' : Response} (is : kind r) (turnedDown : a.status = 401)
      (same : r' = { r with authorization := r'.authorization }) (accepted : ¬IsFailure a') :
      Delivered kind [(r, some a), (r', some a')]

theorem Delivered.of_imp {kind kind' : Request → Prop} {sent : List (Request × Option Response)}
    (h : Delivered kind sent) (himp : ∀ r, kind r → kind' r) : Delivered kind' sent := by
  cases h with
  | once is accepted => exact .once (himp _ is) accepted
  | again is turnedDown same accepted => exact .again (himp _ is) turnedDown same accepted

namespace Client

variable {α ω : Type} {client : Client} {host : Host ω} {known : String → Prop}
  {view : ω → Labelling} {owes : ω → Request → Prop}

/-! ## Between requests -/

/-- Nothing was asked of the server but new tokens, and those that are held can be used. -/
structure Settled (view : ω → Labelling) (owes : ω → Request → Prop)
    (s s' : Session (ω × List Event)) : Prop where
  usable : s'.tokens.Usable
  unaffected : Unaffected view owes s.world.1 s'.world.1
  queries_eq : queries s'.world.2 = queries s.world.2

theorem Serves.run_exchange (serves : client.Serves host known view owes) {tokens : Tokens}
    (usable : tokens.Usable) (w : ω × List Event) :
    ∃ fresh w', (client.exchange host.watched tokens).run w = (.ok fresh, w') ∧ fresh.Usable ∧
      Unaffected view owes w.1 w'.1 ∧ queries w'.2 = queries w.2 := by
  obtain ⟨request, response, w', grant, request_eq, sent, hsent, hlow, hhigh, read, hpos, hrange,
    haccess, hrefresh⟩ := serves.exchange usable.refresh w.1
  have hgranted : granted response = .ok grant := granted_eq_ok_iff.mpr ⟨hlow, hhigh, read, hpos⟩
  have hwatched : (host.watched.send request).run w =
      (some response, w', w.2 ++ [.call request (some response)]) := by
    rw [Host.watched, run_watch, sent]
  have hrun := client.exchanged host.watched tokens w
  generalize (client.exchange host.watched tokens).run w = outcome at hrun ⊢
  cases hrun with
  | unsent _ noRequest => simp [usable.refresh, request_eq] at noRequest
  | refused _ request_eq' sent' noGrant =>
    obtain rfl := Option.some.inj (request_eq.symm.trans request_eq')
    obtain ⟨rfl, rfl⟩ := Prod.mk.inj (hwatched.symm.trans sent')
    cases hgranted.symm.trans noGrant
  | granted _ request_eq' sent' granted_eq =>
    obtain rfl := Option.some.inj (request_eq.symm.trans request_eq')
    obtain ⟨hresponse, rfl⟩ := Prod.mk.inj (hwatched.symm.trans sent')
    obtain rfl := Option.some.inj hresponse
    obtain rfl := Except.ok.inj (hgranted.symm.trans granted_eq)
    obtain ⟨-, hclock⟩ := serves.clock w'
    refine ⟨_, _, Prod.ext ((renewed_eq_ok_iff hpos).mpr ⟨hrange, rfl⟩) rfl, ⟨haccess, ?_⟩, ?_, ?_⟩
    · cases hgrant : grant.refresh with
      | none => exact usable.refresh
      | some fresh =>
        rintro rfl
        exact hrefresh hgrant
    · exact hsent.trans hclock
    · rw [Host.watched, run_watch]
      simp [queries, Event.query?, authorization_of_exchangeRequest? request_eq]

theorem Serves.run_refresh (serves : client.Serves host known view owes)
    {s : Session (ω × List Event)} (usable : s.tokens.Usable) :
    ∃ s', (client.refresh host.watched).run s = (.ok s'.tokens, s') ∧ Settled view owes s s' := by
  obtain ⟨fresh, w, hexchange, hfresh, hkept, hqueries⟩ := serves.run_exchange usable s.world
  obtain ⟨hsaved, hsave⟩ := serves.save fresh w.1
  have hwatched : (host.watched.save fresh).run w =
      (.ok (), ((host.save fresh).run w.1).2, w.2 ++ [.save fresh (.ok ())]) := by
    rw [Host.watched, run_watch, hsaved]
  refine ⟨⟨fresh, ((host.save fresh).run w.1).2, w.2 ++ [.save fresh (.ok ())]⟩, ?_, hfresh, ?_, ?_⟩
  · rw [Client.run_refresh, hexchange]
    dsimp only
    rw [hwatched]
  · exact hkept.trans hsave
  · rw [queries_append, hqueries]
    exact List.append_nil _

theorem Serves.run_accessToken (serves : client.Serves host known view owes)
    {s : Session (ω × List Event)} (usable : s.tokens.Usable) :
    ∃ s', (client.accessToken host.watched).run s = (.ok s'.tokens.access, s') ∧
      Settled view owes s s' := by
  obtain ⟨hrange, hclock⟩ := serves.clock s.world.1
  rw [accessToken, Step.run_bind_of_ok (Step.run_get s), Step.run_bind_of_ok (run_now_watched s)]
  generalize hnow : (host.now.run s.world.1).1 = now at hrange
  obtain ⟨soon, hsoon⟩ : ∃ soon, now.addSeconds? refreshBuffer = some soon :=
    ⟨_, (Instant.addSeconds?_eq_some_iff_of_pos (by decide)).mpr ⟨hrange, rfl⟩⟩
  rw [Tokens.needRefresh?, hsoon, Option.map_some]
  have hqueries : queries (s.world.2 ++ [.clock now]) = queries s.world.2 := by
    rw [queries_append]
    exact List.append_nil _
  cases soon.before s.tokens.expires with
  | true =>
    exact ⟨⟨s.tokens, (host.now.run s.world.1).2, s.world.2 ++ [.clock now]⟩, rfl, usable, hclock,
      hqueries⟩
  | false =>
    obtain ⟨s', hrefresh, hsettled⟩ := serves.run_refresh
      (s := ⟨s.tokens, (host.now.run s.world.1).2, s.world.2 ++ [.clock now]⟩) usable
    exact ⟨s', Step.run_bind_of_ok hrefresh, hsettled.usable, hclock.trans hsettled.unaffected,
      hsettled.queries_eq.trans hqueries⟩

/-! ## Requests -/

/-- A request of a kind was delivered and made this of the labelling. -/
structure Served (view : ω → Labelling) (s s' : Session (ω × List Event)) (effect : Labelling)
    (kind : Request → Prop) : Prop where
  usable : s'.tokens.Usable
  view_eq : view s'.world.1 = effect
  delivered : ∃ sent, queries s'.world.2 = queries s.world.2 ++ sent ∧ Delivered kind sent

theorem Served.of_imp {s s' : Session (ω × List Event)} {effect : Labelling}
    {kind kind' : Request → Prop} (h : Served view s s' effect kind)
    (himp : ∀ r, kind r → kind' r) : Served view s s' effect kind' := by
  obtain ⟨sent, hsent, hdelivered⟩ := h.delivered
  exact ⟨h.usable, h.view_eq, sent, hsent, hdelivered.of_imp himp⟩

/-- With any token that can be sent the query has a request, and that one is answered. -/
def Answered (client : Client) (host : Host ω) (view : ω → Labelling) (owes : ω → Request → Prop)
    (query : Query α) (effect : Labelling → Labelling) (content : Labelling → Response → Prop) :
    Prop :=
  ∀ token authorization, Http.bearer? token = some authorization →
    ∃ r, query.request? client token = some r ∧
      ∀ w, Answers host view owes r w (effect (view w)) (content (view w))

variable {query : Query α} {effect : Labelling → Labelling}
  {content : Labelling → Response → Prop} {s : Session (ω × List Event)}

theorem queries_concat_of_request? {token : String} {r : Request}
    (h : query.request? client token = some r) (log : List Event) (answer : Option Response) :
    queries (log ++ [.call r answer]) = queries log ++ [(r, answer)] := by
  rw [queries_append]
  simp [queries, Event.query?, Query.authorization_ne_none h]

/-- What the request is for each token that can be sent, it is for the token it was made of. -/
theorem exists_authorization_of_request? {shape : String → Request}
    (hshape : ∀ token authorization, Http.bearer? token = some authorization →
      query.request? client token = some (shape authorization))
    {token : String} {r : Request} (h : query.request? client token = some r) :
    ∃ authorization, r = shape authorization := by
  obtain ⟨authorization, hauthorization, -⟩ := query.bears h
  exact ⟨authorization, Option.some.inj (h.symm.trans (hshape token authorization hauthorization))⟩

/-- Sent once, with the tokens that are held. -/
theorem Answered.run_attempt (answered : client.Answered host view owes query effect content)
    (usable : s.tokens.Usable) :
    ∃ r a s', query.request? client s.tokens.access = some r ∧
      (attempt host.watched (query.request? client s.tokens.access)).run s = (.ok a, s') ∧
      s'.tokens = s.tokens ∧ queries s'.world.2 = queries s.world.2 ++ [(r, some a)] ∧
      (a.status = 401 ∧ ¬owes s.world.1 r ∧ view s'.world.1 = view s.world.1 ∧
          (∀ authorization, owes s'.world.1 { r with authorization }) ∨
        ¬IsFailure a ∧ view s'.world.1 = effect (view s.world.1) ∧ content (view s.world.1) a) := by
  obtain ⟨authorization, hauthorization⟩ := usable.access
  obtain ⟨r, request_eq, hanswers⟩ := answered _ _ hauthorization
  obtain ⟨a, w, hsent, hanswer⟩ := hanswers s.world.1
  refine ⟨r, a, ⟨s.tokens, w, s.world.2 ++ [.call r (some a)]⟩, request_eq, ?_, rfl,
    queries_concat_of_request? request_eq _ _, hanswer⟩
  have hsend : (Session.outside (Step.lift (host.watched.send r)) : Step _ ClientError _).run s =
      (.ok (some a), ⟨s.tokens, w, s.world.2 ++ [.call r (some a)]⟩) := by
    rw [run_outside, Step.run_lift, Host.watched, run_watch, hsent]
  rw [request_eq]
  exact Step.run_bind_of_ok hsend

/-- Sent again after it was turned down: the answer is owed by now. -/
theorem Serves.run_resend (serves : client.Serves host known view owes)
    (answered : client.Answered host view owes query effect content) {token : String} {r : Request}
    (usable : s.tokens.Usable) (request_eq : query.request? client token = some r)
    (howes : ∀ authorization, owes s.world.1 { r with authorization }) :
    ∃ r' a s',
      (do
        let fresh ← client.refresh host.watched
        let second ← attempt host.watched (query.request? client fresh.access)
        if second.isUnauthorized then throw ClientError.unauthorized else pure second).run s =
          (.ok a, s') ∧
      r' = { r with authorization := r'.authorization } ∧ ¬IsFailure a ∧
      content (view s.world.1) a ∧ s'.tokens.Usable ∧
      view s'.world.1 = effect (view s.world.1) ∧
      queries s'.world.2 = queries s.world.2 ++ [(r', some a)] := by
  obtain ⟨t, hrefresh, hsettled⟩ := serves.run_refresh usable
  obtain ⟨r', a, u, request_eq', hattempt, htokens, hqueries, hanswer⟩ :=
    answered.run_attempt hsettled.usable
  have hsame : r' = { r with authorization := r'.authorization } :=
    query.request?_congr request_eq request_eq'
  rw [hsettled.unaffected.1] at hanswer
  obtain ⟨-, hrefused, -⟩ | ⟨haccepted, hview, hcontent⟩ := hanswer
  · -- it is the same request with another token, and so it is owed an answer still
    have howed : owes s.world.1 r' := by
      rw [hsame]
      exact howes r'.authorization
    exact absurd (hsettled.unaffected.2 r' howed) hrefused
  · refine ⟨r', a, u, ?_, hsame, haccepted, hcontent, htokens ▸ hsettled.usable, hview, ?_⟩
    · rw [Step.run_bind_of_ok hrefresh, Step.run_bind_of_ok hattempt,
        if_neg (isUnauthorized_of_not_isFailure haccepted)]
      rfl
    · rw [hqueries, hsettled.queries_eq]

/-- **A request that can be sent is delivered**, if the server answers it. -/
theorem Serves.run_send (serves : client.Serves host known view owes)
    (answered : client.Answered host view owes query effect content) (usable : s.tokens.Usable) :
    ∃ a s', (client.send host.watched (query.request? client)).run s = (.ok a, s') ∧
      ¬IsFailure a ∧ content (view s.world.1) a ∧
      Served view s s' (effect (view s.world.1)) fun r ↦
        ∃ token, query.request? client token = some r := by
  obtain ⟨t, htoken, hsettled⟩ := serves.run_accessToken usable
  obtain ⟨r, a, u, request_eq, hattempt, htokens, hqueries, hanswer⟩ :=
    answered.run_attempt hsettled.usable
  rw [hsettled.queries_eq] at hqueries
  rw [hsettled.unaffected.1] at hanswer
  rw [send, Step.run_bind_of_ok htoken, Step.run_bind_of_ok hattempt]
  rcases hanswer with ⟨hturned, -, hview, howes⟩ | ⟨haccepted, hview, hcontent⟩
  · obtain ⟨r', a', v, hresend, hsame, haccepted, hcontent, husable, hview', hqueries'⟩ :=
      serves.run_resend answered (htokens ▸ hsettled.usable) request_eq howes
    rw [hview] at hcontent hview'
    rw [hqueries, List.append_assoc] at hqueries'
    rw [if_pos (by simpa [Response.isUnauthorized] using hturned)]
    exact ⟨a', v, hresend, haccepted, hcontent, husable, hview', _, hqueries',
      .again ⟨_, request_eq⟩ hturned hsame haccepted⟩
  · rw [if_neg (isUnauthorized_of_not_isFailure haccepted)]
    exact ⟨a, u, rfl, haccepted, hcontent, htokens ▸ hsettled.usable, hview, _, hqueries,
      .once ⟨_, request_eq⟩ haccepted⟩

/-- A query has as its result what the body of its answer says. -/
theorem Serves.run_query (serves : client.Serves host known view owes)
    {result : Labelling → α → Prop}
    (answered : client.Answered host view owes query effect fun v a ↦ ∃ x,
      query.codec.readGlyphs (Text.Utf8.decode a.body) = .ok x ∧ result v x)
    (usable : s.tokens.Usable) :
    ∃ x s', (query.step client host.watched).run s = (.ok x, s') ∧ result (view s.world.1) x ∧
      Served view s s' (effect (view s.world.1)) fun r ↦
        ∃ token, query.request? client token = some r := by
  obtain ⟨a, s', hsend, haccepted, ⟨x, hread, hresult⟩, hserved⟩ :=
    serves.run_send answered usable
  refine ⟨x, s', ?_, hresult, hserved⟩
  have hreceived : received query.codec a = .ok x := by
    rw [received, if_neg (by simpa [Response.isError, IsFailure] using haccepted), hread]
  rw [Query.step_eq_call, call, Step.run_bind_of_ok hsend, Step.run_liftExcept, hreceived]

/-! ## The label service -/

theorem run_about_of_ok (id : String) {step : Step (Session ω) ClientError α} {a : α}
    {s s' : Session ω} (h : step.run s = (.ok a, s')) : (about id step).run s = (.ok a, s') := by
  rw [about, Step.run_adapt, h]
  rfl

/-- What is sent for a call of a label service. A request to change labels lists one label. -/
def Performs (client : Client) : LabelCall → Request → Prop
  | .get id, r => r.method = .get ∧ r.url = s!"{client.messageUrl id}?format=minimal"
  | .add id label, r => r.method = .post ∧ r.url = s!"{client.messageUrl id}/modify" ∧
      r.body = "\x7b\"addLabelIds\":[\"" ++ label.name ++ "\"]\x7d"
  | .remove id label, r => r.method = .post ∧ r.url = s!"{client.messageUrl id}/modify" ∧
      r.body = "\x7b\"removeLabelIds\":[\"" ++ label.name ++ "\"]\x7d"

theorem compactText_add (label : Label) :
    (LabelChanges.codec.write { add := [label.name] }).compactText =
      "\x7b\"addLabelIds\":[\"" ++ label.name ++ "\"]\x7d" := by
  cases label <;> rfl

theorem compactText_remove (label : Label) :
    (LabelChanges.codec.write { remove := [label.name] }).compactText =
      "\x7b\"removeLabelIds\":[\"" ++ label.name ++ "\"]\x7d" := by
  cases label <;> rfl

theorem Serves.run_labels (serves : client.Serves host known view owes) {id : String}
    (hknown : known id) {s : Session (ω × List Event)} (usable : s.tokens.Usable) :
    ∃ labels s', ((client.labelService host.watched).labels id).run s = (.ok labels, s') ∧
      (∀ label, label ∈ labels ↔ label ∈ view s.world.1 id) ∧
      Served view s s' (view s.world.1) (client.Performs (.get id)) := by
  have hrequest (token authorization : String) (h : Http.bearer? token = some authorization) :
      (Query.minimal id).request? client token = some
        { method := .get, url := s!"{client.messageUrl id}?format=minimal",
          authorization := some authorization, contentType := none, body := "" } := by
    rw [Query.request?, minimalRequest?, Request.get?, (serves.address hknown).1, h]
    rfl
  have answered : client.Answered host view owes (.minimal id) (fun v ↦ v) fun v a ↦ ∃ message,
      Message.codec.readGlyphs (Text.Utf8.decode a.body) = .ok message ∧
        ∀ label, label ∈ message.labels ↔ label ∈ v id :=
    fun token authorization h ↦
      ⟨_, hrequest token authorization h, serves.minimal hknown authorization⟩
  obtain ⟨message, s', hrun, hlabels, hserved⟩ := serves.run_query answered usable
  refine ⟨message.labels.eraseDups, s', Step.run_bind_of_ok (run_about_of_ok id hrun),
    fun label ↦ ?_, hserved.of_imp ?_⟩
  · rw [List.mem_eraseDups, hlabels]
  · rintro r ⟨token, request_eq⟩
    obtain ⟨authorization, rfl⟩ := exists_authorization_of_request? hrequest request_eq
    exact ⟨rfl, rfl⟩

/-- A request with one body, whatever the token. -/
theorem Serves.run_change (serves : client.Serves host known view owes) {id : String}
    (hknown : known id) (changes : LabelChanges) {s : Session (ω × List Event)}
    (usable : s.tokens.Usable) :
    ∃ s', (client.change host.watched id changes).run s = (.ok (), s') ∧
      Served view s s' (changes.applyTo id (view s.world.1)) fun r ↦
        r.method = .post ∧ r.url = s!"{client.messageUrl id}/modify" ∧
          r.body = (LabelChanges.codec.write changes).compactText := by
  have hread : LabelChanges.codec.readText (LabelChanges.codec.write changes).compactText =
      .ok changes := (LabelChanges.restores_codec changes).readText_compactText
  have hrequest (token authorization : String) (h : Http.bearer? token = some authorization) :
      (Query.modify id changes).request? client token = some
        { method := .post, url := s!"{client.messageUrl id}/modify",
          authorization := some authorization, contentType := some "application/json",
          body := (LabelChanges.codec.write changes).compactText } := by
    rw [Query.request?, modifyRequest?, Request.postJson?, (serves.address hknown).2, h]
    rfl
  have answered : client.Answered host view owes (.modify id changes) (changes.applyTo id)
      fun _ a ↦ ∃ message,
        Message.codec.readGlyphs (Text.Utf8.decode a.body) = .ok message ∧ True := by
    refine fun token authorization h ↦ ⟨_, hrequest token authorization h, fun w ↦ ?_⟩
    simpa using serves.modify hknown authorization hread w
  obtain ⟨message, s', hrun, -, hserved⟩ := serves.run_query answered usable
  refine ⟨s', Step.run_bind_of_ok (run_about_of_ok id hrun), hserved.of_imp ?_⟩
  rintro r ⟨token, request_eq⟩
  obtain ⟨authorization, rfl⟩ := exists_authorization_of_request? hrequest request_eq
  exact ⟨rfl, rfl, rfl⟩

theorem Serves.run_write (serves : client.Serves host known view owes) {e : Errand}
    (hknown : known e.id) {s : Session (ω × List Event)} (usable : s.tokens.Usable) :
    ∃ s', ((client.labelService host.watched).write e.id e.action).run s = (.ok (), s') ∧
      Served view s s' (e.applyTo (view s.world.1)) (client.Performs (.ofErrand e)) := by
  rw [LabelService.write, Errand.applyTo, LabelCall.ofErrand]
  cases e.action.change with
  | add =>
    obtain ⟨s', hrun, hserved⟩ := serves.run_change hknown { add := [e.action.label.name] } usable
    rw [LabelChanges.applyTo_add, compactText_add] at hserved
    exact ⟨s', hrun, hserved⟩
  | remove =>
    obtain ⟨s', hrun, hserved⟩ :=
      serves.run_change hknown { remove := [e.action.label.name] } usable
    rw [LabelChanges.applyTo_remove, compactText_remove] at hserved
    exact ⟨s', hrun, hserved⟩

end Client

end MailRules.Mailbox
