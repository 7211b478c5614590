import Mathlib
import MailRules.Mailbox.World
import MailRules.Http.Percent
import MailRules.Proofs.Calendar.Instant
import MailRules.Proofs.Step

/-!
# What comes of an exchange

An exchange sends one request and reads the clock after it. Whatever the host does, it comes to one
of three things: there is no grant, and the error says why; there is a grant, and the tokens follow
from it, from the clock and from the tokens before; or there is a grant whose tokens would expire
after the calendar has ended. `Client.IsGranted` says what a grant takes, and the other two are told
apart by the sum of the clock and the lifetime (`Client.exchange_outcome`).

The third is not an answer to a caller, since nobody can go on from outside the calendar. A lifetime
is refused if it is not positive and never because it is too long, so the endpoint decides whether
it comes to that.
-/

namespace MailRules

namespace Mailbox

open Calendar (Instant nanosPerSecond)

namespace Client

variable {ω : Type} {client : Client} {host : Host ω} {tokens fresh : Tokens} {grant : Grant}
  {now : Instant} {error : ExchangeError} {w : ω}

/-! ## Grants -/

theorem granted_eq_ok_iff {response : Http.Response} :
    granted response = .ok grant ↔ 200 ≤ response.status ∧ response.status < 300 ∧
      Grant.codec.readText response.text = .ok grant ∧ 0 < grant.lifetime := by
  rw [granted]
  by_cases hsuccess : 200 ≤ response.status ∧ response.status < 300
  · rw [if_neg (by simpa [Http.Response.isSuccess] using hsuccess)]
    cases hread : Grant.codec.readText response.text with
    | error trouble => simp
    | ok read =>
      by_cases hlifetime : read.lifetime ≤ 0
      · simp only [if_pos hlifetime, reduceCtorEq, Except.ok.injEq, false_iff]
        rintro ⟨-, -, rfl, hpos⟩
        exact not_lt.mpr hlifetime hpos
      · simp only [if_neg hlifetime, Except.ok.injEq, hsuccess, true_and]
        refine ⟨?_, And.left⟩
        rintro rfl
        exact ⟨rfl, not_le.mp hlifetime⟩
  · have hrefused : (!response.isSuccess) = true := by
      simp only [Http.Response.isSuccess, Bool.not_eq_true', Bool.and_eq_false_iff,
        decide_eq_false_iff_not]
      omega
    rw [if_pos hrefused]
    simp only [reduceCtorEq, false_iff]
    exact fun h ↦ hsuccess ⟨h.1, h.2.1⟩

/-- An answer without a grant is no success, cannot be read, or has a lifetime that is not
positive. -/
theorem cases_of_granted_eq_error {response : Http.Response} (h : granted response = .error error) :
    response.isSuccess = false ∧ error = .refused response.status response.text ∨
    (∃ trouble, Grant.codec.readText response.text = .error trouble ∧
      error = .undecodable trouble) ∨
    ∃ grant, Grant.codec.readText response.text = .ok grant ∧ grant.lifetime ≤ 0 ∧
      error = .lifetime grant.lifetime := by
  rw [granted] at h
  split at h
  · rename_i hrefused
    exact Or.inl ⟨by simpa using hrefused, (Except.error.inj h).symm⟩
  · cases hread : Grant.codec.readText response.text with
    | error trouble =>
      rw [hread] at h
      exact Or.inr (Or.inl ⟨trouble, rfl, (Except.error.inj h).symm⟩)
    | ok grant =>
      simp only [hread] at h
      split at h
      · rename_i hlifetime
        exact Or.inr (Or.inr ⟨grant, rfl, hlifetime, (Except.error.inj h).symm⟩)
      · cases h

theorem renewed_eq_ok_iff (h : 0 < grant.lifetime) :
    renewed tokens grant now = .ok fresh ↔ Instant.InRange (now.secs + grant.lifetime) ∧
      fresh = { access := grant.access, refresh := grant.refresh.getD tokens.refresh,
                expires := ⟨now.secs + grant.lifetime,
                  if now.isLeapSecond then now.nanos - nanosPerSecond else now.nanos⟩ } := by
  rw [renewed]
  cases hexpires : now.addSeconds? grant.lifetime with
  | none => simp [(Instant.addSeconds?_eq_none_iff_of_pos h).mp hexpires]
  | some expires =>
    obtain ⟨hrange, rfl⟩ := (Instant.addSeconds?_eq_some_iff_of_pos h).mp hexpires
    simp only [Except.ok.injEq, hrange, true_and]
    exact eq_comm

theorem renewed_eq_error_iff (h : 0 < grant.lifetime) :
    renewed tokens grant now = .error error ↔
      ¬Instant.InRange (now.secs + grant.lifetime) ∧ error = .beyondCalendar := by
  rw [renewed, ← Instant.addSeconds?_eq_none_iff_of_pos h]
  cases now.addSeconds? grant.lifetime with
  | none => simp [eq_comm]
  | some expires => simp

/-- The token endpoint grants new tokens, and the clock shows `now` after that. -/
inductive IsGranted (client : Client) (host : Host ω) (tokens : Tokens) (w : ω) :
    Grant → Instant → Prop
  | intro {request : Http.Request} {response : Http.Response} {w' : ω} {grant : Grant}
      (refreshable : tokens.refresh ≠ "")
      (request_eq : client.exchangeRequest? tokens.refresh = some request)
      (sent : (host.send request).run w = (some response, w'))
      (success : 200 ≤ response.status ∧ response.status < 300)
      (read : Grant.codec.readText response.text = .ok grant)
      (lifetime_pos : 0 < grant.lifetime) :
      IsGranted client host tokens w grant (host.now.run w').1

theorem IsGranted.lifetime_pos (h : client.IsGranted host tokens w grant now) :
    0 < grant.lifetime := by
  obtain ⟨-, -, -, -, -, h⟩ := h
  exact h

/-! ## Exchanging -/

/-- The courses that an exchange can take, with what it comes to and what it leaves. -/
inductive Exchanged (client : Client) (host : Host ω) (tokens : Tokens) (w : ω) :
    Except ExchangeError Tokens × ω → Prop
  | unsent {error : ExchangeError} (ne : error ≠ .beyondCalendar)
      (noRequest : tokens.refresh = "" ∨ client.exchangeRequest? tokens.refresh = none)
      (error_eq : error = if tokens.refresh = "" then .noRefreshToken else .notSent) :
      Exchanged client host tokens w (.error error, w)
  | refused {request : Http.Request} {answer : Option Http.Response} {w' : ω}
      {error : ExchangeError} (ne : error ≠ .beyondCalendar)
      (request_eq : client.exchangeRequest? tokens.refresh = some request)
      (sent : (host.send request).run w = (answer, w'))
      (noGrant : answer.elim (.error .notSent) granted = .error error)
      (refreshable : tokens.refresh ≠ "") :
      Exchanged client host tokens w (.error error, w')
  | granted {request : Http.Request} {response : Http.Response} {w' : ω} {grant : Grant}
      (refreshable : tokens.refresh ≠ "")
      (request_eq : client.exchangeRequest? tokens.refresh = some request)
      (sent : (host.send request).run w = (some response, w'))
      (granted_eq : granted response = .ok grant) :
      Exchanged client host tokens w
        (renewed tokens grant (host.now.run w').1, (host.now.run w').2)

theorem exchanged (client : Client) (host : Host ω) (tokens : Tokens) (w : ω) :
    client.Exchanged host tokens w ((client.exchange host tokens).run w) := by
  rw [exchange]
  by_cases hempty : tokens.refresh.isEmpty = true
  · rw [if_pos hempty]
    have hrefresh : tokens.refresh = "" := String.isEmpty_iff.mp hempty
    have hne : ExchangeError.noRefreshToken ≠ .beyondCalendar := by simp
    exact .unsent hne (Or.inl hrefresh) (if_pos hrefresh).symm
  rw [if_neg hempty]
  have hrefresh : tokens.refresh ≠ "" := mt String.isEmpty_iff.mpr hempty
  have hne : ExchangeError.notSent ≠ .beyondCalendar := by simp
  cases hrequest : client.exchangeRequest? tokens.refresh with
  | none => exact .unsent hne (Or.inr hrequest) (if_neg hrefresh).symm
  | some request =>
    dsimp only
    rw [Step.run_bind_of_ok (Step.run_lift _ _)]
    rcases hsent : (host.send request).run w with ⟨_ | response, w'⟩
    · exact .refused hne hrequest hsent rfl hrefresh
    · cases hgranted : granted response with
      | error e =>
        rw [Step.run_bind_of_error (by rw [Step.run_liftExcept, hgranted])]
        refine .refused (fun he ↦ ?_) hrequest hsent hgranted hrefresh
        simpa [he] using cases_of_granted_eq_error hgranted
      | ok grant =>
        rw [Step.run_bind_of_ok (by rw [Step.run_liftExcept, hgranted])]
        rw [Step.run_bind_of_ok (Step.run_lift _ _), Step.run_liftExcept]
        exact .granted hrefresh hrequest hsent hgranted

theorem IsGranted.run_exchange (h : client.IsGranted host tokens w grant now) :
    ((client.exchange host tokens).run w).1 = renewed tokens grant now := by
  obtain ⟨refreshable, request_eq, sent, success, read, lifetime_pos⟩ := h
  have hgranted := granted_eq_ok_iff.mpr ⟨success.1, success.2, read, lifetime_pos⟩
  have hrun := client.exchanged host tokens w
  generalize (client.exchange host tokens).run w = outcome at hrun ⊢
  cases hrun with
  | unsent ne noRequest => simp [refreshable, request_eq] at noRequest
  | refused ne request_eq' sent' noGrant =>
    obtain rfl := Option.some.inj (request_eq.symm.trans request_eq')
    obtain ⟨rfl, rfl⟩ := Prod.mk.inj (sent.symm.trans sent')
    cases hgranted.symm.trans noGrant
  | granted refreshable' request_eq' sent' granted_eq =>
    obtain rfl := Option.some.inj (request_eq.symm.trans request_eq')
    obtain ⟨hresponse, rfl⟩ := Prod.mk.inj (sent.symm.trans sent')
    obtain rfl := Option.some.inj hresponse
    obtain rfl := Except.ok.inj (hgranted.symm.trans granted_eq)
    rfl

theorem exists_error_of_not_isGranted
    (h : ∀ grant now, ¬client.IsGranted host tokens w grant now) :
    ∃ error ≠ .beyondCalendar, ((client.exchange host tokens).run w).1 = .error error := by
  have hrun := client.exchanged host tokens w
  generalize (client.exchange host tokens).run w = outcome at hrun ⊢
  cases hrun with
  | unsent ne => exact ⟨_, ne, rfl⟩
  | refused ne => exact ⟨_, ne, rfl⟩
  | granted refreshable request_eq sent granted_eq =>
    obtain ⟨hlow, hhigh, read, lifetime_pos⟩ := granted_eq_ok_iff.mp granted_eq
    exact absurd (.intro refreshable request_eq sent ⟨hlow, hhigh⟩ read lifetime_pos) (h _ _)

/-- **Where an exchange ends.** It has new tokens exactly if the endpoint, in an answer that is a
success, grants them for a positive number of seconds and they expire inside the calendar. Then they
expire that many seconds from now, and the refresh token is the old one if the answer has none. The
calendar is left exactly if they would expire outside of it, for nothing else in an answer or before
it does that. -/
theorem exchange_outcome (client : Client) (host : Host ω) (tokens : Tokens) (w : ω) :
    (∀ fresh, ((client.exchange host tokens).run w).1 = .ok fresh ↔
      ∃ grant now, client.IsGranted host tokens w grant now ∧
        Instant.InRange (now.secs + grant.lifetime) ∧
        fresh = { access := grant.access, refresh := grant.refresh.getD tokens.refresh,
                  expires := ⟨now.secs + grant.lifetime,
                    if now.isLeapSecond then now.nanos - nanosPerSecond else now.nanos⟩ }) ∧
      (((client.exchange host tokens).run w).1 = .error .beyondCalendar ↔
        ∃ grant now, client.IsGranted host tokens w grant now ∧
          ¬Instant.InRange (now.secs + grant.lifetime)) := by
  -- what is granted follows from the tokens and the host, so that any grant tells how it ends
  by_cases h : ∃ grant now, client.IsGranted host tokens w grant now
  · obtain ⟨grant, now, hgrant⟩ := h
    constructor
    · intro fresh
      constructor
      · intro hrun
        rw [hgrant.run_exchange, renewed_eq_ok_iff hgrant.lifetime_pos] at hrun
        exact ⟨grant, now, hgrant, hrun⟩
      · rintro ⟨grant', now', hgrant', hfresh⟩
        rw [hgrant'.run_exchange, renewed_eq_ok_iff hgrant'.lifetime_pos]
        exact hfresh
    · constructor
      · intro hrun
        rw [hgrant.run_exchange, renewed_eq_error_iff hgrant.lifetime_pos] at hrun
        exact ⟨grant, now, hgrant, hrun.1⟩
      · rintro ⟨grant', now', hgrant', hout⟩
        rw [hgrant'.run_exchange, renewed_eq_error_iff hgrant'.lifetime_pos]
        exact ⟨hout, rfl⟩
  · simp only [not_exists] at h
    obtain ⟨error, hne, hrun⟩ := exists_error_of_not_isGranted h
    simp [hrun, h, hne]

/-- The longest lifetime that can be written: the answer is a success and the lifetime positive, and
there is no error to give to the caller. -/
theorem exchange_leaves_calendar :
    let client : Client :=
      ⟨"me", "client", "secret", "http://api.test", "http://oauth.test/token"⟩
    let body := "\x7b\"access_token\":\"n\",\"expires_in\":9223372036854775807\x7d".toList
    let script : Script := { clock := ⟨1718020800, 0⟩, answers := [⟨200, Http.bytes body⟩] }
    ((client.exchange Script.network.host ⟨"access", "refresh", ⟨1718020900, 0⟩⟩).run
      ⟨{}, script⟩).1 = .error .beyondCalendar := by
  decide +kernel

end Client

end Mailbox

end MailRules
