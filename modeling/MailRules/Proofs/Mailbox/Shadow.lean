import Mathlib
import MailRules.Proofs.Mailbox.Invariant
import MailRules.Proofs.Step

/-!
# Hosts seen through their states

A host whose state holds more than that of another one may answer every call as the other one does
(`Host.Shadows`). A client cannot tell the two apart: whatever it does with the first host, it does
with the second, and what the first leaves is, seen through the state, what the second leaves
(`Client.call_shadows`). So something can be kept beside the state of a host, such as a list of its
calls, and what is then said of the results is said of the host alone.

The client only ever calls its host, decides by what it was answered, and keeps the tokens. So the
proof follows the program and has nothing to say of its own.
-/

namespace MailRules

theorem Follows.lift {σ τ ε α : Type} {f : σ → τ} {s : σ} {x : StateM σ α} {y : StateM τ α}
    (h : y.run (f s) = ((x.run s).1, f (x.run s).2)) :
    Follows f s (Step.lift x : Step σ ε α) (Step.lift y) := by
  rw [Follows, Step.run_lift, Step.run_lift, h]

namespace Mailbox

open Http (Request)

variable {ω τ : Type} {f : ω → τ} {client : Client} {host : Host ω} {host' : Host τ}

/-- Seen through `f`, the calls of the first host are those of the second. -/
structure Host.Shadows (f : ω → τ) (host : Host ω) (host' : Host τ) : Prop where
  now (w : ω) : host'.now.run (f w) = ((host.now.run w).1, f (host.now.run w).2)
  send (request : Request) (w : ω) : (host'.send request).run (f w) =
    (((host.send request).run w).1, f ((host.send request).run w).2)
  save (tokens : Tokens) (w : ω) : (host'.save tokens).run (f w) =
    (((host.save tokens).run w).1, f ((host.save tokens).run w).2)

/-- The session over the state that is seen. -/
def Session.map (f : ω → τ) (s : Session ω) : Session τ := ⟨s.tokens, f s.world⟩

theorem Follows.outside {ε α : Type} {s : Session ω} {x : Step ω ε α} {y : Step τ ε α}
    (h : Follows f s.world x y) :
    Follows (Session.map f) s (Session.outside x) (Session.outside y) := by
  rw [Follows, run_outside, run_outside]
  exact congrArg (fun p ↦ (p.1, (⟨s.tokens, p.2⟩ : Session τ))) h

namespace Client

variable (h : host.Shadows f host')

include h

theorem exchange_shadows (tokens : Tokens) (w : ω) :
    Follows f w (client.exchange host tokens) (client.exchange host' tokens) := by
  rw [exchange, exchange]
  by_cases hempty : tokens.refresh.isEmpty = true
  · rw [if_pos hempty, if_pos hempty]
    exact Follows.throw _
  rw [if_neg hempty, if_neg hempty]
  cases client.exchangeRequest? tokens.refresh with
  | none => exact Follows.throw _
  | some request =>
    refine (Follows.lift (h.send request w)).bind fun answer w ↦ ?_
    cases answer with
    | none => exact Follows.throw _
    | some response =>
      refine (Follows.liftExcept _).bind fun grant w ↦ ?_
      exact (Follows.lift (h.now w)).bind fun now w ↦ Follows.liftExcept _

variable (s : Session ω)

theorem refresh_shadows :
    Follows (Session.map f) s (client.refresh host) (client.refresh host') := by
  refine Follows.get_bind ?_
  refine (Follows.outside ((exchange_shadows h s.tokens s.world).adapt _)).bind fun fresh t ↦ ?_
  refine (Follows.outside (Follows.lift (h.save fresh t.world))).bind fun result t ↦ ?_
  cases result with
  | error reason => exact Follows.throw _
  | ok => rfl

theorem accessToken_shadows :
    Follows (Session.map f) s (client.accessToken host) (client.accessToken host') := by
  refine Follows.get_bind ?_
  refine (Follows.outside (Follows.lift (h.now s.world))).bind fun now t ↦ ?_
  rw [show (s.map f).tokens = s.tokens from rfl]
  cases s.tokens.needRefresh? now with
  | none => exact Follows.throw _
  | some due =>
    cases due with
    | false => exact Follows.pure _
    | true => exact (refresh_shadows h t).bind fun fresh t ↦ Follows.pure _

theorem attempt_shadows (request? : Option Request) :
    Follows (Session.map f) s (attempt host request?) (attempt host' request?) := by
  cases request? with
  | none => exact Follows.throw _
  | some request =>
    refine (Follows.outside (Follows.lift (h.send request s.world))).bind fun answer t ↦ ?_
    cases answer with
    | none => exact Follows.throw _
    | some response => exact Follows.pure _

theorem send_shadows (request : String → Option Request) :
    Follows (Session.map f) s (client.send host request) (client.send host' request) := by
  refine (accessToken_shadows h s).bind fun token t ↦
    (attempt_shadows h t _).bind fun first t ↦ ?_
  by_cases hunauthorized : first.isUnauthorized = true
  · rw [if_pos hunauthorized, if_pos hunauthorized]
    refine (refresh_shadows h t).bind fun fresh t ↦ (attempt_shadows h t _).bind fun second t ↦ ?_
    by_cases hagain : second.isUnauthorized = true
    · rw [if_pos hagain, if_pos hagain]
      exact Follows.throw _
    · rw [if_neg hagain, if_neg hagain]
      exact Follows.pure _
  · rw [if_neg hunauthorized, if_neg hunauthorized]
    exact Follows.pure _

/-- **A call does with the one host what it does with the other.** -/
theorem call_shadows {α : Type} (codec : Json.Codec α) (request : String → Option Request) :
    Follows (Session.map f) s (client.call host codec request)
      (client.call host' codec request) :=
  (send_shadows h s request).bind fun _ _ ↦ Follows.liftExcept _

end Client

end Mailbox

end MailRules
