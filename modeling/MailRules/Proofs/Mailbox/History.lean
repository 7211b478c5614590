import Mathlib
import MailRules.Proofs.Mailbox.Shadow

/-!
# The history of a host

What a client has asked its host for, and what came of it, is a list of events. A host of its own
keeps that list beside the state of the host it watches (`Host.watched`). It is only a witness: a
client that works with the watched host and one that works with the host itself do the same, step by
step (`Client.perform_watched`).

The list decides what the client holds, because there is one way for tokens to come to be held: the
host has kept them. So at every point of the list the tokens held are the last that were kept, or
those of the start, and the request that is sent there is one of a client that holds them
(`Client.Accounted`).
-/

namespace MailRules.Mailbox

open Http (Request Response)
open Calendar (Instant)

/-! ## Events -/

/-- A call of a host, and what came of it. -/
inductive Event
  | clock (now : Instant)
  | call (request : Request) (answer : Option Response)
  | save (tokens : Tokens) (result : Except String Unit)
  deriving DecidableEq

/-- The tokens that were kept in the event. -/
def Event.kept? : Event → Option Tokens
  | save tokens (.ok ()) => some tokens
  | _ => none

/-- The last tokens that were kept, or those of the start if none were. -/
def held (start : Tokens) (log : List Event) : Tokens := (log.filterMap Event.kept?).getLastD start

theorem held_concat (start : Tokens) (log : List Event) (event : Event) :
    held start (log ++ [event]) = event.kept?.getD (held start log) := by
  rw [held, List.filterMap_append]
  cases h : event.kept? with
  | none => simp [h, held]
  | some tokens => simp [h]

/-! ## Watching -/

/-- A call that is written down. -/
def watch {ω α : Type} (call : StateM ω α) (event : α → Event) : StateM (ω × List Event) α :=
  fun (w, log) ↦
    let (a, w) := call.run w
    (a, (w, log ++ [event a]))

/-- A host whose calls are written down. -/
def Host.watched {ω : Type} (host : Host ω) : Host (ω × List Event) where
  now := watch host.now .clock
  send request := watch (host.send request) (.call request)
  save tokens := watch (host.save tokens) (.save tokens)

theorem run_watch {ω α : Type} (call : StateM ω α) (event : α → Event) (w : ω × List Event) :
    (watch call event).run w =
      ((call.run w.1).1, ((call.run w.1).2, w.2 ++ [event (call.run w.1).1])) := rfl

/-! ## Watching changes nothing -/

variable {ω : Type} {client : Client} {host : Host ω}

theorem eq_of_run_watched_save {tokens : Tokens} {w w' : ω × List Event}
    {result : Except String Unit} (h : (host.watched.save tokens).run w = (result, w')) :
    w' = (((host.save tokens).run w.1).2, w.2 ++ [.save tokens result]) := by
  rw [Host.watched, run_watch] at h
  obtain ⟨rfl, rfl⟩ := Prod.mk.inj h
  rfl

/-- The session without what was written down. -/
def Session.unwatched (s : Session (ω × List Event)) : Session ω := ⟨s.tokens, s.world.1⟩

theorem Host.shadows_watched (host : Host ω) : host.watched.Shadows Prod.fst host where
  now _ := rfl
  send _ _ := rfl
  save _ _ := rfl

namespace Client

variable (s : Session (ω × List Event))

theorem refresh_watched :
    Follows Session.unwatched s (client.refresh host.watched) (client.refresh host) :=
  refresh_shadows host.shadows_watched s

theorem call_watched {α : Type} (codec : Json.Codec α) (request : String → Option Request) :
    Follows Session.unwatched s (client.call host.watched codec request)
      (client.call host codec request) :=
  call_shadows host.shadows_watched s codec request

theorem operation_watched (operation : Operation) :
    Follows Session.unwatched s (operation.step client host.watched)
      (operation.step client host) := by
  cases operation with
  | listing | metadata | minimal | modify => exact (call_watched s _ _).map _
  | refresh => exact (refresh_watched s).map _

/-- **To be watched changes nothing.** -/
theorem perform_watched (operations : List Operation) :
    (client.perform host.watched operations s).unwatched =
      client.perform host operations s.unwatched := by
  induction operations generalizing s with
  | nil => rfl
  | cons operation operations ih =>
    rw [perform_cons, perform_cons, ih, operation_watched s operation]

end Client

/-! ## The account of a run -/

namespace Client

variable {start tokens : Tokens}

/-- The tokens held follow from the events, and the requests sent from the tokens held then. -/
structure Accounted (client : Client) (start tokens : Tokens) (w : ω × List Event) : Prop where
  tokens_eq : tokens = held start w.2
  sends {before after request answer} : w.2 = before ++ .call request answer :: after →
    client.Sends (held start before) request

/-- Before anything has happened the tokens are those of the start. -/
theorem accounted_nil (w : ω) : client.Accounted start start (w, []) where
  tokens_eq := rfl
  sends h := by simp at h

/-- One more event: tokens that are kept are held, and a request is one of the tokens held. -/
theorem Accounted.concat {w : ω} {log : List Event} (h : client.Accounted start tokens (w, log))
    (w' : ω) (event : Event)
    (hsends : ∀ request answer, event = .call request answer → client.Sends tokens request) :
    client.Accounted start (event.kept?.getD tokens) (w', log ++ [event]) where
  tokens_eq := by rw [held_concat, h.tokens_eq]
  sends {before after request answer} hsplit := by
    rcases List.eq_nil_or_concat after with rfl | ⟨after, last, rfl⟩
    · -- the request is the new event, and is sent by the tokens that are held before it
      obtain ⟨rfl, hevent⟩ := List.append_inj' hsplit rfl
      rw [← h.tokens_eq]
      exact hsends request answer (List.singleton_inj.mp hevent)
    · rw [List.concat_eq_append, ← List.cons_append, ← List.append_assoc] at hsplit
      exact h.sends (List.append_inj' hsplit rfl).1

/-- **Every call keeps the account.** -/
theorem invariant_accounted (client : Client) (host : Host ω) (start : Tokens) :
    client.Invariant host.watched (client.Accounted start) where
  clock h := h.concat _ (.clock _) (fun _ _ h ↦ by cases h)
  send h hsends := h.concat _ (.call _ _) (fun _ _ h ↦ by cases h; exact hsends)
  saved {tokens fresh w w'} h _ hsave := by
    rw [eq_of_run_watched_save hsave]
    exact h.concat _ (.save fresh (.ok ())) (fun _ _ h ↦ by cases h)
  unsaved {tokens fresh w w' reason} h _ hsave := by
    rw [eq_of_run_watched_save hsave]
    exact h.concat _ (.save fresh (.error reason)) (fun _ _ h ↦ by cases h)

end Client

end MailRules.Mailbox
