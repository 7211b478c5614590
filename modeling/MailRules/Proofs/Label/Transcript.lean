import Mathlib
import MailRules.Proofs.Step
import MailRules.Proofs.Label.Errand

/-!
# Transcripts of a label service

What a label service was asked and what it answered is a list of exchanges, and a service of its own
keeps that list beside the state of the service it watches (`LabelService.watched`). Calls that fail
are written down like the others.

A run over the watched service is the run over the service itself (`LabelService.shadows_watched`).
So a statement about the calls of a run over any service is one about what a run over the watched
service leaves, and two runs that leave the same have asked for the same and were told the same.
-/

namespace MailRules

namespace LabelService

variable {σ τ ε α : Type}

/-! ## Services seen through their states -/

/-- Seen through `f`, each call of the one service does what the call of the other does. -/
structure Shadows (f : σ → τ) (service : LabelService σ ε) (service' : LabelService τ ε) :
    Prop where
  labels : ∀ s id, Follows f s (service.labels id) (service'.labels id)
  write : ∀ s id a, Follows f s (service.write id a) (service'.write id a)

namespace Shadows

variable {f : σ → τ} {service : LabelService σ ε} {service' : LabelService τ ε}

theorem carryOut (h : Shadows f service service') (s : σ) (id : String) (a : Action) :
    Follows f s (service.carryOut id a) (service'.carryOut id a) := by
  refine (h.labels s id).bind fun labels t ↦ ?_
  by_cases hchanges : changes a labels = true
  · rw [if_pos hchanges, if_pos hchanges]
    exact (h.write t id a).bind fun _ _ ↦ Follows.pure _
  · rw [if_neg hchanges, if_neg hchanges]
    exact Follows.pure _

theorem carryOutEach (h : Shadows f service service') (s : σ) (es : List Errand) :
    Follows f s (service.carryOutEach es) (service'.carryOutEach es) := by
  induction es generalizing s with
  | nil => exact Follows.pure _
  | cons e es ih =>
    exact (h.carryOut s e.id e.action).bind fun _ t ↦ (ih t).bind fun _ _ ↦ Follows.pure _

end Shadows

/-! ## Watching -/

/-- A call and what was answered to it. -/
inductive Exchange (ε : Type)
  | labels (id : String) (answer : Except ε (List String))
  | add (id : String) (label : Label) (answer : Except ε Unit)
  | remove (id : String) (label : Label) (answer : Except ε Unit)
  deriving DecidableEq

/-- A call that is written down with its answer. -/
def noted (exchange : Except ε α → Exchange ε) (call : Step σ ε α) :
    Step (σ × List (Exchange ε)) ε α :=
  Step.ofRun fun (s, transcript) ↦
    let (answer, s) := call.run s
    (answer, (s, transcript ++ [exchange answer]))

/-- A service whose calls are written down. -/
def watched (service : LabelService σ ε) : LabelService (σ × List (Exchange ε)) ε where
  labels id := noted (.labels id) (service.labels id)
  add id label := noted (.add id label) (service.add id label)
  remove id label := noted (.remove id label) (service.remove id label)

theorem follows_noted (exchange : Except ε α → Exchange ε) (call : Step σ ε α)
    (s : σ × List (Exchange ε)) : Follows Prod.fst s (noted exchange call) call := rfl

/-- **Watching a service changes nothing.** -/
theorem shadows_watched (service : LabelService σ ε) :
    Shadows Prod.fst service.watched service where
  labels s id := follows_noted _ _ s
  write s id a := by
    rw [write, write]
    cases a.change <;> exact follows_noted _ _ s

/-! ## Calls that fail -/

/-- The call was not answered. -/
def Exchange.Failed : Exchange ε → Prop
  | labels _ (.error _) | add _ _ (.error _) | remove _ _ (.error _) => True
  | labels _ (.ok _) | add _ _ (.ok _) | remove _ _ (.ok _) => False

instance : DecidablePred (Exchange.Failed : Exchange ε → Prop)
  | .labels _ (.error _) | .add _ _ (.error _) | .remove _ _ (.error _) => .isTrue trivial
  | .labels _ (.ok _) | .add _ _ (.ok _) | .remove _ _ (.ok _) => .isFalse id

/-- The step fails exactly if a call that it writes down has failed. -/
def Tells (step : Step (σ × List (Exchange ε)) ε α) : Prop :=
  ∀ s : σ × List (Exchange ε), ∃ more, (step.run s).2.2 = s.2 ++ more ∧
    ((∃ e, (step.run s).1 = .error e) ↔ ∃ exchange ∈ more, exchange.Failed)

namespace Tells

theorem pure (a : α) : Tells (Pure.pure a : Step (σ × List (Exchange ε)) ε α) := by
  intro s
  refine ⟨[], (List.append_nil _).symm, ?_⟩
  simp

theorem noted {exchange : Except ε α → Exchange ε} (call : Step σ ε α)
    (h : ∀ answer, (exchange answer).Failed ↔ ∃ e, answer = .error e) :
    Tells (noted exchange call) := by
  intro s
  refine ⟨[exchange (call.run s.1).1], rfl, ?_⟩
  simp only [List.mem_singleton, exists_eq_left, h]
  rfl

theorem bind {β : Type} {step : Step (σ × List (Exchange ε)) ε α}
    {next : α → Step (σ × List (Exchange ε)) ε β} (h : Tells step) (hnext : ∀ a, Tells (next a)) :
    Tells (step >>= next) := by
  intro s
  obtain ⟨first, hfirst, hfails⟩ := h s
  rcases hrun : step.run s with ⟨e | a, t⟩
  · rw [hrun] at hfirst hfails
    rw [Step.run_bind_of_error hrun]
    exact ⟨first, hfirst, by simpa using hfails⟩
  · rw [hrun] at hfirst hfails
    obtain ⟨rest, hrest, hfailsRest⟩ := hnext a t
    rw [Step.run_bind_of_ok hrun]
    refine ⟨first ++ rest, ?_, ?_⟩
    · rw [hrest, hfirst, List.append_assoc]
    · -- the first step has not failed, and so none of its calls has
      have hnone : ¬∃ exchange ∈ first, exchange.Failed := fun hfailed ↦ by
        obtain ⟨e, himpossible⟩ := hfails.mpr hfailed
        cases himpossible
      rw [hfailsRest]
      simp only [List.mem_append, or_and_right, exists_or, hnone, false_or]

theorem map {β : Type} {step : Step (σ × List (Exchange ε)) ε α} (h : Tells step) (f : α → β) :
    Tells (f <$> step) := by
  rw [map_eq_pure_bind]
  exact h.bind fun a ↦ Tells.pure (f a)

end Tells

theorem tells_carryOut (service : LabelService σ ε) (id : String) (a : Action) :
    Tells (service.watched.carryOut id a) := by
  have hlabels : Tells (service.watched.labels id) := by
    apply Tells.noted
    rintro (e | labels) <;> simp [Exchange.Failed]
  have hwrite : Tells (service.watched.write id a) := by
    rw [write]
    cases a.change with
    | add | remove =>
      apply Tells.noted
      rintro (e | ⟨⟩) <;> simp [Exchange.Failed]
  refine hlabels.bind fun labels ↦ ?_
  by_cases hchanges : changes a labels = true
  · rw [if_pos hchanges]
    exact hwrite.bind fun _ ↦ Tells.pure _
  · rw [if_neg hchanges]
    exact Tells.pure _

/-- **Errands fail exactly if a call fails that was made for them.** -/
theorem tells_carryOutEach (service : LabelService σ ε) (es : List Errand) :
    Tells (service.watched.carryOutEach es) := by
  induction es with
  | nil => exact Tells.pure _
  | cons e es ih =>
    apply (tells_carryOut service e.id e.action).bind
    intro first
    apply ih.bind
    intro rest
    exact Tells.pure _

end LabelService

end MailRules
