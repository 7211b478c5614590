import MailRules.Step

/-!
# Steps seen through their states

Two steps over different states do the same if one state can be read off the other at every point on
the way. `Follows` says so of two steps from one state, and is closed under the ways in which steps
are made of others. A state with a history beside it is the case in use: what is written down about
a run does not change the run.
-/

namespace MailRules

namespace Step

theorem run_get {σ ε : Type} (s : σ) : run (MonadState.get : Step σ ε σ) s = (.ok s, s) := rfl

theorem run_liftExcept {σ ε α : Type} (x : Except ε α) (s : σ) : run (liftExcept x) s = (x, s) := by
  cases x <;> rfl

theorem run_adapt {σ ε ε' α : Type} (f : ε → ε') (step : Step σ ε α) (s : σ) :
    run (ExceptT.adapt f step) s = ((run step s).1.mapError f, (run step s).2) := rfl

end Step

variable {σ τ ε α β : Type} {f : σ → τ} {s : σ}

/-- Seen through `f`, the first step does from `s` what the second does. -/
def Follows (f : σ → τ) (s : σ) (x : Step σ ε α) (y : Step τ ε α) : Prop :=
  y.run (f s) = ((x.run s).1, f (x.run s).2)

theorem Follows.pure (a : α) : Follows f s (Pure.pure a : Step σ ε α) (Pure.pure a) := rfl

theorem Follows.throw (e : ε) :
    Follows f s (throw e : Step σ ε α) (throw e : Step τ ε α) := rfl

theorem Follows.liftExcept (x : Except ε α) :
    Follows f s (liftExcept x : Step σ ε α) (liftExcept x : Step τ ε α) := by
  rw [Follows, Step.run_liftExcept, Step.run_liftExcept]

theorem Follows.bind {x : Step σ ε α} {y : Step τ ε α} {k : α → Step σ ε β} {l : α → Step τ ε β}
    (h : Follows f s x y) (hnext : ∀ a t, Follows f t (k a) (l a)) :
    Follows f s (x >>= k) (y >>= l) := by
  rw [Follows] at h ⊢
  rcases hrun : x.run s with ⟨e | a, t⟩
  · rw [hrun] at h
    rw [Step.run_bind_of_error hrun, Step.run_bind_of_error h]
  · rw [hrun] at h
    rw [Step.run_bind_of_ok hrun, Step.run_bind_of_ok h]
    exact hnext a t

theorem Follows.get_bind {k : σ → Step σ ε β} {l : τ → Step τ ε β}
    (h : Follows f s (k s) (l (f s))) : Follows f s (get >>= k) (get >>= l) := by
  rw [Follows, Step.run_bind_of_ok (Step.run_get s), Step.run_bind_of_ok (Step.run_get (f s))]
  exact h

theorem Follows.map {x : Step σ ε α} {y : Step τ ε α} (h : Follows f s x y) (g : α → β) :
    Follows f s (g <$> x) (g <$> y) := by
  rw [Follows, Step.run_map, Step.run_map, h]

theorem Follows.adapt {ε' : Type} {x : Step σ ε α} {y : Step τ ε α} (h : Follows f s x y)
    (g : ε → ε') : Follows f s (ExceptT.adapt g x) (ExceptT.adapt g y) := by
  rw [Follows, Step.run_adapt, Step.run_adapt, h]

end MailRules
