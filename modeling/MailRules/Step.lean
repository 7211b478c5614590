/-!
# Steps

A step changes a state and may fail. What it leaves behind is part of its answer also when it
fails: a call that is refused after it was written down stays written down.

Everything about a step can be said of `run`, and the lemmas say what `run` does to each way of
making steps. In a sequence the second step starts from what the first one left, if it did not fail.
-/

namespace MailRules

/-- A step that may fail. The state is what the step leaves, also when it fails. -/
abbrev Step (σ ε α : Type) := ExceptT ε (StateM σ) α

namespace Step

variable {σ τ ε α : Type}

def run (step : Step σ ε α) (state : σ) : Except ε α × σ := StateT.run (ExceptT.run step) state

def ofRun (f : σ → Except ε α × σ) : Step σ ε α := ExceptT.mk f

@[simp] theorem run_ofRun (f : σ → Except ε α × σ) (s : σ) : (ofRun f).run s = f s := rfl

@[simp] theorem ofRun_run (step : Step σ ε α) : ofRun step.run = step := rfl

/-- A step that does not fail. -/
def lift (x : StateM σ α) : Step σ ε α :=
  ofRun fun s ↦
    let (a, s) := x.run s
    (.ok a, s)

/-- A step on a part of the state. -/
def zoom (part : τ → σ) (withPart : σ → τ → τ) (step : Step σ ε α) : Step τ ε α :=
  ofRun fun t ↦
    let (result, s) := step.run (part t)
    (result, withPart s t)

/-! ## What steps leave -/

@[simp] theorem run_pure (a : α) (s : σ) : run (pure a : Step σ ε α) s = (.ok a, s) := rfl

@[simp] theorem run_throw (e : ε) (s : σ) : run (throw e : Step σ ε α) s = (.error e, s) := rfl

theorem run_bind {β : Type} (step : Step σ ε α) (next : α → Step σ ε β) (s : σ) :
    run (step >>= next) s =
      match run step s with
      | (.ok a, s) => run (next a) s
      | (.error e, s) => (.error e, s) := by
  rw [run, ExceptT.run_bind, StateT.run_bind]
  rcases h : run step s with ⟨_ | _, _⟩ <;> rw [run] at h <;> rw [h] <;> rfl

theorem run_bind_of_ok {β : Type} {step : Step σ ε α} {next : α → Step σ ε β} {s t : σ} {a : α}
    (h : run step s = (.ok a, t)) : run (step >>= next) s = run (next a) t := by
  rw [run_bind, h]

theorem run_bind_of_error {β : Type} {step : Step σ ε α} {next : α → Step σ ε β} {s t : σ} {e : ε}
    (h : run step s = (.error e, t)) : run (step >>= next) s = (.error e, t) := by
  rw [run_bind, h]

theorem run_map {β : Type} (f : α → β) (step : Step σ ε α) (s : σ) :
    run (f <$> step) s = ((run step s).1.map f, (run step s).2) := by
  rw [map_eq_pure_bind, run_bind]
  rcases run step s with ⟨_ | _, _⟩ <;> rfl

/-- A sequence fails with its first step, or goes on from what that step left. -/
theorem run_bind_cases {β : Type} {step : Step σ ε α} {next : α → Step σ ε β} {s s' : σ}
    {r : Except ε β} (h : run (step >>= next) s = (r, s')) :
    (∃ e, run step s = (.error e, s') ∧ r = .error e) ∨
      ∃ a t, run step s = (.ok a, t) ∧ run (next a) t = (r, s') := by
  rcases hstep : run step s with ⟨e | a, t⟩
  · rw [run_bind_of_error hstep] at h
    obtain ⟨rfl, rfl⟩ := Prod.mk.inj h
    exact Or.inl ⟨e, rfl, rfl⟩
  · rw [run_bind_of_ok hstep] at h
    exact Or.inr ⟨a, t, rfl, h⟩

@[simp] theorem run_lift (x : StateM σ α) (s : σ) :
    run (lift x : Step σ ε α) s = (.ok (x.run s).1, (x.run s).2) := rfl

@[simp] theorem run_zoom (part : τ → σ) (withPart : σ → τ → τ) (step : Step σ ε α) (t : τ) :
    run (zoom part withPart step) t =
      ((run step (part t)).1, withPart (run step (part t)).2 t) := rfl

end Step

end MailRules
