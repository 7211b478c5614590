import MailRules.Proofs.Sorting.Errands

/-!
# A run that is interrupted

A failing call ends a run there and then. Compared with the run over the same service without its
failures, nothing else is different: up to the first failing call the two runs send the same, and
after it the failing one sends nothing.

## The relation

`Interrupts plan x y` says this of two steps: `y` is what `x` would be if no call failed. It is
closed under sequencing, which is where the argument is: if the first part is interrupted the second
never starts, and if it is not, both second parts start from the same state. A single call is
related to itself without failures, and everything a run does is made of calls, so that the
relation goes through a run part by part and no invariant of the run is needed.
-/

namespace MailRules

namespace MemoryPlan

/-- The same service without its failures. -/
def reliable (plan : MemoryPlan) : MemoryPlan := { plan with fails := fun _ _ ↦ false }

/-- None of these calls fails if the first of them has number `n`. -/
def Spares (plan : MemoryPlan) : Nat → List LabelCall → Prop
  | _, [] => True
  | n, c :: cs => plan.fails n c = false ∧ plan.Spares (n + 1) cs

theorem spares_append {plan : MemoryPlan} {n : Nat} {cs ds : List LabelCall} :
    plan.Spares n (cs ++ ds) ↔ plan.Spares n cs ∧ plan.Spares (n + cs.length) ds := by
  induction cs generalizing n with
  | nil => simp [Spares]
  | cons c cs ih =>
    rw [List.cons_append, Spares, Spares, ih, List.length_cons, Nat.add_right_comm n, and_assoc,
      Nat.add_assoc n]

end MemoryPlan

namespace Memory

variable {α β : Type}

/-- The step `x` does what `y` does and fails at the first call that the plan lets fail. -/
def Interrupts (plan : MemoryPlan) (x y : Step Memory Unavailable α) : Prop :=
  ∀ m : Memory, ∃ a made labels, y.run m = (.ok a, ⟨labels, m.calls ++ made⟩) ∧
    (plan.Spares m.calls.length made ∧ x.run m = (.ok a, ⟨labels, m.calls ++ made⟩) ∨
      ∃ before c after left, made = before ++ c :: after ∧
        plan.Spares m.calls.length before ∧ plan.fails (m.calls.length + before.length) c = true ∧
        x.run m = (.error ⟨c.id⟩, ⟨left, m.calls ++ before ++ [c]⟩))

namespace Interrupts

variable {plan : MemoryPlan}

/-- A step that makes no call and does not fail is not interrupted. -/
theorem of_silent {x : Step Memory Unavailable α}
    (h : ∀ m : Memory, ∃ a labels, x.run m = (.ok a, ⟨labels, m.calls⟩)) :
    Interrupts plan x x := by
  intro m
  obtain ⟨a, labels, hrun⟩ := h m
  refine ⟨a, [], labels, ?_, Or.inl ⟨trivial, ?_⟩⟩ <;> rw [List.append_nil] <;> exact hrun

theorem of_pure (a : α) : Interrupts plan (pure a) (pure a) :=
  of_silent fun m ↦ ⟨a, m.labels, rfl⟩

theorem of_call (c : LabelCall) : Interrupts plan (call plan c) (call plan.reliable c) := by
  intro m
  refine ⟨(), [c], m.labels, run_call c m, ?_⟩
  rw [run_call]
  cases h : plan.fails m.calls.length c with
  | false => exact Or.inl ⟨⟨h, trivial⟩, rfl⟩
  | true =>
    refine Or.inr ⟨[], c, [], m.labels, rfl, trivial, h, ?_⟩
    rw [List.append_nil]
    rfl

theorem bind {x y : Step Memory Unavailable α} {f g : α → Step Memory Unavailable β}
    (hxy : Interrupts plan x y) (hfg : ∀ a, Interrupts plan (f a) (g a)) :
    Interrupts plan (x >>= f) (y >>= g) := by
  intro m
  obtain ⟨a, sent, labels, hy, hx⟩ := hxy m
  obtain ⟨b, made, labels', hg, hf⟩ := hfg a ⟨labels, m.calls ++ sent⟩
  refine ⟨b, sent ++ made, labels', ?_, ?_⟩
  · rw [Step.run_bind_of_ok hy, hg, List.append_assoc]
  rcases hx with ⟨hspares, hx⟩ | ⟨before, c, after, left, rfl, hspares, hfails, hx⟩
  -- Nothing failed in `x`, so `f` starts where `g` does, with as many calls made before.
  · rw [Step.run_bind_of_ok hx]
    rw [List.length_append] at hf
    rcases hf with ⟨hspares', hf⟩ | ⟨before, c, after, left, rfl, hspares', hfails, hf⟩
    · refine Or.inl ⟨MemoryPlan.spares_append.mpr ⟨hspares, hspares'⟩, ?_⟩
      rw [hf, List.append_assoc]
    · refine Or.inr ⟨sent ++ before, c, after, left, (List.append_assoc _ _ _).symm,
        MemoryPlan.spares_append.mpr ⟨hspares, hspares'⟩, ?_, ?_⟩
      · rwa [List.length_append, ← Nat.add_assoc]
      · rw [hf, List.append_assoc m.calls sent before]
  -- Something failed in `x`: `f` never starts, and all that `g` sends comes after the failure.
  · refine Or.inr ⟨before, c, after ++ made, left, ?_, hspares, hfails,
      Step.run_bind_of_error hx⟩
    rw [List.append_assoc, List.cons_append]

theorem map {x y : Step Memory Unavailable α} (f : α → β) (h : Interrupts plan x y) :
    Interrupts plan (f <$> x) (f <$> y) := by
  rw [map_eq_pure_bind, map_eq_pure_bind]
  exact h.bind fun a ↦ of_pure (f a)

/-! ## Through a run -/

theorem labels (id : String) :
    Interrupts plan ((service plan).labels id) ((service plan.reliable).labels id) :=
  (of_call (.get id)).bind fun _ ↦ of_silent fun m ↦ ⟨m.labels.get id, m.labels, rfl⟩

theorem add (id : String) (label : Label) :
    Interrupts plan ((service plan).add id label) ((service plan.reliable).add id label) := by
  refine (of_call (.add id label)).bind fun _ ↦ of_silent fun m ↦ ?_
  cases plan.frozen <;> exact ⟨_, _, rfl⟩

theorem remove (id : String) (label : Label) :
    Interrupts plan ((service plan).remove id label)
      ((service plan.reliable).remove id label) := by
  refine (of_call (.remove id label)).bind fun _ ↦ of_silent fun m ↦ ?_
  cases plan.frozen <;> exact ⟨_, _, rfl⟩

theorem write (id : String) (a : Action) :
    Interrupts plan ((service plan).write id a) ((service plan.reliable).write id a) := by
  rw [LabelService.write, LabelService.write]
  cases a.change with
  | add => exact add id a.label
  | remove => exact remove id a.label

theorem carryOut (id : String) (a : Action) :
    Interrupts plan ((service plan).carryOut id a) ((service plan.reliable).carryOut id a) := by
  refine (labels id).bind fun answer ↦ ?_
  cases LabelService.changes a answer with
  | false => exact of_pure _
  | true => exact (write id a).bind fun _ ↦ of_pure _

theorem carryOutEach (es : List Errand) :
    Interrupts plan ((service plan).carryOutEach es)
      ((service plan.reliable).carryOutEach es) := by
  induction es with
  | nil => exact of_pure _
  | cons e es ih =>
    exact (carryOut e.id e.action).bind fun first ↦ ih.bind fun rest ↦ of_pure _

end Interrupts

end Memory

/-- **A run ends with its first failing call.** The run over the service without failures comes to
an end. If the plan lets none of its calls fail, the run over the failing service is the same run.
Otherwise it sends the same calls up to the first that fails, that one included, and then nothing,
and its error is of that call. -/
theorem RuleSet.sort_interrupted (rules : RuleSet) (moment : Moment) (records : List Record)
    (plan : MemoryPlan) (m : Memory) :
    ∃ report made labels,
      (rules.sort (Memory.service plan.reliable) moment records).run m =
        (.ok report, ⟨labels, m.calls ++ made⟩) ∧
      (plan.Spares m.calls.length made ∧
          (rules.sort (Memory.service plan) moment records).run m =
            (.ok report, ⟨labels, m.calls ++ made⟩) ∨
        ∃ before c after left, made = before ++ c :: after ∧
          plan.Spares m.calls.length before ∧
          plan.fails (m.calls.length + before.length) c = true ∧
          (rules.sort (Memory.service plan) moment records).run m =
            (.error ⟨c.id⟩, ⟨left, m.calls ++ before ++ [c]⟩)) := by
  have h : Memory.Interrupts plan (rules.sort (Memory.service plan) moment records)
      (rules.sort (Memory.service plan.reliable) moment records) := by
    rw [sort_eq_carryOutEach, sort_eq_carryOutEach]
    exact (Memory.Interrupts.carryOutEach _).map _
  exact h m

end MailRules
