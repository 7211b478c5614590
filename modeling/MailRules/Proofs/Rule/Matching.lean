import Mathlib
import MailRules.Proofs.Rule.Document

/-!
# When a rule fires

A rule counts the conditions that hold and compares the count with what its aggregation asks for.
The count says as much as the conditions themselves: all of them hold exactly if it is their number,
and one of them does exactly if it is positive. So a rule fires as the logical reading of its
aggregation has it (`Rule.fires_eq_ok_iff`), provided that every condition can be evaluated; and if
one cannot, the rule errs with the first such one, even where the others have decided already.

Of the list of conditions nothing is left in this but which conditions are in it, so their order
decides nothing but which fault is named. And a rule set that has been loaded has no rule that fires
on nothing or does nothing.
-/

namespace MailRules

variable {r : Record} {moment : Moment} {rule : Rule}

namespace Condition

/-- The condition can be evaluated. -/
def Evaluates (c : Condition) (r : Record) (moment : Moment) : Prop :=
  ∃ holds, c.evaluate r moment = .ok holds

/-- The condition can be evaluated, and it holds. -/
def Holds (c : Condition) (r : Record) (moment : Moment) : Prop := c.evaluate r moment = .ok true

theorem not_evaluates_iff {c : Condition} :
    ¬c.Evaluates r moment ↔ ∃ fault, c.evaluate r moment = .error fault := by
  unfold Evaluates
  cases c.evaluate r moment <;> simp

end Condition

/-! ## Counting -/

namespace Aggregation

/-- What an aggregation asks of the members of a list. -/
def Asks {α : Type} (a : Aggregation) (l : List α) (holds : α → Prop) : Prop :=
  match a with
  | .all => ∀ x ∈ l, holds x
  | .any => ∃ x ∈ l, holds x

theorem asks_map {α β : Type} (a : Aggregation) (f : α → β) (l : List α) (holds : β → Prop) :
    a.Asks (l.map f) holds ↔ a.Asks l fun x ↦ holds (f x) := by
  cases a <;> simp [Asks]

theorem asks_congr_mem {α : Type} (a : Aggregation) {l l' : List α} (h : ∀ x, x ∈ l ↔ x ∈ l')
    (holds : α → Prop) : a.Asks l holds ↔ a.Asks l' holds := by
  cases a <;> simp [Asks, h]

/-- The number of those that hold is enough just if those that hold are. -/
theorem fires_count_iff (a : Aggregation) (results : List Bool) :
    a.fires (results.count true) results.length = true ↔ a.Asks results (· = true) := by
  cases a with
  | all =>
    rw [fires, beq_iff_eq, List.count_eq_length]
    exact forall₂_congr fun b _ ↦ eq_comm
  | any =>
    rw [fires, decide_eq_true_iff, List.count_pos_iff]
    simp [Asks]

end Aggregation

theorem evaluateAll_eq_ok_iff {cs : List Condition} {results : List Bool} :
    evaluateAll r moment cs = .ok results ↔
      cs.map (·.evaluate r moment) = results.map Except.ok := by
  induction cs generalizing results with
  | nil => cases results <;> simp [evaluateAll]
  | cons c cs ih =>
    rw [evaluateAll, List.map_cons]
    cases hc : c.evaluate r moment with
    | error e => cases results <;> simp [bind, Except.bind]
    | ok holds =>
      cases results with
      | nil => cases evaluateAll r moment cs <;> simp [bind, Except.bind, pure, Except.pure]
      | cons b results =>
        rw [List.map_cons, List.cons.injEq, ← ih]
        cases evaluateAll r moment cs <;> simp [bind, Except.bind, pure, Except.pure]

/-! ## Firing -/

namespace Rule

theorem fires_eq_ok_count_iff {b : Bool} :
    rule.fires r moment = .ok b ↔ ∃ results : List Bool,
      rule.conditions.map (·.evaluate r moment) = results.map Except.ok ∧
        b = rule.aggregation.fires (results.count true) results.length := by
  simp only [← evaluateAll_eq_ok_iff]
  rw [fires]
  cases evaluateAll r moment rule.conditions <;>
    simp [bind, Except.bind, pure, Except.pure, eq_comm]

/-- A rule errs if one of its conditions does, and only then. -/
theorem exists_fires_eq_error_iff :
    (∃ fault, rule.fires r moment = .error fault) ↔
      ∃ c ∈ rule.conditions, ∃ fault, c.evaluate r moment = .error fault := by
  constructor
  · rintro ⟨fault, h⟩
    obtain ⟨_, before, c, after, hsplit, -, -, hc⟩ := fires_eq_error_iff.mp h
    refine ⟨c, ?_, fault, hc⟩
    rw [hsplit]
    exact List.mem_append_right before List.mem_cons_self
  · rintro ⟨c, hmem, fault, hc⟩
    cases h : rule.fires r moment with
    | error e => exact ⟨e, rfl⟩
    | ok b =>
      -- a rule that has an answer has one for each of its conditions
      obtain ⟨results, hresults, -⟩ := fires_eq_ok_count_iff.mp h
      have hin : c.evaluate r moment ∈ results.map Except.ok := by
        rw [← hresults]
        exact List.mem_map_of_mem hmem
      rw [hc] at hin
      simp at hin

/-- **A rule fires as its aggregation reads.** -/
theorem fires_eq_ok_iff {b : Bool} :
    rule.fires r moment = .ok b ↔ (∀ c ∈ rule.conditions, c.Evaluates r moment) ∧
      (b = true ↔ rule.aggregation.Asks rule.conditions (·.Holds r moment)) := by
  have hread {b : Bool} (h : rule.fires r moment = .ok b) :
      b = true ↔ rule.aggregation.Asks rule.conditions (·.Holds r moment) := by
    obtain ⟨results, hresults, rfl⟩ := fires_eq_ok_count_iff.mp h
    calc rule.aggregation.fires (results.count true) results.length = true
        ↔ rule.aggregation.Asks results (· = true) := Aggregation.fires_count_iff _ _
      _ ↔ rule.aggregation.Asks (rule.conditions.map (·.evaluate r moment)) (· = .ok true) := by
          rw [hresults]
          simp only [Aggregation.asks_map, Except.ok.injEq]
      _ ↔ rule.aggregation.Asks rule.conditions (·.Holds r moment) := by
          rw [Aggregation.asks_map]
          rfl
  have herrs : (∃ fault, rule.fires r moment = .error fault) ↔
      ∃ c ∈ rule.conditions, ∃ fault, c.evaluate r moment = .error fault :=
    exists_fires_eq_error_iff
  cases h : rule.fires r moment with
  | error fault =>
    obtain ⟨c, hmem, hc⟩ := herrs.mp ⟨fault, h⟩
    refine iff_of_false (by simp) fun hall ↦ ?_
    exact Condition.not_evaluates_iff.mpr hc (hall.1 c hmem)
  | ok b' =>
    have hall : ∀ c ∈ rule.conditions, c.Evaluates r moment := by
      intro c hmem
      by_contra hc
      obtain ⟨fault, hfault⟩ := herrs.mpr ⟨c, hmem, Condition.not_evaluates_iff.mp hc⟩
      rw [hfault] at h
      cases h
    rw [Except.ok.injEq, ← hread h, Bool.eq_iff_iff]
    exact ⟨fun hb ↦ ⟨hall, hb.symm⟩, fun hb ↦ hb.2.symm⟩

/-! ## Conditions in another order -/

variable {conditions : List Condition}

theorem exists_fires_eq_error_of_perm (h : conditions.Perm rule.conditions) :
    (∃ fault, { rule with conditions }.fires r moment = .error fault) ↔
      ∃ fault, rule.fires r moment = .error fault := by
  rw [exists_fires_eq_error_iff, exists_fires_eq_error_iff]
  simp only [h.mem_iff]

theorem fires_eq_ok_of_perm (h : conditions.Perm rule.conditions) (b : Bool) :
    { rule with conditions }.fires r moment = .ok b ↔ rule.fires r moment = .ok b := by
  rw [fires_eq_ok_iff, fires_eq_ok_iff, Aggregation.asks_congr_mem _ fun _ ↦ h.mem_iff]
  simp only [h.mem_iff]

/-! ## Rules that have been loaded -/

/-- Some condition of a rule that fires holds, unless the rule has none. -/
theorem exists_holds_of_fires (hne : rule.conditions ≠ []) (h : rule.fires r moment = .ok true) :
    ∃ c ∈ rule.conditions, c.Holds r moment := by
  have hasks := (fires_eq_ok_iff.mp h).2.mp rfl
  cases ha : rule.aggregation with
  | all =>
    rw [ha] at hasks
    obtain ⟨c, hc⟩ := List.exists_mem_of_ne_nil _ hne
    exact ⟨c, hc, hasks c hc⟩
  | any =>
    rw [ha] at hasks
    exact hasks

/-- **Rules read as all or any of their conditions.** A rule errs exactly if one of its conditions
does, and then with the fault of the first such one, whatever its aggregation and whatever the
others say. Otherwise it fires exactly if all conditions hold, or if any does, and so it is with its
conditions in any order. Of a rule set that has been loaded, a rule that fires has a condition that
holds and something to do. -/
theorem fires_exact (rule : Rule) (r : Record) (moment : Moment) :
    (∀ fault, rule.fires r moment = .error fault ↔ rule.Errs r moment fault) ∧
    ((∃ fault, rule.fires r moment = .error fault) ↔
      ∃ c ∈ rule.conditions, ∃ fault, c.evaluate r moment = .error fault) ∧
    (∀ b, rule.fires r moment = .ok b ↔ (∀ c ∈ rule.conditions, c.Evaluates r moment) ∧
      (b = true ↔ rule.aggregation.Asks rule.conditions (·.Holds r moment))) ∧
    (∀ conditions, conditions.Perm rule.conditions →
      ((∃ fault, { rule with conditions }.fires r moment = .error fault) ↔
        ∃ fault, rule.fires r moment = .error fault) ∧
      ∀ b, { rule with conditions }.fires r moment = .ok b ↔ rule.fires r moment = .ok b) ∧
    ∀ source rules, RuleSet.load source = .ok rules → rule ∈ rules →
      rule.fires r moment = .ok true →
      (∃ c ∈ rule.conditions, c.Holds r moment) ∧ rule.actions ≠ [] := by
  refine ⟨fun _ ↦ fires_eq_error_iff, exists_fires_eq_error_iff, fun _ ↦ fires_eq_ok_iff,
    fun _ h ↦ ⟨exists_fires_eq_error_of_perm h, fires_eq_ok_of_perm h⟩, ?_⟩
  intro source rules hload hrule hfires
  obtain ⟨hconditions, hactions⟩ := (RuleSet.load_eq_ok_iff.mp hload).2 rule hrule
  exact ⟨exists_holds_of_fires hconditions hfires, hactions⟩

end Rule

end MailRules
