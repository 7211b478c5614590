import MailRules.Sorting
import MailRules.Proofs.Rule.Evaluation

/-!
# What becomes of a record

Planning a record can go wrong in two ways, and the first has precedence over the second wherever in
the rule set the two stand: a rule that cannot be evaluated, and an unknown action name in a rule
that fires. Within each, the first rule at fault is the one that is named. `RuleSet.Decides` says so
without any reference to the order in which planning does its work, and `plan_eq_iff_decides` is the
bridge: a record has exactly one decision, and `plan` returns it.
-/

namespace MailRules

namespace Rule

/-- All conditions of the rule can be evaluated. -/
def Evaluates (rule : Rule) (r : Record) (moment : Moment) : Prop :=
  ∃ fires, rule.fires r moment = .ok fires

theorem evaluates_or_errs (rule : Rule) (r : Record) (moment : Moment) :
    rule.Evaluates r moment ∨ ∃ fault, rule.Errs r moment fault := by
  cases h : rule.fires r moment with
  | error fault => exact Or.inr ⟨fault, fires_eq_error_iff.mp h⟩
  | ok fires => exact Or.inl ⟨fires, h⟩

/-- The rule fires for the record. -/
def Fires (rule : Rule) (r : Record) (moment : Moment) : Prop := rule.fires r moment = .ok true

instance (rule : Rule) (r : Record) (moment : Moment) : Decidable (rule.Fires r moment) :=
  match h : rule.fires r moment with
  | .ok true => .isTrue h
  | .ok false | .error _ => .isFalse (by simp [Fires, h])

end Rule

namespace RuleSet

variable {r : Record} {moment : Moment}

/-- The rules that fire, in their order. -/
def fired (rules : RuleSet) (r : Record) (moment : Moment) : RuleSet :=
  rules.filter (·.Fires r moment)

/-- What planning a record has to come to. -/
inductive Decides (rules : RuleSet) (r : Record) (moment : Moment) : Except Failure Plan → Prop
  /-- The first rule that cannot be evaluated, with the fault of its first faulty condition. -/
  | condition {i : Nat} {fault : ConditionFault}
      (first : FirstAt rules i (·.Evaluates r moment) (·.Errs r moment fault)) :
      Decides rules r moment (.error ⟨r.id, i, .condition fault⟩)
  /-- All rules are evaluated, and of those that fire the first with an unknown name is this one. -/
  | action {i : Nat} {name : String} (evaluate : ∀ rule ∈ rules, rule.Evaluates r moment)
      (first : FirstAt rules i (fun rule ↦ rule.Fires r moment → Action.AllKnown rule.actions)
        (fun rule ↦ rule.Fires r moment ∧ Action.FirstUnknown rule.actions name)) :
      Decides rules r moment (.error ⟨r.id, i, .action name⟩)
  /-- Nothing is at fault, and the actions of the rules that fire are joined in order. -/
  | planned (evaluate : ∀ rule ∈ rules, rule.Evaluates r moment)
      (known : ∀ rule ∈ rules, rule.Fires r moment → Action.AllKnown rule.actions) :
      Decides rules r moment (.ok ⟨(rules.fired r moment).length,
        (rules.fired r moment).flatMap fun rule ↦ rule.actions.filterMap Action.named?⟩)

theorem exists_decides (rules : RuleSet) (r : Record) (moment : Moment) :
    ∃ decision, rules.Decides r moment decision := by
  have hnames : ∀ rule ∈ rules, (rule.Fires r moment → Action.AllKnown rule.actions) ∨
      rule.Fires r moment ∧ ∃ name, Action.FirstUnknown rule.actions name := by
    intro rule _
    rcases Action.allKnown_or_firstUnknown rule.actions with hknown | hunknown
    · exact Or.inl fun _ ↦ hknown
    · exact (Decidable.em (rule.Fires r moment)).symm.imp (fun h hfires ↦ absurd hfires h)
        fun hfires ↦ ⟨hfires, hunknown⟩
  -- Names only count once every rule is evaluated, which is the precedence of the two faults.
  rcases FirstAt.forall_or_exists rules fun rule _ ↦ rule.evaluates_or_errs r moment with
    evaluate | ⟨i, before, rule, after, hsplit, hlen, hgood, fault, hbad⟩
  · rcases FirstAt.forall_or_exists rules hnames with
      known | ⟨i, before, rule, after, hsplit, hlen, hgood, hfires, name, hbad⟩
    · exact ⟨_, .planned evaluate known⟩
    · exact ⟨_, .action evaluate ⟨before, rule, after, hsplit, hlen, hgood, hfires, hbad⟩⟩
  · exact ⟨_, .condition ⟨before, rule, after, hsplit, hlen, hgood, hbad⟩⟩

/-! ## Planning comes to it

The rules are numbered from any `k`, since the tail of a rule set keeps its numbers. -/

theorem firing_zipIdx {rules : RuleSet} (evaluate : ∀ rule ∈ rules, rule.Evaluates r moment)
    (k : Nat) :
    firing r moment (rules.zipIdx k) =
      .ok ((rules.zipIdx k).filter fun numbered ↦ numbered.1.Fires r moment) := by
  induction rules generalizing k with
  | nil => rfl
  | cons rule rules ih =>
    obtain ⟨⟨fires, hfires⟩, hrules⟩ := List.forall_mem_cons.mp evaluate
    rw [List.zipIdx_cons, firing, hfires, ih hrules (k + 1), List.filter_cons]
    cases fires <;> simp [Rule.Fires, hfires, bind, Except.bind, pure, Except.pure]

theorem firing_zipIdx_of_firstAt {rules : RuleSet} {i : Nat} {fault : ConditionFault}
    (first : FirstAt rules i (·.Evaluates r moment) (·.Errs r moment fault)) (k : Nat) :
    firing r moment (rules.zipIdx k) = .error (k + i, .condition fault) := by
  induction rules generalizing i k with
  | nil => exact absurd first FirstAt.not_nil
  | cons rule rules ih =>
    rw [List.zipIdx_cons, firing]
    rcases FirstAt.cons_iff.mp first with ⟨rfl, herrs⟩ | ⟨j, rfl, ⟨fires, hfires⟩, hj⟩
    · rw [Rule.fires_eq_error_iff.mpr herrs]
      rfl
    · rw [hfires, ih hj (k + 1), Nat.add_right_comm k 1 j, Nat.add_assoc k j 1]
      rfl

theorem actionsOf_zipIdx {rules : RuleSet}
    (known : ∀ rule ∈ rules, rule.Fires r moment → Action.AllKnown rule.actions) (k : Nat) :
    actionsOf ((rules.zipIdx k).filter fun numbered ↦ numbered.1.Fires r moment) =
      .ok ((rules.fired r moment).flatMap fun rule ↦ rule.actions.filterMap Action.named?) := by
  induction rules generalizing k with
  | nil => rfl
  | cons rule rules ih =>
    obtain ⟨hrule, hrules⟩ := List.forall_mem_cons.mp known
    rw [List.zipIdx_cons, List.filter_cons, fired, List.filter_cons]
    by_cases hfires : rule.Fires r moment
    · simp only [hfires, decide_true, if_true, List.flatMap_cons]
      rw [actionsOf, Action.ofNames_of_allKnown (hrule hfires), ih hrules (k + 1)]
      rfl
    · simp only [hfires, decide_false, Bool.false_eq_true, if_false]
      exact ih hrules (k + 1)

theorem actionsOf_zipIdx_of_firstAt {rules : RuleSet} {i : Nat} {name : String}
    (first : FirstAt rules i (fun rule ↦ rule.Fires r moment → Action.AllKnown rule.actions)
      (fun rule ↦ rule.Fires r moment ∧ Action.FirstUnknown rule.actions name)) (k : Nat) :
    actionsOf ((rules.zipIdx k).filter fun numbered ↦ numbered.1.Fires r moment) =
      .error (k + i, .action name) := by
  induction rules generalizing i k with
  | nil => exact absurd first FirstAt.not_nil
  | cons rule rules ih =>
    rw [List.zipIdx_cons, List.filter_cons]
    rcases FirstAt.cons_iff.mp first with ⟨rfl, hfires, hname⟩ | ⟨j, rfl, hknown, hj⟩
    · simp only [hfires, decide_true, if_true]
      rw [actionsOf, Action.ofNames_of_firstUnknown hname]
      rfl
    · have hrest := ih hj (k + 1)
      rw [Nat.add_right_comm k 1 j, Nat.add_assoc k j 1] at hrest
      by_cases hfires : rule.Fires r moment
      · simp only [hfires, decide_true, if_true]
        rw [actionsOf, Action.ofNames_of_allKnown (hknown hfires), hrest]
        rfl
      · simpa only [hfires, decide_false, Bool.false_eq_true, if_false] using hrest

theorem length_filter_zipIdx (rules : RuleSet) (k : Nat) :
    ((rules.zipIdx k).filter fun numbered ↦ numbered.1.Fires r moment).length =
      (rules.fired r moment).length := by
  induction rules generalizing k with
  | nil => rfl
  | cons rule rules ih =>
    rw [List.zipIdx_cons, List.filter_cons, fired, List.filter_cons]
    by_cases hfires : rule.Fires r moment <;> simp [hfires, ih (k + 1), fired]

theorem Decides.plan_eq {rules : RuleSet} {decision : Except Failure Plan}
    (h : rules.Decides r moment decision) : rules.plan r moment = decision := by
  rw [plan]
  cases h with
  | condition first =>
    rw [firing_zipIdx_of_firstAt first 0, Nat.zero_add]
    rfl
  | action evaluate first =>
    rw [firing_zipIdx evaluate 0]
    simp only [bind, Except.bind]
    rw [actionsOf_zipIdx_of_firstAt first 0, Nat.zero_add]
  | planned evaluate known =>
    rw [firing_zipIdx evaluate 0]
    simp only [bind, Except.bind]
    rw [actionsOf_zipIdx known 0, length_filter_zipIdx]
    rfl

/-- **A record has exactly one decision, and planning returns it.** -/
theorem plan_eq_iff_decides {rules : RuleSet} {decision : Except Failure Plan} :
    rules.plan r moment = decision ↔ rules.Decides r moment decision := by
  refine ⟨?_, Decides.plan_eq⟩
  rintro rfl
  obtain ⟨decision, h⟩ := exists_decides rules r moment
  rwa [h.plan_eq]

end RuleSet

end MailRules
