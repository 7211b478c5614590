import MailRules.Proofs.Rule.Mistake
import MailRules.Proofs.Sorting.Errands

/-!
# Runs of rule sets with mistakes and without

All rules are evaluated for every record before anything is sent. So one mistaken condition is
enough to make every record a failure, wherever it stands: the run is over any service the step that
does nothing and reports so (`sort_eq_pure_of_forall_error`). What looking through a rule set
reports of conditions is in this sense never idle (`RuleSet.issues_sound`).

The converse has a gap. A rule set without issues can still fail for a reason that is the rule's
own, a target that is an age and leads out of the calendar; what else goes wrong is the date of a
record (`RuleSet.sort_of_clean`). The gap does not depend on a far-away clock, since the longest age
there is leads out of the calendar from any instant of it (`Condition.overreaches_of_lt`).
-/

namespace MailRules

open Calendar

/-! ## Rules that cannot be evaluated -/

section Errs

variable {rules : RuleSet} {r : Record} {moment : Moment}

theorem Rule.exists_errs {rule : Rule} {c : Condition} {fault : ConditionFault}
    (hc : c ∈ rule.conditions) (h : c.evaluate r moment = .error fault) :
    ∃ fault, rule.Errs r moment fault := by
  have hcases : ∀ c ∈ rule.conditions, (∃ holds, c.evaluate r moment = .ok holds) ∨
      ∃ fault, c.evaluate r moment = .error fault := by
    intro c _
    cases c.evaluate r moment with
    | ok holds => exact Or.inl ⟨holds, rfl⟩
    | error e => exact Or.inr ⟨e, rfl⟩
  rcases FirstAt.forall_or_exists rule.conditions hcases with
    hall | ⟨i, before, b, after, hsplit, hlen, hgood, e, hbad⟩
  · obtain ⟨holds, hok⟩ := hall c hc
    rw [h] at hok
    cases hok
  · exact ⟨e, i, before, b, after, hsplit, hlen, hgood, hbad⟩

theorem Rule.not_evaluates_of_errs {rule : Rule} {fault : ConditionFault}
    (h : rule.Errs r moment fault) : ¬rule.Evaluates r moment := by
  rintro ⟨fires, hfires⟩
  rw [Rule.fires_eq_error_iff.mpr h] at hfires
  cases hfires

/-- A rule that cannot be evaluated is to blame, unless one before it is. -/
theorem RuleSet.plan_of_errs {index : ℕ} {rule : Rule} {fault : ConditionFault}
    (hrule : rules[index]? = some rule) (herrs : rule.Errs r moment fault) :
    ∃ j fault, j ≤ index ∧ rules.plan r moment = .error ⟨r.id, j, .condition fault⟩ := by
  have hmem : rule ∈ rules := List.mem_of_getElem? hrule
  obtain ⟨decision, hdecides⟩ := rules.exists_decides r moment
  rw [hdecides.plan_eq]
  cases hdecides with
  | @condition j e first =>
    refine ⟨j, e, ?_, rfl⟩
    -- the first rule that cannot be evaluated is not after this one
    obtain ⟨before, a, after, rfl, rfl, hgood, -⟩ := first
    by_contra hlt
    rw [List.getElem?_append_left (Nat.not_le.mp hlt)] at hrule
    exact Rule.not_evaluates_of_errs herrs (hgood rule (List.mem_of_getElem? hrule))
  | action evaluate _ => exact absurd (evaluate rule hmem) (Rule.not_evaluates_of_errs herrs)
  | planned evaluate _ => exact absurd (evaluate rule hmem) (Rule.not_evaluates_of_errs herrs)

end Errs

/-! ## The failures of a run -/

namespace RuleSet

variable {rules : RuleSet} {moment : Moment} {records : List Record}

theorem record_of_plan_eq_error {r : Record} {failure : Failure}
    (h : rules.plan r moment = .error failure) : failure.record = r.id := by
  cases plan_eq_iff_decides.mp h <;> rfl

theorem mem_among_decisions_iff {failure : Failure} :
    failure ∈ Failure.among (rules.decisions moment records) ↔
      ∃ r ∈ records, rules.plan r moment = .error failure := by
  induction records with
  | nil => simp [decisions, Failure.among]
  | cons r records ih =>
    rw [decisions, List.map_cons, ← decisions, List.exists_mem_cons_iff, ← ih]
    cases rules.plan r moment with
    | ok plan => simp [Failure.among]
    | error e => simp [Failure.among, eq_comm]

theorem map_record_among_decisions
    (h : ∀ r ∈ records, ∃ failure, rules.plan r moment = .error failure) :
    (Failure.among (rules.decisions moment records)).map (·.record) = records.map (·.id) := by
  induction records with
  | nil => rfl
  | cons r records ih =>
    obtain ⟨⟨failure, hfailure⟩, hrecords⟩ := List.forall_mem_cons.mp h
    rw [decisions, List.map_cons, hfailure, Failure.among, List.map_cons, List.map_cons,
      record_of_plan_eq_error hfailure, ← decisions, ih hrecords]

theorem errands_of_forall_error
    (h : ∀ r ∈ records, ∃ failure, rules.plan r moment = .error failure) :
    rules.errands moment records = [] := by
  refine List.flatMap_eq_nil_iff.mpr fun r hr ↦ ?_
  obtain ⟨failure, hfailure⟩ := h r hr
  rw [hfailure, Errand.ofDecision]

theorem plans_of_forall_error
    (h : ∀ r ∈ records, ∃ failure, rules.plan r moment = .error failure) :
    Plan.among (rules.decisions moment records) = [] := by
  induction records with
  | nil => rfl
  | cons r records ih =>
    obtain ⟨⟨failure, hfailure⟩, hrecords⟩ := List.forall_mem_cons.mp h
    rw [decisions, List.map_cons, hfailure, Plan.among, ← decisions, ih hrecords]

/-- **Where every record fails, a run does nothing.** -/
theorem sort_eq_pure_of_forall_error {σ ε : Type} (service : LabelService σ ε)
    (h : ∀ r ∈ records, ∃ failure, rules.plan r moment = .error failure) :
    rules.sort service moment records =
      pure { records := records.length,
             failures := Failure.among (rules.decisions moment records) } := by
  rw [sort_eq_carryOutEach, errands_of_forall_error h, LabelService.carryOutEach, map_pure, report,
    plans_of_forall_error h]
  rfl

/-! ## Rule sets with a mistake -/

theorem plan_of_mistaken {index : ℕ} {rule : Rule} {c : Condition} {fault : ConditionFault}
    (hrule : rules[index]? = some rule) (hc : c ∈ rule.conditions) (hmistaken : c.Mistaken fault)
    (r : Record) (moment : Moment) :
    ∃ j fault, j ≤ index ∧ rules.plan r moment = .error ⟨r.id, j, .condition fault⟩ := by
  obtain ⟨e, herrs⟩ := Rule.exists_errs hc (hmistaken.evaluate_eq r moment)
  exact plan_of_errs hrule herrs

/-- **Issues are what they say.** An issue of a condition is the fault of that condition for every
record at every moment, and with it every run is the step that does nothing over any service and
reports each record as a failure of this rule or one before it. The issues are the mistakes of
conditions and the unknown names of actions, each once, in the order of their places. -/
theorem issues_sound (rules : RuleSet) :
    (∀ index i field fault, Issue.condition index i field fault ∈ rules.issues →
      ∃ rule c, rules[index]? = some rule ∧ rule.conditions[i]? = some c ∧ c.field = field ∧
        (∀ r moment, c.evaluate r moment = .error fault) ∧
        ∀ moment (records : List Record), ∃ report : Report,
          report.records = records.length ∧ report.fired = 0 ∧ report.tally.mutations = 0 ∧
          report.tally.skipped = 0 ∧ report.failures.map (·.record) = records.map (·.id) ∧
          (∀ failure ∈ report.failures, failure.rule ≤ index) ∧
          ∀ {σ ε : Type} (service : LabelService σ ε),
            rules.sort service moment records = pure report) ∧
      (∀ index i field fault, Issue.condition index i field fault ∈ rules.issues ↔
        ∃ rule c, rules[index]? = some rule ∧ rule.conditions[i]? = some c ∧ c.field = field ∧
          c.Mistaken fault) ∧
      (∀ index i name, Issue.action index i name ∈ rules.issues ↔
        ∃ rule, rules[index]? = some rule ∧ rule.actions[i]? = some name ∧
          Action.named? name = none) ∧
      rules.issues.Nodup ∧ rules.issues.Pairwise Issue.Before := by
  refine ⟨?_, fun _ _ _ _ ↦ condition_mem_issues_iff, fun _ _ _ ↦ action_mem_issues_iff,
    nodup_issues rules, pairwise_before_issues rules⟩
  intro index i field fault hissue
  obtain ⟨rule, c, hrule, hc, hfield, hmistaken⟩ := condition_mem_issues_iff.mp hissue
  refine ⟨rule, c, hrule, hc, hfield, hmistaken.evaluate_eq, fun moment records ↦ ?_⟩
  have hplan := fun r ↦ plan_of_mistaken hrule (List.mem_of_getElem? hc) hmistaken r moment
  have hfail : ∀ r ∈ records, ∃ failure, rules.plan r moment = .error failure := by
    intro r _
    obtain ⟨j, e, -, h⟩ := hplan r
    exact ⟨_, h⟩
  refine ⟨_, rfl, rfl, rfl, rfl, map_record_among_decisions hfail, ?_,
    fun service ↦ sort_eq_pure_of_forall_error service hfail⟩
  intro failure hfailure
  obtain ⟨r, -, h⟩ := mem_among_decisions_iff.mp hfailure
  obtain ⟨j, e, hle, h'⟩ := hplan r
  obtain rfl := Except.error.inj (h.symm.trans h')
  exact hle

/-! ## Rule sets without issues -/

/-- What can go wrong with a record when nothing is wrong with the rules. -/
theorem failure_of_clean (clean : rules.issues = [])
    (hnow : moment.now.nanos < nanosPerSecond) {r : Record} {failure : Failure}
    (h : rules.plan r moment = .error failure) :
    failure.fault = .condition (.date r.received) ∧
        Received.instant? moment.zone r.received.toList = none ∨
      ∃ rule c, rules[failure.rule]? = some rule ∧ c ∈ rule.conditions ∧
        c.Overreaches moment.now ∧ failure.fault = .condition (.amount c.target) := by
  have hclean := issues_eq_nil_iff.mp clean
  cases plan_eq_iff_decides.mp h with
  | @condition i fault first =>
    obtain ⟨before, rule, after, rfl, rfl, -, herrs⟩ := first
    obtain ⟨_, front, c, back, hconditions, -, -, hfault⟩ := herrs
    have hrule : rule ∈ before ++ rule :: after := by simp
    have hc : c ∈ rule.conditions := by simp [hconditions]
    obtain ⟨-, ⟨hreach, rfl⟩ | ⟨-, hdate, rfl⟩⟩ :=
      (Condition.evaluate_eq_error_iff hnow ((hclean rule hrule).1 c hc)).mp hfault
    · exact Or.inr ⟨rule, c, by simp, hc, hreach, rfl⟩
    · exact Or.inl ⟨rfl, hdate⟩
  | action evaluate first =>
    obtain ⟨before, rule, after, rfl, -, -, -, hunknown⟩ := first
    obtain ⟨_, front, name, back, hactions, -, -, rfl, hnone⟩ := hunknown
    have hname : name ∈ rule.actions := by simp [hactions]
    exact absurd hnone ((hclean rule (by simp)).2 name hname)

/-- **What a rule set without issues can still fail with.** Each failure of a run is the unreadable
date of its record, or a target that leads out of the calendar. If there is such a target every
record is a failure, and if there is none only the dates of records are to blame. -/
theorem sort_of_clean {σ ε : Type} {service : LabelService σ ε} (clean : rules.issues = [])
    (never : service.NeverFails) (hnow : moment.now.nanos < nanosPerSecond)
    (records : List Record) (s : σ) :
    ∃ report s', (rules.sort service moment records).run s = (.ok report, s') ∧
      (∀ failure ∈ report.failures, ∃ r ∈ records, failure.record = r.id ∧
        (failure.fault = .condition (.date r.received) ∧
            Received.instant? moment.zone r.received.toList = none ∨
          ∃ rule c, rules[failure.rule]? = some rule ∧ c ∈ rule.conditions ∧
            c.Overreaches moment.now ∧ failure.fault = .condition (.amount c.target))) ∧
      ((∃ rule ∈ rules, ∃ c ∈ rule.conditions, c.Overreaches moment.now) →
        report.failures.map (·.record) = records.map (·.id)) := by
  obtain ⟨tally, s', hrun⟩ := never.carryOutEach (rules.errands moment records) s
  refine ⟨rules.report moment records tally, s', ?_, ?_, ?_⟩
  · rw [run_sort, hrun]
    rfl
  · intro failure hfailure
    obtain ⟨r, hr, hplan⟩ := mem_among_decisions_iff.mp hfailure
    exact ⟨r, hr, record_of_plan_eq_error hplan, failure_of_clean clean hnow hplan⟩
  · rintro ⟨rule, hrule, c, hc, hreach⟩
    refine map_record_among_decisions fun r _ ↦ ?_
    obtain ⟨index, hindex⟩ := List.mem_iff_getElem?.mp hrule
    have hfault : c.evaluate r moment = .error (.amount c.target) :=
      (Condition.evaluate_eq_error_iff hnow ((issues_eq_nil_iff.mp clean rule hrule).1 c hc)).mpr
        ⟨hreach.1, Or.inl ⟨hreach, rfl⟩⟩
    obtain ⟨e, herrs⟩ := Rule.exists_errs hc hfault
    obtain ⟨j, e', -, hplan⟩ := plan_of_errs hindex herrs
    exact ⟨_, hplan⟩

/-- A date that cannot be read, and a target that is within the calendar in 2024. -/
theorem sort_of_clean_with_unreadable_date :
    let rules : RuleSet :=
      [⟨.any, [⟨.subject, "contains", "x"⟩, ⟨.received, "less_than", "95000000 days"⟩],
        ["mark_as_read"]⟩]
    let moment : Moment := ⟨⟨1718020800, 0⟩, .utc⟩
    let records : List Record := [⟨"1", "", "", "", "2024-06-09"⟩, ⟨"2", "", "", "", "never"⟩]
    rules.issues = [] ∧ (Memory.service {}).NeverFails ∧ moment.now.nanos < nanosPerSecond ∧
      ∃ report m, (rules.sort (Memory.service {}) moment records).run ⟨{}, []⟩ = (.ok report, m) ∧
        ∀ failure ∈ report.failures, ∃ r ∈ records, failure.record = r.id ∧
          (failure.fault = .condition (.date r.received) ∧
              Received.instant? moment.zone r.received.toList = none ∨
            ∃ rule c, rules[failure.rule]? = some rule ∧ c ∈ rule.conditions ∧
              c.Overreaches moment.now ∧ failure.fault = .condition (.amount c.target)) := by
  intro rules moment records
  have clean : rules.issues = [] := by decide +kernel
  have never : (Memory.service {}).NeverFails := Memory.neverFails_service fun _ _ ↦ rfl
  have hnow : moment.now.nanos < nanosPerSecond := by decide
  obtain ⟨report, m, hrun, hfailures, -⟩ := sort_of_clean clean never hnow records ⟨{}, []⟩
  exact ⟨clean, never, hnow, report, m, hrun, hfailures⟩

/-- The longest age there is: nothing is reported of the rule, and a record with a readable date
fails all the same. -/
theorem overreaching_target_not_reported :
    let rules : RuleSet :=
      [⟨.all, [⟨.received, "greater_than", "106751991167 days"⟩], ["mark_as_read"]⟩]
    let moment : Moment := ⟨⟨1718020800, 0⟩, .utc⟩
    let r : Record := ⟨"1", "", "", "", "2024-06-09T12:00:00Z"⟩
    rules.issues = [] ∧ (Memory.service {}).NeverFails ∧
      Received.instant? moment.zone r.received.toList = some ⟨1717934400, 0⟩ ∧
      (rules.sort (Memory.service {}) moment [r]).run ⟨{}, []⟩ =
        (.ok { records := 1,
               failures := [⟨"1", 0, .condition (.amount "106751991167 days")⟩] }, ⟨{}, []⟩) := by
  intro rules moment r
  refine ⟨by decide +kernel, Memory.neverFails_service fun _ _ ↦ rfl, by decide +kernel, ?_⟩
  have hplan : ∀ r' ∈ [r], ∃ failure, rules.plan r' moment = .error failure := by
    simp only [List.mem_singleton, forall_eq]
    exact ⟨⟨"1", 0, .condition (.amount "106751991167 days")⟩, by decide +kernel⟩
  rw [sort_eq_pure_of_forall_error _ hplan, Step.run_pure]
  decide +kernel

end RuleSet

end MailRules
