import Mathlib
import MailRules.Rule.Issue
import MailRules.Proofs.Calendar.Instant
import MailRules.Proofs.Rule.Evaluation

/-!
# Mistakes, and what is no mistake

A rule set is looked through without a record and without a clock, and evaluated with both. What the
first can find of the second is said here of a single condition: a mistake is a fault that it has
for every record at every moment (`Condition.Mistaken.evaluate_eq`), and a condition without one
fails in two ways only (`Condition.evaluate_eq_error_iff`). One is the date of the record. The other
is a target that is an age and leads out of the calendar, which `Condition.Overreaches` states in
plain arithmetic, because it is neither seen without the clock nor the record's doing.

The list of issues is described by what is in it and by its order
(`RuleSet.pairwise_before_issues`). No issue stands before itself, so that none is reported twice
(`RuleSet.nodup_issues`).
-/

namespace MailRules

open Calendar

/-! ## Ages of targets -/

section Targets

variable {target : String} {fault : ConditionFault}

theorem targetAge_eq_ok_iff {seconds : ℤ} :
    targetAge target = .ok seconds ↔
      ∃ days, Age.days target = .ok days ∧ seconds = 86400 * days := by
  rw [targetAge, Age.seconds]
  rcases Age.days target with (_ | _) | days
  · simp
  · simp
  · simp [eq_comm]

theorem targetAge_eq_error_iff :
    targetAge target = .error fault ↔
      Age.days target = .error .unit ∧ fault = .unit target ∨
        Age.days target = .error .amount ∧ fault = .amount target := by
  rw [targetAge, Age.seconds]
  rcases Age.days target with (_ | _) | days
  · simp [eq_comm]
  · simp [eq_comm]
  · simp

end Targets

/-! ## Conditions -/

namespace Condition

variable {c : Condition} {r : Record} {moment : Moment} {fault : ConditionFault}

/-- What is wrong with a condition whatever the record. The name of the predicate is looked at
before the target. -/
inductive Mistaken (c : Condition) : ConditionFault → Prop
  | textPredicate (kind : c.field.kind = .text)
      (unknown : TextPredicate.named? c.predicate = none) :
      Mistaken c (.unknownPredicate c.predicate .text)
  | datePredicate (kind : c.field.kind = .date)
      (unknown : DatePredicate.named? c.predicate = none) :
      Mistaken c (.unknownPredicate c.predicate .date)
  | unit (kind : c.field.kind = .date) (known : DatePredicate.named? c.predicate ≠ none)
      (noAge : Age.days c.target = .error .unit) : Mistaken c (.unit c.target)
  | amount (kind : c.field.kind = .date) (known : DatePredicate.named? c.predicate ≠ none)
      (noAge : Age.days c.target = .error .amount) : Mistaken c (.amount c.target)

theorem fault?_eq_some_iff : c.fault? = some fault ↔ c.Mistaken fault := by
  constructor
  · intro h
    rw [fault?] at h
    cases hkind : c.field.kind with
    | text =>
      cases hname : TextPredicate.named? c.predicate with
      | none =>
        obtain rfl : ConditionFault.unknownPredicate c.predicate .text = fault := by
          simpa [hkind, hname] using h
        exact .textPredicate hkind hname
      | some p => simp [hkind, hname] at h
    | date =>
      cases hname : DatePredicate.named? c.predicate with
      | none =>
        obtain rfl : ConditionFault.unknownPredicate c.predicate .date = fault := by
          simpa [hkind, hname] using h
        exact .datePredicate hkind hname
      | some p =>
        have hknown : DatePredicate.named? c.predicate ≠ none := by simp [hname]
        cases hage : targetAge c.target with
        | ok age => simp [hkind, hname, hage] at h
        | error e =>
          obtain rfl : e = fault := by simpa [hkind, hname, hage] using h
          rcases targetAge_eq_error_iff.mp hage with ⟨hdays, rfl⟩ | ⟨hdays, rfl⟩
          · exact .unit hkind hknown hdays
          · exact .amount hkind hknown hdays
  · intro h
    rw [fault?]
    cases h with
    | textPredicate kind unknown => simp [kind, unknown]
    | datePredicate kind unknown => simp [kind, unknown]
    | unit kind known noAge =>
      obtain ⟨p, hp⟩ := Option.ne_none_iff_exists'.mp known
      simp [kind, hp, targetAge_eq_error_iff.mpr (Or.inl ⟨noAge, rfl⟩)]
    | amount kind known noAge =>
      obtain ⟨p, hp⟩ := Option.ne_none_iff_exists'.mp known
      simp [kind, hp, targetAge_eq_error_iff.mpr (Or.inr ⟨noAge, rfl⟩)]

/-! ## Evaluating -/

theorem evaluate_of_text (h : c.field.kind = .text) :
    c.evaluate r moment = evaluateText (r.get c.field) c.predicate c.target := by
  rw [evaluate, h]

/-- There is one field with a date. -/
theorem evaluate_of_date (h : c.field.kind = .date) :
    c.evaluate r moment = evaluateDate moment r.received c.predicate c.target := by
  obtain ⟨field, predicate, target⟩ := c
  cases field <;> first | rfl | cases h

theorem evaluateDate_of_named {p : DatePredicate} {value target predicate : String}
    (h : DatePredicate.named? predicate = some p) :
    evaluateDate moment value predicate target =
      (threshold moment.now target).bind fun t ↦
        (receivedAt moment.zone value).map fun received ↦ p.holds received t := by
  rw [evaluateDate, h]
  cases threshold moment.now target with
  | error e => rfl
  | ok t => cases receivedAt moment.zone value <;> rfl

theorem threshold_of_error {now : Instant} {target : String}
    (h : targetAge target = .error fault) : threshold now target = .error fault := by
  rw [threshold, h]
  rfl

/-- **A mistake shows for every record.** -/
theorem Mistaken.evaluate_eq (h : c.Mistaken fault) (r : Record) (moment : Moment) :
    c.evaluate r moment = .error fault := by
  cases h with
  | textPredicate kind unknown => rw [evaluate_of_text kind, evaluateText, unknown]
  | datePredicate kind unknown => rw [evaluate_of_date kind, evaluateDate, unknown]
  | unit kind known noAge =>
    obtain ⟨p, hp⟩ := Option.ne_none_iff_exists'.mp known
    rw [evaluate_of_date kind, evaluateDate_of_named hp,
      threshold_of_error (targetAge_eq_error_iff.mpr (Or.inl ⟨noAge, rfl⟩))]
    rfl
  | amount kind known noAge =>
    obtain ⟨p, hp⟩ := Option.ne_none_iff_exists'.mp known
    rw [evaluate_of_date kind, evaluateDate_of_named hp,
      threshold_of_error (targetAge_eq_error_iff.mpr (Or.inr ⟨noAge, rfl⟩))]
    rfl

/-! ## Targets that lead out of the calendar -/

/-- The target is an age, and the calendar does not go back that far from now. -/
def Overreaches (c : Condition) (now : Instant) : Prop :=
  c.field.kind = .date ∧
    ∃ days, Age.days c.target = .ok days ∧ ¬Instant.InRange (now.secs - 86400 * days)

/-- An age longer than the calendar leads out of it from everywhere. -/
theorem overreaches_of_lt {now : Instant} {days : ℤ} (hkind : c.field.kind = .date)
    (hdays : Age.days c.target = .ok days)
    (hlong : Instant.lastSecond - Instant.firstSecond < 86400 * days)
    (hnow : Instant.InRange now.secs) : c.Overreaches now := by
  refine ⟨hkind, days, hdays, fun hrange ↦ ?_⟩
  have hfirst := hrange.1
  have hlast := hnow.2
  omega

theorem threshold_eq_error_iff {now : Instant} (hnow : now.nanos < nanosPerSecond) {days : ℤ}
    {target : String} (hdays : Age.days target = .ok days) :
    threshold now target = .error fault ↔
      ¬Instant.InRange (now.secs - 86400 * days) ∧ fault = .amount target := by
  have hage : targetAge target = .ok (86400 * days) := targetAge_eq_ok_iff.mpr ⟨days, hdays, rfl⟩
  have hrange : now.addSeconds? (-(86400 * days)) = none ↔
      ¬Instant.InRange (now.secs - 86400 * days) := by
    rw [Instant.addSeconds?_of_nanos_lt hnow, Instant.of?_eq_none_iff, sub_eq_add_neg]
  rw [← hrange, threshold, hage]
  cases hsum : now.addSeconds? (-(86400 * days)) with
  | none => simp [bind, Except.bind, hsum, eq_comm]
  | some t => simp [bind, Except.bind, hsum, pure, Except.pure]

/-- **What can be wrong with a condition that is no mistake**: its target leads out of the calendar,
which is seen first, or the date of the record cannot be read. -/
theorem evaluate_eq_error_iff (hnow : moment.now.nanos < nanosPerSecond)
    (clean : ∀ fault, ¬c.Mistaken fault) :
    c.evaluate r moment = .error fault ↔ c.field.kind = .date ∧
      (c.Overreaches moment.now ∧ fault = .amount c.target ∨
        ¬c.Overreaches moment.now ∧
          Received.instant? moment.zone r.received.toList = none ∧ fault = .date r.received) := by
  cases hkind : c.field.kind with
  | text =>
    have hknown : TextPredicate.named? c.predicate ≠ none :=
      fun h ↦ clean _ (.textPredicate hkind h)
    obtain ⟨p, hp⟩ := Option.ne_none_iff_exists'.mp hknown
    rw [evaluate_of_text hkind, evaluateText, hp]
    simp
  | date =>
    have hknown : DatePredicate.named? c.predicate ≠ none :=
      fun h ↦ clean _ (.datePredicate hkind h)
    obtain ⟨p, hp⟩ := Option.ne_none_iff_exists'.mp hknown
    obtain ⟨days, hdays⟩ : ∃ days, Age.days c.target = .ok days := by
      cases h : Age.days c.target with
      | ok days => exact ⟨days, rfl⟩
      | error e =>
        cases e with
        | unit => exact absurd (.unit hkind hknown h) (clean _)
        | amount => exact absurd (.amount hkind hknown h) (clean _)
    have hreach : c.Overreaches moment.now ↔
        ¬Instant.InRange (moment.now.secs - 86400 * days) := by
      simp [Overreaches, hkind, hdays]
    rw [evaluate_of_date hkind, evaluateDate_of_named hp, hreach]
    -- the threshold is worked out before the date of the record is looked at
    cases hthreshold : threshold moment.now c.target with
    | error e =>
      obtain ⟨hout, rfl⟩ := (threshold_eq_error_iff hnow hdays).mp hthreshold
      simp [Except.bind, hout, eq_comm]
    | ok t =>
      have hin : Instant.InRange (moment.now.secs - 86400 * days) := by
        by_contra hout
        have herror := (threshold_eq_error_iff hnow hdays).mpr ⟨hout, rfl⟩
        rw [hthreshold] at herror
        cases herror
      cases hreceived : receivedAt moment.zone r.received with
      | error e =>
        obtain ⟨hnone, rfl⟩ := receivedAt_eq_error_iff.mp hreceived
        simp [Except.bind, Except.map, hin, hnone, eq_comm]
      | ok received =>
        have hsome := receivedAt_eq_ok_iff.mp hreceived
        simp [Except.bind, Except.map, hin, hsome]

end Condition

/-! ## Issues -/

namespace Issue

/-- The issue stands before the other: in an earlier rule, or in the same one as a condition before
an action, or as one of the same kind at an earlier position. -/
def Before : Issue → Issue → Prop
  | .condition rule i _ _, .condition rule' j _ _ => rule < rule' ∨ rule = rule' ∧ i < j
  | .condition rule _ _ _, .action rule' _ _ => rule ≤ rule'
  | .action rule _ _, .condition rule' _ _ _ => rule < rule'
  | .action rule i _, .action rule' j _ => rule < rule' ∨ rule = rule' ∧ i < j

def rule : Issue → ℕ
  | .condition rule _ _ _ | .action rule _ _ => rule

theorem before_of_rule_lt {a b : Issue} (h : a.rule < b.rule) : a.Before b := by
  cases a <;> cases b <;> simp_all [Before, rule, le_of_lt]

theorem not_before_self (a : Issue) : ¬a.Before a := by
  cases a <;> simp [Before]

end Issue

theorem pairwise_lt_zipIdx {α : Type} (l : List α) :
    l.zipIdx.Pairwise fun a b ↦ a.2 < b.2 := by
  have h : (l.zipIdx.map Prod.snd).Pairwise (· < ·) := by
    rw [List.zipIdx_map_snd]
    exact List.pairwise_lt_range' 1
  exact List.pairwise_map.mp h

namespace Rule

variable {rule : Rule} {index i : ℕ}

theorem unknown?_eq_some_iff {name : String} {issue issue' : Issue} :
    (match Action.named? name with
      | some _ => none
      | none => some issue) = some issue' ↔ Action.named? name = none ∧ issue' = issue := by
  cases Action.named? name with
  | none => simp [eq_comm]
  | some a => simp

theorem mem_issues_iff {issue : Issue} :
    issue ∈ rule.issues index ↔
      (∃ i c fault, rule.conditions[i]? = some c ∧ c.Mistaken fault ∧
        issue = .condition index i c.field fault) ∨
      ∃ i name, rule.actions[i]? = some name ∧ Action.named? name = none ∧
        issue = .action index i name := by
  rw [issues, List.mem_append]
  refine or_congr ?_ ?_
  · simp only [List.mem_filterMap, Prod.exists, List.mk_mem_zipIdx_iff_getElem?,
      Option.map_eq_some_iff, Condition.fault?_eq_some_iff]
    constructor
    · rintro ⟨c, i, hc, fault, hfault, rfl⟩
      exact ⟨i, c, fault, hc, hfault, rfl⟩
    · rintro ⟨i, c, fault, hc, hfault, rfl⟩
      exact ⟨c, i, hc, fault, hfault, rfl⟩
  · simp only [List.mem_filterMap, Prod.exists, List.mk_mem_zipIdx_iff_getElem?]
    rw [exists_comm]
    exact exists₂_congr fun i name ↦ and_congr_right fun _ ↦ unknown?_eq_some_iff

theorem rule_of_mem_issues {issue : Issue} (h : issue ∈ rule.issues index) :
    issue.rule = index := by
  rcases mem_issues_iff.mp h with ⟨_, _, _, -, -, rfl⟩ | ⟨_, _, -, -, rfl⟩ <;> rfl

theorem pairwise_before_issues (rule : Rule) (index : ℕ) :
    (rule.issues index).Pairwise Issue.Before := by
  rw [issues, List.pairwise_append]
  refine ⟨?_, ?_, ?_⟩
  · refine List.pairwise_filterMap.mpr ((pairwise_lt_zipIdx rule.conditions).imp ?_)
    intro a b hlt x hx y hy
    obtain ⟨_, -, rfl⟩ := Option.map_eq_some_iff.mp hx
    obtain ⟨_, -, rfl⟩ := Option.map_eq_some_iff.mp hy
    exact Or.inr ⟨rfl, hlt⟩
  · refine List.pairwise_filterMap.mpr ((pairwise_lt_zipIdx rule.actions).imp ?_)
    intro a b hlt x hx y hy
    obtain ⟨-, rfl⟩ := unknown?_eq_some_iff.mp hx
    obtain ⟨-, rfl⟩ := unknown?_eq_some_iff.mp hy
    exact Or.inr ⟨rfl, hlt⟩
  · intro x hx y hy
    obtain ⟨_, -, hx⟩ := List.mem_filterMap.mp hx
    obtain ⟨_, -, rfl⟩ := Option.map_eq_some_iff.mp hx
    obtain ⟨_, -, hy⟩ := List.mem_filterMap.mp hy
    obtain ⟨-, rfl⟩ := unknown?_eq_some_iff.mp hy
    exact le_rfl

end Rule

namespace RuleSet

variable {rules : RuleSet}

theorem mem_issues_iff {issue : Issue} :
    issue ∈ rules.issues ↔
      ∃ (index : ℕ) (rule : Rule), rules[index]? = some rule ∧ issue ∈ rule.issues index := by
  simp only [issues, List.mem_flatMap, Prod.exists, List.mk_mem_zipIdx_iff_getElem?]
  exact exists_comm

/-- The condition at a place is reported with its field and its mistake. -/
theorem condition_mem_issues_iff {index i : ℕ} {field : Field} {fault : ConditionFault} :
    Issue.condition index i field fault ∈ rules.issues ↔
      ∃ rule c, rules[index]? = some rule ∧ rule.conditions[i]? = some c ∧ c.field = field ∧
        c.Mistaken fault := by
  simp only [RuleSet.mem_issues_iff, Rule.mem_issues_iff]
  constructor
  · rintro ⟨_, rule, hrule, ⟨_, c, _, hc, hfault, h⟩ | ⟨_, _, -, -, h⟩⟩
    · cases h
      exact ⟨rule, c, hrule, hc, rfl, hfault⟩
    · cases h
  · rintro ⟨rule, c, hrule, hc, rfl, hfault⟩
    exact ⟨index, rule, hrule, Or.inl ⟨i, c, fault, hc, hfault, rfl⟩⟩

/-- The action at a place is reported with its name if that is none. -/
theorem action_mem_issues_iff {index i : ℕ} {name : String} :
    Issue.action index i name ∈ rules.issues ↔
      ∃ rule, rules[index]? = some rule ∧ rule.actions[i]? = some name ∧
        Action.named? name = none := by
  simp only [RuleSet.mem_issues_iff, Rule.mem_issues_iff]
  constructor
  · rintro ⟨_, rule, hrule, ⟨_, _, _, -, -, h⟩ | ⟨_, _, hname, hunknown, h⟩⟩
    · cases h
    · cases h
      exact ⟨rule, hrule, hname, hunknown⟩
  · rintro ⟨rule, hrule, hname, hunknown⟩
    exact ⟨index, rule, hrule, Or.inr ⟨i, name, hname, hunknown, rfl⟩⟩

/-- **Issues are reported in order.** -/
theorem pairwise_before_issues (rules : RuleSet) : rules.issues.Pairwise Issue.Before := by
  rw [issues, List.pairwise_flatMap]
  refine ⟨fun numbered _ ↦ numbered.1.pairwise_before_issues numbered.2, ?_⟩
  refine (pairwise_lt_zipIdx rules).imp ?_
  intro a b hlt x hx y hy
  rw [← Rule.rule_of_mem_issues hx, ← Rule.rule_of_mem_issues hy] at hlt
  exact Issue.before_of_rule_lt hlt

/-- **No issue is reported twice.** -/
theorem nodup_issues (rules : RuleSet) : rules.issues.Nodup := by
  refine rules.pairwise_before_issues.imp ?_
  rintro a _ hbefore rfl
  exact a.not_before_self hbefore

/-- A rule set without issues has no mistaken condition and no unknown action. -/
theorem issues_eq_nil_iff :
    rules.issues = [] ↔ ∀ rule ∈ rules,
      (∀ c ∈ rule.conditions, ∀ fault, ¬c.Mistaken fault) ∧ Action.AllKnown rule.actions := by
  simp only [List.eq_nil_iff_forall_not_mem, RuleSet.mem_issues_iff, Rule.mem_issues_iff]
  constructor
  · intro h rule hrule
    obtain ⟨index, hindex⟩ := List.mem_iff_getElem?.mp hrule
    refine ⟨fun c hc fault hfault ↦ ?_, fun name hname hunknown ↦ ?_⟩
    · obtain ⟨i, hi⟩ := List.mem_iff_getElem?.mp hc
      exact h _ ⟨index, rule, hindex, Or.inl ⟨i, c, fault, hi, hfault, rfl⟩⟩
    · obtain ⟨i, hi⟩ := List.mem_iff_getElem?.mp hname
      exact h _ ⟨index, rule, hindex, Or.inr ⟨i, name, hi, hunknown, rfl⟩⟩
  · rintro h issue ⟨index, rule, hrule, hissue⟩
    obtain ⟨hconditions, hactions⟩ := h rule (List.mem_of_getElem? hrule)
    rcases hissue with ⟨i, c, fault, hc, hfault, -⟩ | ⟨i, name, hname, hunknown, -⟩
    · exact hconditions c (List.mem_of_getElem? hc) fault hfault
    · exact hactions name (List.mem_of_getElem? hname) hunknown

end RuleSet

end MailRules
