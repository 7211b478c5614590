import Mathlib
import MailRules.Proofs.Label.Transcript
import MailRules.Proofs.Sorting.Mistake

/-!
# Rules see the fields that they name

A condition looks at one field of the record, and at the moment only if that field is the date. So a
run cannot tell apart two lists of records that agree on their ids and on the fields that some
condition of the rule set is about: it asks the service for the same, is told the same, and comes to
the same report (`RuleSet.sort_sees_mentioned_fields`). What the report quotes of a record is its
id, and the date where a condition on the date could not read it.

If no condition is about the date, no run can tell two moments apart either, and no record fails for
its date, however malformed it is.
-/

namespace MailRules

/-! ## What a condition looks at -/

section Conditions

variable {r r' : Record} {moment moment' : Moment}

/-- Two records and two moments that a condition on this field cannot tell apart. -/
structure Field.Alike (f : Field) (r r' : Record) (moment moment' : Moment) : Prop where
  value : r.get f = r'.get f
  moment : f.kind = .date → moment = moment'

theorem Condition.evaluate_congr {c : Condition} (h : c.field.Alike r r' moment moment') :
    c.evaluate r moment = c.evaluate r' moment' := by
  rw [evaluate, evaluate, h.value]
  cases hkind : c.field.kind with
  | text => rfl
  | date => rw [h.moment hkind]

theorem evaluateAll_congr {cs : List Condition}
    (h : ∀ c ∈ cs, c.field.Alike r r' moment moment') :
    evaluateAll r moment cs = evaluateAll r' moment' cs := by
  induction cs with
  | nil => rfl
  | cons c cs ih =>
    obtain ⟨hc, hcs⟩ := List.forall_mem_cons.mp h
    rw [evaluateAll, evaluateAll, Condition.evaluate_congr hc, ih hcs]

theorem Rule.fires_congr {rule : Rule}
    (h : ∀ c ∈ rule.conditions, c.field.Alike r r' moment moment') :
    rule.fires r moment = rule.fires r' moment' := by
  rw [fires, fires, evaluateAll_congr h]

/-- Only a condition on the date can fail for a date. -/
theorem Condition.kind_of_date_fault {c : Condition} {received : String}
    (h : c.evaluate r moment = .error (.date received)) : c.field.kind = .date := by
  rw [evaluate] at h
  cases hkind : c.field.kind with
  | date => rfl
  | text =>
    rw [hkind] at h
    dsimp only [evaluateText] at h
    split at h <;> cases h

end Conditions

theorem Field.kind_eq_date_iff {f : Field} : f.kind = .date ↔ f = .received := by
  cases f <;> simp [kind]

/-! ## What a rule set looks at -/

namespace RuleSet

variable {rules : RuleSet} {r r' : Record} {moment moment' : Moment}

/-- Some condition of the rule set is about the field. -/
def Mentions (rules : RuleSet) (f : Field) : Prop :=
  ∃ rule ∈ rules, ∃ c ∈ rule.conditions, c.field = f

/-- The records agree on their ids and on the fields that the rule set mentions. -/
def Agree (rules : RuleSet) (r r' : Record) : Prop :=
  r.id = r'.id ∧ ∀ f, rules.Mentions f → r.get f = r'.get f

theorem firing_congr {numbered : List (Rule × ℕ)}
    (h : ∀ p ∈ numbered, p.1.fires r moment = p.1.fires r' moment') :
    firing r moment numbered = firing r' moment' numbered := by
  induction numbered with
  | nil => rfl
  | cons p numbered ih =>
    obtain ⟨hp, hnumbered⟩ := List.forall_mem_cons.mp h
    rw [firing, firing, hp, ih hnumbered]

theorem plan_congr (h : rules.Agree r r')
    (hmoment : rules.Mentions .received → moment = moment') :
    rules.plan r moment = rules.plan r' moment' := by
  have hfires : ∀ p ∈ rules.zipIdx, p.1.fires r moment = p.1.fires r' moment' := by
    intro p hp
    refine Rule.fires_congr fun c hc ↦ ?_
    have hmentions : rules.Mentions c.field :=
      ⟨p.1, List.fst_mem_of_mem_zipIdx hp, c, hc, rfl⟩
    refine ⟨h.2 c.field hmentions, fun hkind ↦ hmoment ?_⟩
    rwa [← Field.kind_eq_date_iff.mp hkind]
  rw [plan, plan, firing_congr hfires, h.1]

theorem plan_ne_date_fault (h : ¬rules.Mentions .received) {failure : Failure}
    (hplan : rules.plan r moment = .error failure) (received : String) :
    failure.fault ≠ .condition (.date received) := by
  intro hfault
  cases plan_eq_iff_decides.mp hplan with
  | action => cases hfault
  | condition first =>
    obtain rfl := RecordFault.condition.inj hfault
    obtain ⟨before, rule, after, rfl, -, -, j, good, c, rest, hconditions, -, -, hc⟩ := first
    refine h ⟨rule, List.mem_append_right _ List.mem_cons_self, c, ?_, ?_⟩
    · rw [hconditions]
      exact List.mem_append_right _ List.mem_cons_self
    · exact Field.kind_eq_date_iff.mp (Condition.kind_of_date_fault hc)

/-! ## Runs -/

section Runs

variable {records records' : List Record} {σ ε : Type} (service : LabelService σ ε)

theorem decisions_congr (h : List.Forall₂ rules.Agree records records')
    (hmoment : rules.Mentions .received → moment = moment') :
    rules.decisions moment records = rules.decisions moment' records' := by
  induction h with
  | nil => rfl
  | cons hr _ ih =>
    rw [decisions, decisions] at ih ⊢
    rw [List.map_cons, List.map_cons, plan_congr hr hmoment, ih]

theorem errands_congr (h : List.Forall₂ rules.Agree records records')
    (hmoment : rules.Mentions .received → moment = moment') :
    rules.errands moment records = rules.errands moment' records' := by
  induction h with
  | nil => rfl
  | cons hr _ ih =>
    rw [errands, errands] at ih ⊢
    rw [List.flatMap_cons, List.flatMap_cons, plan_congr hr hmoment, hr.1, ih]

theorem sort_congr (h : List.Forall₂ rules.Agree records records')
    (hmoment : rules.Mentions .received → moment = moment') :
    rules.sort service moment records = rules.sort service moment' records' := by
  have hreport : rules.report moment records = rules.report moment' records' := by
    funext tally
    rw [report, report, decisions_congr h hmoment, h.length_eq]
  rw [sort_eq_carryOutEach, sort_eq_carryOutEach, errands_congr h hmoment, hreport]

/-- The failures of a report are those of the records. -/
theorem exists_plan_of_mem_failures {s s' : σ} {report : Report} {failure : Failure}
    (hrun : (rules.sort service moment records).run s = (.ok report, s'))
    (h : failure ∈ report.failures) :
    ∃ r, r ∈ records ∧ rules.plan r moment = .error failure := by
  rw [run_sort] at hrun
  have hreport := (Prod.mk.inj hrun).1
  cases hout : ((service.carryOutEach (rules.errands moment records)).run s).1 with
  | error e =>
    rw [hout] at hreport
    cases hreport
  | ok tally =>
    rw [hout] at hreport
    obtain rfl := Except.ok.inj hreport
    exact mem_among_decisions_iff.mp h

/-- **Rules see the fields that they name**, and the moment if they name the date. -/
theorem sort_sees_mentioned_fields (rules : RuleSet) (service : LabelService σ ε) (s : σ) :
    (∀ moment records records', List.Forall₂ rules.Agree records records' →
      (rules.sort service.watched moment records).run (s, []) =
          (rules.sort service.watched moment records').run (s, []) ∧
        (rules.sort service moment records).run s = (rules.sort service moment records').run s) ∧
    (¬rules.Mentions .received →
      (∀ moment moment' records records', List.Forall₂ rules.Agree records records' →
        (rules.sort service.watched moment records).run (s, []) =
            (rules.sort service.watched moment' records').run (s, []) ∧
          (rules.sort service moment records).run s =
            (rules.sort service moment' records').run s) ∧
      ∀ moment, (∀ r failure, rules.plan r moment = .error failure →
          ∀ received, failure.fault ≠ .condition (.date received)) ∧
        ∀ records report s', (rules.sort service moment records).run s = (.ok report, s') →
          ∀ failure ∈ report.failures, ∀ received,
            failure.fault ≠ .condition (.date received)) := by
  refine ⟨?_, fun hdate ↦ ⟨?_, fun moment ↦ ⟨?_, ?_⟩⟩⟩
  · intro moment records records' h
    rw [sort_congr service.watched h fun _ ↦ rfl, sort_congr service h fun _ ↦ rfl]
    exact ⟨rfl, rfl⟩
  · intro moment moment' records records' h
    have hmoment : rules.Mentions .received → moment = moment' := fun hm ↦ absurd hm hdate
    rw [sort_congr service.watched h hmoment, sort_congr service h hmoment]
    exact ⟨rfl, rfl⟩
  · intro r failure hplan
    exact plan_ne_date_fault hdate hplan
  · intro records report s' hrun failure hfailure
    obtain ⟨r, -, hplan⟩ := exists_plan_of_mem_failures service hrun hfailure
    exact plan_ne_date_fault hdate hplan

/-- Two rules that are about subjects, one of them with an unknown action, and two lists of records
that agree on nothing else but the ids; the dates of one list are no dates, and the moments are
years and zones apart. -/
theorem sort_sees_mentioned_fields_of_subjects :
    let rules : RuleSet :=
      [⟨.all, [⟨.subject, "contains", "Invoice"⟩], ["mark_as_read"]⟩,
        ⟨.any, [⟨.subject, "equals", "Hello"⟩], ["archive"]⟩]
    let moment : Moment := ⟨⟨1718020800, 0⟩, .utc⟩
    let moment' : Moment := ⟨⟨-62198755201, 1500000000⟩, .fixed 19800⟩
    let records : List Record :=
      [⟨"1", "a@b.c", "d@e.f", "Invoice 7", "2024-06-09"⟩, ⟨"2", "", "", "Hello", "2024-06-10"⟩]
    let records' : List Record :=
      [⟨"1", "", "", "Invoice 7", "never"⟩, ⟨"2", "g", "h", "Hello", ""⟩]
    let service := Memory.service {}
    let m : Memory := ⟨⟨[("1", ["UNREAD"])]⟩, []⟩
    List.Forall₂ rules.Agree records records' ∧ ¬rules.Mentions .received ∧
      (rules.sort service.watched moment records).run (m, []) =
        (rules.sort service.watched moment records').run (m, []) ∧
      (rules.sort service.watched moment records).run (m, []) =
        (rules.sort service.watched moment' records').run (m, []) ∧
      ∃ report m', (rules.sort service moment' records').run m = (.ok report, m') ∧
        report.failures = [⟨"2", 1, .action "archive"⟩] ∧
        ∀ failure ∈ report.failures, ∀ received, failure.fault ≠ .condition (.date received) := by
  intro rules moment moment' records records' service m
  have hagree : List.Forall₂ rules.Agree records records' := by
    simp [rules, records, records', Agree, Mentions, Record.get]
  have hdate : ¬rules.Mentions .received := by
    simp [rules, Mentions]
  obtain ⟨hsame, hmoments⟩ := sort_sees_mentioned_fields rules service m
  obtain ⟨hmoments, hfailures⟩ := hmoments hdate
  have hrun : (rules.sort service moment' records').run m =
      (.ok ⟨2, 1, { mutations := 1 }, [⟨"2", 1, .action "archive"⟩]⟩,
        ⟨⟨[("1", [])]⟩, [.get "1", .remove "1" .unread]⟩) := by
    decide +kernel
  exact ⟨hagree, hdate, (hsame moment records records' hagree).1,
    (hmoments moment moment' records records' hagree).1, _, _, hrun, rfl,
    (hfailures moment').2 records' _ _ hrun⟩

end Runs

end RuleSet

end MailRules
