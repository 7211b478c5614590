import Mathlib
import MailRules.Proofs.Sorting.Commutation
import MailRules.Proofs.Sorting.Mistake

/-!
# Runs over records and rules in another order

Each record of a run has its block of errands. Blocks of different messages commute, so that records
with different ids can be taken in any order (`RuleSet.sort_of_perm_records`).

Another order of the rules changes the order inside the blocks. Whether a record fails does not
depend on it: a record is planned if all rules can be evaluated and those that fire have no unknown
names, which is a property of the set of rules. So the same records fail, though other rules may be
to blame, and the same errands come out of the others in some order. What they come to can depend on
that order, but only for a message that is to be marked as read and as unread
(`RuleSet.sort_of_perm_rules`).
-/

namespace MailRules

/-! ## Decisions in any order -/

theorem Plan.among_eq_filterMap (decisions : List (Except Failure Plan)) :
    Plan.among decisions = decisions.filterMap Except.toOption := by
  induction decisions with
  | nil => rfl
  | cons decision decisions ih =>
    cases decision with
    | ok plan => exact congrArg (plan :: ·) ih
    | error failure => exact ih

/-- The failure that a decision is. -/
def Failure.of? : Except Failure Plan → Option Failure
  | .ok _ => none
  | .error failure => some failure

theorem Failure.among_eq_filterMap (decisions : List (Except Failure Plan)) :
    Failure.among decisions = decisions.filterMap of? := by
  induction decisions with
  | nil => rfl
  | cons decision decisions ih =>
    cases decision with
    | ok plan => exact ih
    | error failure => exact congrArg (failure :: ·) ih

namespace RuleSet

variable {σ ε : Type} {service : LabelService σ ε} {view : σ → Labelling}

/-! ## Records in another order -/

section Records

variable (rules : RuleSet) (moment : Moment) {records records' : List Record}

theorem alike_errands_of_perm (hperm : records.Perm records')
    (hids : (records.map Record.id).Nodup) :
    Errand.Alike (rules.errands moment records) (rules.errands moment records') := by
  refine Errand.alike_flatten_of_perm (hperm.map _) (List.pairwise_map.mpr ?_)
  refine (List.pairwise_map.mp hids).imp fun hne e he f hf hid _ ↦ absurd ?_ hne
  rw [← Errand.id_of_mem_ofDecision he, hid, Errand.id_of_mem_ofDecision hf]

theorem fired_of_perm (hperm : records.Perm records') :
    ((Plan.among (rules.decisions moment records)).map Plan.fired).sum =
      ((Plan.among (rules.decisions moment records')).map Plan.fired).sum := by
  rw [Plan.among_eq_filterMap, Plan.among_eq_filterMap]
  exact (((hperm.map _).filterMap _).map _).sum_nat

theorem failures_perm (hperm : records.Perm records') :
    (Failure.among (rules.decisions moment records)).Perm
      (Failure.among (rules.decisions moment records')) := by
  rw [Failure.among_eq_filterMap, Failure.among_eq_filterMap]
  exact (hperm.map _).filterMap _

/-- Failures are in the order of their records. -/
theorem map_record_failures_sublist (records : List Record) :
    ((Failure.among (rules.decisions moment records)).map Failure.record).Sublist
      (records.map Record.id) := by
  induction records with
  | nil => exact List.Sublist.refl []
  | cons r records ih =>
    rw [decisions, List.map_cons, ← decisions, List.map_cons]
    cases hplan : rules.plan r moment with
    | ok plan => exact ih.cons _
    | error failure =>
      rw [Failure.among, List.map_cons, record_of_plan_eq_error hplan]
      exact ih.cons_cons _

/-- **The order of records does not matter**, if their ids are different. Over a service that never
fails a run leaves the same labels, counts the same and has the same failures whatever the order of
the records is; the failures are in the order of the records. -/
theorem sort_of_perm_records (never : service.NeverFails) (keeps : service.Keeps view)
    (hperm : records.Perm records') (hids : (records.map Record.id).Nodup) (s : σ) :
    ∃ first s' second s'', (rules.sort service moment records).run s = (.ok first, s') ∧
      (rules.sort service moment records').run s = (.ok second, s'') ∧
      view s'' = view s' ∧ second.records = first.records ∧ second.fired = first.fired ∧
      second.tally = first.tally ∧ second.failures.Perm first.failures ∧
      (first.failures.map Failure.record).Sublist (records.map Record.id) ∧
      (second.failures.map Failure.record).Sublist (records'.map Record.id) := by
  obtain ⟨s', hfirst, hview⟩ := sort_outcome never keeps rules moment records s
  obtain ⟨s'', hsecond, hview'⟩ := sort_outcome never keeps rules moment records' s
  obtain ⟨happlied, hcount⟩ := rules.alike_errands_of_perm moment hperm hids (view s)
  refine ⟨_, s', _, s'', hfirst, hsecond, ?_, hperm.length_eq.symm,
    (rules.fired_of_perm moment hperm).symm, hcount.symm, rules.failures_perm moment hperm.symm,
    rules.map_record_failures_sublist moment records,
    rules.map_record_failures_sublist moment records'⟩
  rw [hview', hview, happlied]

/-- The first record fires two rules that are opposed, the second has no readable date, and the
third comes to an unknown action; then the same records the other way round. -/
theorem sort_of_perm_records_of_mixed_run :
    let rules : RuleSet :=
      [⟨.all, [⟨.subject, "contains", "Invoice"⟩], ["mark_as_read", "move_to_inbox"]⟩,
        ⟨.any, [⟨.received, "less_than", "2 days"⟩], ["mark_as_unread"]⟩,
        ⟨.any, [⟨.sender, "equals", "a@b.c"⟩], ["archive"]⟩]
    let moment : Moment := ⟨⟨1718020800, 0⟩, .utc⟩
    let records : List Record :=
      [⟨"1", "", "", "Invoice 7", "2024-06-09"⟩, ⟨"2", "", "", "Hello", "never"⟩,
        ⟨"3", "a@b.c", "", "Hello", "2024-06-09"⟩, ⟨"4", "", "", "Hello", "2024-06-10"⟩]
    let m : Memory := ⟨⟨[("1", ["UNREAD"])]⟩, []⟩
    (Memory.service {}).NeverFails ∧ (Memory.service {}).Keeps Memory.view ∧
      records.Perm records.reverse ∧ (records.map Record.id).Nodup ∧
      ∃ first m' second m'', (rules.sort (Memory.service {}) moment records).run m =
          (.ok first, m') ∧
        (rules.sort (Memory.service {}) moment records.reverse).run m = (.ok second, m'') ∧
        m''.view = m'.view ∧ second.tally = first.tally ∧ second.failures.Perm first.failures ∧
        first.failures.map Failure.record = ["2", "3"] := by
  intro rules moment records m
  have never : (Memory.service {}).NeverFails := Memory.neverFails_service fun _ _ ↦ rfl
  have keeps : (Memory.service {}).Keeps Memory.view := Memory.keeps_service rfl
  have hperm : records.Perm records.reverse := records.reverse_perm.symm
  have hids : (records.map Record.id).Nodup := by decide
  obtain ⟨first, m', second, m'', hfirst, hsecond, hview, -, -, htally, hfailures, -⟩ :=
    sort_of_perm_records rules moment never keeps hperm hids m
  refine ⟨never, keeps, hperm, hids, first, m', second, m'', hfirst, hsecond, hview, htally,
    hfailures, ?_⟩
  have hrun : ((rules.sort (Memory.service {}) moment records).run m).1.map
      (·.failures.map Failure.record) = .ok ["2", "3"] := by decide +kernel
  rw [hfirst] at hrun
  exact Except.ok.inj hrun

end Records

/-! ## Rules in another order -/

/-- Both fail the same record, or both plan as many rules and the same actions in some order. -/
inductive DecidesAlike : Except Failure Plan → Except Failure Plan → Prop
  | failed {failure failure' : Failure} (record : failure.record = failure'.record) :
      DecidesAlike (.error failure) (.error failure')
  | planned {plan plan' : Plan} (fired : plan.fired = plan'.fired)
      (actions : plan.actions.Perm plan'.actions) : DecidesAlike (.ok plan) (.ok plan')

section Rules

variable {rules rules' : RuleSet} {r : Record} {moment : Moment}

/-- A rule set that plans a record does so in any order. -/
theorem exists_plan_of_perm (hperm : rules.Perm rules') {plan : Plan}
    (h : rules.plan r moment = .ok plan) :
    ∃ plan', rules'.plan r moment = .ok plan' ∧ plan.fired = plan'.fired ∧
      plan.actions.Perm plan'.actions := by
  cases plan_eq_iff_decides.mp h with
  | planned evaluate known =>
    have hfired : (rules.fired r moment).Perm (rules'.fired r moment) := hperm.filter _
    refine ⟨_, (Decides.planned ?_ ?_).plan_eq, hfired.length_eq, hfired.flatMap_right _⟩
    · exact fun rule hrule ↦ evaluate rule (hperm.mem_iff.mpr hrule)
    · exact fun rule hrule ↦ known rule (hperm.mem_iff.mpr hrule)

theorem plan_of_perm (hperm : rules.Perm rules') (r : Record) (moment : Moment) :
    DecidesAlike (rules.plan r moment) (rules'.plan r moment) := by
  cases hplan : rules.plan r moment with
  | ok plan =>
    obtain ⟨plan', hplan', hfired, hactions⟩ := exists_plan_of_perm hperm hplan
    rw [hplan']
    exact .planned hfired hactions
  | error failure =>
    cases hplan' : rules'.plan r moment with
    | ok plan' =>
      obtain ⟨plan, hok, -⟩ := exists_plan_of_perm hperm.symm hplan'
      cases hplan.symm.trans hok
    | error failure' =>
      exact .failed ((record_of_plan_eq_error hplan).trans (record_of_plan_eq_error hplan').symm)

theorem exists_failure_of_perm (hperm : rules.Perm rules')
    (h : ∃ failure, rules.plan r moment = .error failure) :
    ∃ failure, rules'.plan r moment = .error failure := by
  obtain ⟨failure, hplan⟩ := h
  have halike := plan_of_perm hperm r moment
  rw [hplan] at halike
  generalize rules'.plan r moment = decision at halike ⊢
  cases halike with
  | failed => exact ⟨_, rfl⟩

theorem decisions_of_perm (hperm : rules.Perm rules') (moment : Moment) (records : List Record) :
    List.Forall₂ DecidesAlike (rules.decisions moment records)
      (rules'.decisions moment records) :=
  List.forall₂_map_left_iff.mpr <| List.forall₂_map_right_iff.mpr <|
    List.forall₂_same.mpr fun r _ ↦ plan_of_perm hperm r moment

theorem errands_perm (hperm : rules.Perm rules') (records : List Record) :
    (rules.errands moment records).Perm (rules'.errands moment records) := by
  refine List.Perm.flatMap_left records fun r _ ↦ ?_
  have halike := plan_of_perm hperm r moment
  generalize rules.plan r moment = decision, rules'.plan r moment = decision' at halike
  cases halike with
  | failed => exact List.Perm.refl []
  | planned _ actions => exact actions.map _

variable {decisions decisions' : List (Except Failure Plan)}

theorem sum_fired_eq (h : List.Forall₂ DecidesAlike decisions decisions') :
    ((Plan.among decisions).map Plan.fired).sum = ((Plan.among decisions').map Plan.fired).sum := by
  induction h with
  | nil => rfl
  | cons halike _ ih =>
    cases halike with
    | failed => exact ih
    | planned fired => simp only [Plan.among, List.map_cons, List.sum_cons, fired, ih]

theorem map_record_among_eq (h : List.Forall₂ DecidesAlike decisions decisions') :
    (Failure.among decisions).map Failure.record =
      (Failure.among decisions').map Failure.record := by
  induction h with
  | nil => rfl
  | cons halike _ ih =>
    cases halike with
    | failed record => simp only [Failure.among, List.map_cons, record, ih]
    | planned => exact ih

/-- **The order of rules matters only where they are opposed.** Over a service that never fails a
run with the rules in another order fails the same records, and as many rules fire. If no message is
to be marked both as read and as unread, it also leaves the same labels and counts the same. -/
theorem sort_of_perm_rules (never : service.NeverFails) (keeps : service.Keeps view)
    (hperm : rules.Perm rules') (moment : Moment) (records : List Record) (s : σ) :
    (∀ r, (∃ failure, rules.plan r moment = .error failure) ↔
        ∃ failure, rules'.plan r moment = .error failure) ∧
      ∃ first s' second s'', (rules.sort service moment records).run s = (.ok first, s') ∧
        (rules'.sort service moment records).run s = (.ok second, s'') ∧
        second.failures.map Failure.record = first.failures.map Failure.record ∧
        second.fired = first.fired ∧
        ((∀ id, ¬(⟨id, .markAsRead⟩ ∈ rules.errands moment records ∧
            ⟨id, .markAsUnread⟩ ∈ rules.errands moment records)) →
          view s'' = view s' ∧ second.tally = first.tally) := by
  refine ⟨fun r ↦ ⟨exists_failure_of_perm hperm, exists_failure_of_perm hperm.symm⟩, ?_⟩
  obtain ⟨s', hfirst, hview⟩ := sort_outcome never keeps rules moment records s
  obtain ⟨s'', hsecond, hview'⟩ := sort_outcome never keeps rules' moment records s
  have halike := decisions_of_perm hperm.symm moment records
  refine ⟨_, s', _, s'', hfirst, hsecond, map_record_among_eq halike, sum_fired_eq halike, ?_⟩
  intro hfree
  obtain ⟨happlied, hcount⟩ := Errand.alike_of_perm (errands_perm hperm records) hfree (view s)
  exact ⟨by rw [hview', hview, happlied], hcount.symm⟩

/-- The first record fails for a date or for an unknown action, whichever rule comes first; the
second is to be moved and marked by three rules in some order, two of which ask for the same. -/
theorem sort_of_perm_rules_of_unopposed :
    let rules : RuleSet :=
      [⟨.all, [⟨.subject, "contains", "Hello"⟩], ["mark_as_read", "move_to_inbox"]⟩,
        ⟨.any, [⟨.sender, "equals", "a@b.c"⟩, ⟨.received, "less_than", "2 days"⟩],
          ["move_to_starred", "mark_as_read"]⟩,
        ⟨.all, [⟨.received, "greater_than", "1 days"⟩], ["move_to_spam"]⟩]
    let moment : Moment := ⟨⟨1718020800, 0⟩, .utc⟩
    let records : List Record :=
      [⟨"1", "", "", "Hello", "never"⟩, ⟨"2", "a@b.c", "", "Hello", "2024-06-09"⟩]
    let m : Memory := ⟨⟨[("2", ["UNREAD", "STARRED"])]⟩, []⟩
    (Memory.service {}).NeverFails ∧ (Memory.service {}).Keeps Memory.view ∧
      rules.Perm rules.reverse ∧
      (∀ id, ¬(⟨id, .markAsRead⟩ ∈ rules.errands moment records ∧
        ⟨id, .markAsUnread⟩ ∈ rules.errands moment records)) ∧
      ∃ first m' second m'',
        (rules.sort (Memory.service {}) moment records).run m = (.ok first, m') ∧
        (RuleSet.sort rules.reverse (Memory.service {}) moment records).run m = (.ok second, m'') ∧
        second.failures.map Failure.record = first.failures.map Failure.record ∧
        second.fired = first.fired ∧ m''.view = m'.view ∧ second.tally = first.tally ∧
        first.failures = [⟨"1", 1, .condition (.date "never")⟩] ∧
        second.failures = [⟨"1", 0, .condition (.date "never")⟩] := by
  intro rules moment records m
  have never : (Memory.service {}).NeverFails := Memory.neverFails_service fun _ _ ↦ rfl
  have keeps : (Memory.service {}).Keeps Memory.view := Memory.keeps_service rfl
  have hperm : rules.Perm rules.reverse := (List.reverse_perm rules).symm
  have hfree : ∀ id, ¬(⟨id, .markAsRead⟩ ∈ rules.errands moment records ∧
      ⟨id, .markAsUnread⟩ ∈ rules.errands moment records) := by
    have hnone : ∀ e ∈ rules.errands moment records, e.action ≠ .markAsUnread := by decide +kernel
    exact fun id h ↦ hnone _ h.2 rfl
  obtain ⟨-, first, m', second, m'', hfirst, hsecond, hfailures, hfired, hsame⟩ :=
    sort_of_perm_rules never keeps hperm moment records m
  have hrun : ((rules.sort (Memory.service {}) moment records).run m).1.map Report.failures =
      .ok [⟨"1", 1, .condition (.date "never")⟩] := by decide +kernel
  have hrun' : ((RuleSet.sort rules.reverse (Memory.service {}) moment records).run m).1.map
      Report.failures = .ok [⟨"1", 0, .condition (.date "never")⟩] := by decide +kernel
  rw [hfirst] at hrun
  rw [hsecond] at hrun'
  exact ⟨never, keeps, hperm, hfree, first, m', second, m'', hfirst, hsecond, hfailures, hfired,
    (hsame hfree).1, (hsame hfree).2, Except.ok.inj hrun, Except.ok.inj hrun'⟩

end Rules

end RuleSet

end MailRules
