import Mathlib
import MailRules.Proofs.Label.Transcript
import MailRules.Proofs.Sorting.Errands

/-!
# Records that fail are by themselves

A record that cannot be planned is a line in the report and nothing else. The run without it asks
the service for the same, is told the same, leaves the same labels and ends the same way
(`RuleSet.failed_records_isolated`). Nothing is sent for a record before all of its rules are
evaluated and all of its names are looked up, so that its errands are none; and errands are all that
a service sees of a run.

Named actions are looked up in the same way: an unknown name among them means that nothing is asked.
-/

namespace MailRules

/-- Both runs fail with the same error, or both come to reports of as many rules fired, mutations
and skipped actions. -/
inductive CountAlike {ε : Type} : Except ε Report → Except ε Report → Prop
  | error (e : ε) : CountAlike (.error e) (.error e)
  | ok {a b : Report} (fired : a.fired = b.fired)
      (mutations : a.tally.mutations = b.tally.mutations)
      (skipped : a.tally.skipped = b.tally.skipped) : CountAlike (.ok a) (.ok b)

namespace RuleSet

variable (rules : RuleSet) (moment : Moment)

/-- The records that can be planned. -/
def plannable (records : List Record) : List Record :=
  records.filter fun r ↦ (rules.plan r moment).isOk

theorem plannable_cons_of_ok {r : Record} {plan : Plan} (h : rules.plan r moment = .ok plan)
    (records : List Record) :
    rules.plannable moment (r :: records) = r :: rules.plannable moment records :=
  List.filter_cons_of_pos (by rw [h]; rfl)

theorem plannable_cons_of_error {r : Record} {failure : Failure}
    (h : rules.plan r moment = .error failure) (records : List Record) :
    rules.plannable moment (r :: records) = rules.plannable moment records :=
  List.filter_cons_of_neg (by rw [h]; exact Bool.false_ne_true)

/-- A record that fails has no errands. -/
theorem errands_plannable (records : List Record) :
    rules.errands moment (rules.plannable moment records) = rules.errands moment records := by
  induction records with
  | nil => rfl
  | cons r records ih =>
    rw [errands] at ih
    cases hplan : rules.plan r moment with
    | error failure =>
      rw [plannable_cons_of_error rules moment hplan, errands, errands, List.flatMap_cons, hplan,
        ih]
      rfl
    | ok plan =>
      rw [plannable_cons_of_ok rules moment hplan, errands, errands, List.flatMap_cons,
        List.flatMap_cons, ih, errands]

theorem among_decisions_plannable (records : List Record) :
    Plan.among (rules.decisions moment (rules.plannable moment records)) =
      Plan.among (rules.decisions moment records) := by
  induction records with
  | nil => rfl
  | cons r records ih =>
    rw [decisions, decisions] at ih
    cases hplan : rules.plan r moment with
    | error failure =>
      rw [plannable_cons_of_error rules moment hplan, decisions, decisions, List.map_cons, hplan,
        ih]
      rfl
    | ok plan =>
      rw [plannable_cons_of_ok rules moment hplan, decisions, decisions, List.map_cons,
        List.map_cons, hplan, Plan.among, Plan.among, ih]

variable {σ ε : Type} (service : LabelService σ ε)

/-- A run over a service that is watched is the run over the service. -/
theorem run_sort_watched (records : List Record) (s : σ) :
    (rules.sort service moment records).run s =
      (((rules.sort service.watched moment records).run (s, [])).1,
        ((rules.sort service.watched moment records).run (s, [])).2.1) := by
  have h := service.shadows_watched.carryOutEach (s, []) (rules.errands moment records)
  rw [sort_eq_carryOutEach, sort_eq_carryOutEach]
  exact h.map _

theorem run_sort_plannable (records : List Record) (s : σ) :
    ((rules.sort service moment (rules.plannable moment records)).run s).2 =
        ((rules.sort service moment records).run s).2 ∧
      CountAlike ((rules.sort service moment (rules.plannable moment records)).run s).1
        ((rules.sort service moment records).run s).1 := by
  rw [run_sort, run_sort, errands_plannable]
  refine ⟨rfl, ?_⟩
  cases ((service.carryOutEach (rules.errands moment records)).run s).1 with
  | error e => exact .error e
  | ok tally => exact .ok (by simp only [report, among_decisions_plannable]) rfl rfl

end RuleSet

/-! ## Named actions -/

namespace LabelService

variable {σ ε : Type} (service : LabelService σ ε)

theorem run_carryOutNamed_of_firstUnknown {names : List String} {name : String}
    (h : Action.FirstUnknown names name) (id : String) (s : σ) :
    (service.carryOutNamed id names).run s = (.error (.unknown name), s) := by
  rw [carryOutNamed, Action.ofNames_of_firstUnknown h]
  rfl

theorem run_carryOutNamed_of_named {names : List String} {actions : List Action}
    (h : names.map Action.named? = actions.map some) (id : String) (s : σ) :
    (service.carryOutNamed id names).run s =
      (((service.carryOutAll id actions).run s).1.mapError .remote,
        ((service.carryOutAll id actions).run s).2) := by
  have hknown : Action.AllKnown names := by
    intro name hname
    obtain ⟨a, -, ha⟩ := List.mem_map.mp (h ▸ List.mem_map_of_mem hname)
    rw [← ha]
    exact Option.some_ne_none a
  have hactions : names.filterMap Action.named? = actions := by
    have hmap : (names.map Action.named?).filterMap (fun o ↦ o) = names.filterMap Action.named? :=
      List.filterMap_map
    rw [← hmap, h, List.filterMap_map]
    exact List.filterMap_some
  rw [carryOutNamed, Action.ofNames_of_allKnown hknown, hactions]
  exact Step.run_adapt _ _ s

end LabelService

/-- **A record that fails is by itself.** -/
theorem RuleSet.failed_records_isolated {σ ε : Type} (rules : RuleSet) (moment : Moment)
    (service : LabelService σ ε) (s : σ) :
    (∀ records,
      let whole := (rules.sort service.watched moment records).run (s, [])
      let part := (rules.sort service.watched moment (rules.plannable moment records)).run (s, [])
      (rules.sort service moment records).run s = (whole.1, whole.2.1) ∧
        (rules.sort service moment (rules.plannable moment records)).run s = (part.1, part.2.1) ∧
        part.2 = whole.2 ∧ CountAlike part.1 whole.1) ∧
    (∀ id names, (∃ name ∈ names, Action.named? name = none) →
      ∃ name, Action.FirstUnknown names name ∧
        (service.watched.carryOutNamed id names).run (s, []) = (.error (.unknown name), (s, []))) ∧
    ∀ id names actions, names.map Action.named? = actions.map some →
      let applied := (service.watched.carryOutAll id actions).run (s, [])
      (service.watched.carryOutNamed id names).run (s, []) =
        (applied.1.mapError .remote, applied.2) := by
  refine ⟨fun records ↦ ⟨run_sort_watched rules moment service records s,
      run_sort_watched rules moment service _ s,
      run_sort_plannable rules moment service.watched records (s, [])⟩,
    fun id names hunknown ↦ ?_, fun id names actions hnames ↦ ?_⟩
  · rcases Action.allKnown_or_firstUnknown names with hknown | ⟨name, hname⟩
    · obtain ⟨name, hname, hnone⟩ := hunknown
      exact absurd hnone (hknown name hname)
    · exact ⟨name, hname, service.watched.run_carryOutNamed_of_firstUnknown hname id (s, [])⟩
  · exact service.watched.run_carryOutNamed_of_named hnames id (s, [])

/-- Four records, of which the first has no readable date and the third comes to an unknown action,
over a service whose sixth call fails; and names with and without two that are unknown. -/
theorem RuleSet.failed_records_isolated_of_mixed_run :
    let rules : RuleSet :=
      [⟨.all, [⟨.subject, "contains", "Invoice"⟩], ["move_to_starred", "archive"]⟩,
        ⟨.any, [⟨.received, "less_than", "2 days"⟩], ["mark_as_read", "move_to_inbox"]⟩]
    let moment : Moment := ⟨⟨1718020800, 0⟩, .utc⟩
    let records : List Record :=
      [⟨"1", "a@b.c", "", "Hello", "never"⟩, ⟨"2", "a@b.c", "", "Hello", "2024-06-09"⟩,
        ⟨"3", "a@b.c", "", "Invoice 8", "2024-06-09"⟩, ⟨"4", "a@b.c", "", "Hello", "2024-06-10"⟩]
    let planned : List Record :=
      [⟨"2", "a@b.c", "", "Hello", "2024-06-09"⟩, ⟨"4", "a@b.c", "", "Hello", "2024-06-10"⟩]
    let service := Memory.service { fails := fun n _ ↦ n == 5 }
    let m : Memory := ⟨⟨[("2", ["UNREAD"]), ("4", ["UNREAD"])]⟩, []⟩
    let whole := (rules.sort service.watched moment records).run (m, [])
    let part := (rules.sort service.watched moment planned).run (m, [])
    rules.plannable moment records = planned ∧ whole.1 = .error ⟨"4"⟩ ∧ part.2 = whole.2 ∧
      CountAlike part.1 whole.1 ∧
      (service.watched.carryOutNamed "2" ["mark_as_read", "archive", "shout"]).run (m, []) =
        (.error (.unknown "archive"), (m, [])) ∧
      ["mark_as_read", "move_to_inbox"].map Action.named? =
        [Action.markAsRead, Action.moveToInbox].map some ∧
      let applied := (service.watched.carryOutAll "2" [.markAsRead, .moveToInbox]).run (m, [])
      (service.watched.carryOutNamed "2" ["mark_as_read", "move_to_inbox"]).run (m, []) =
        (applied.1.mapError .remote, applied.2) := by
  intro rules moment records planned service m whole part
  obtain ⟨hsort, hunknown, hknown⟩ := failed_records_isolated rules moment service m
  have hplanned : rules.plannable moment records = planned := by decide +kernel
  have hsame := hsort records
  rw [hplanned] at hsame
  obtain ⟨name, hfirst, hrun⟩ := hunknown "2" ["mark_as_read", "archive", "shout"]
    ⟨"archive", by simp, rfl⟩
  have hnames : Action.ofNames ["mark_as_read", "archive", "shout"] = .error "archive" := by decide
  obtain rfl : "archive" = name :=
    Except.error.inj (hnames.symm.trans (Action.ofNames_of_firstUnknown hfirst))
  exact ⟨hplanned, by decide +kernel, hsame.2.2.1, hsame.2.2.2, hrun, rfl,
    hknown "2" ["mark_as_read", "move_to_inbox"] [.markAsRead, .moveToInbox] rfl⟩

end MailRules
