import MailRules.Proofs.Label.Memory
import MailRules.Proofs.Sorting.Decision

/-!
# A run is one list of errands

Nothing a run decides depends on the label service: every record is decided from the record alone.
So a run over records is the same as first writing down what is to be done, one errand for each
planned action, and then carrying the errands out one after the other (`sort_eq_carryOutEach`). How
many records there are, which rules fire and which records fail can be read off before anything is
sent; only the tally comes back from the service.

Every statement about runs below is a statement about lists of errands.
-/

namespace MailRules

/-! ## What a run adds up to -/

/-- The errands that come out of a decision. -/
def Errand.ofDecision (id : String) : Except Failure Plan → List Errand
  | .ok plan => plan.actions.map (Errand.mk id)
  | .error _ => []

theorem Errand.id_of_mem_ofDecision {id : String} {decision : Except Failure Plan} {e : Errand}
    (h : e ∈ Errand.ofDecision id decision) : e.id = id := by
  cases decision with
  | error failure => cases h
  | ok plan =>
    obtain ⟨a, -, rfl⟩ := List.mem_map.mp h
    rfl

/-- The plans among decisions. -/
def Plan.among : List (Except Failure Plan) → List Plan
  | [] => []
  | .ok plan :: decisions => plan :: among decisions
  | .error _ :: decisions => among decisions

/-- The failures among decisions. -/
def Failure.among : List (Except Failure Plan) → List Failure
  | [] => []
  | .ok _ :: decisions => among decisions
  | .error failure :: decisions => failure :: among decisions

namespace RuleSet

variable (rules : RuleSet) (moment : Moment)

/-- The decisions on records, in their order. -/
def decisions (records : List Record) : List (Except Failure Plan) :=
  records.map (rules.plan · moment)

/-- All planned actions of a run, in their order. -/
def errands (records : List Record) : List Errand :=
  records.flatMap fun r ↦ Errand.ofDecision r.id (rules.plan r moment)

/-- The report of a run whose errands came to this tally. -/
def report (records : List Record) (tally : Tally) : Report where
  records := records.length
  fired := ((Plan.among (rules.decisions moment records)).map Plan.fired).sum
  tally := tally
  failures := Failure.among (rules.decisions moment records)

theorem length_errands (records : List Record) :
    (rules.errands moment records).length =
      ((Plan.among (rules.decisions moment records)).map fun plan ↦ plan.actions.length).sum := by
  induction records with
  | nil => rfl
  | cons r records ih =>
    rw [errands, List.flatMap_cons, List.length_append, ← errands, ih]
    simp only [decisions, List.map_cons]
    cases rules.plan r moment <;> simp [Errand.ofDecision, Plan.among]

end RuleSet

/-- What two runs, one after the other, report together. -/
instance : Add Report where
  add a b := ⟨a.records + b.records, a.fired + b.fired, a.tally + b.tally, a.failures ++ b.failures⟩

theorem Report.add_def (a b : Report) :
    a + b = ⟨a.records + b.records, a.fired + b.fired, a.tally + b.tally,
      a.failures ++ b.failures⟩ := rfl

theorem Report.empty_add (a : Report) : ({} : Report) + a = a := by
  simp [add_def, Tally.empty_add]

namespace RuleSet

variable {σ ε : Type} (rules : RuleSet) (service : LabelService σ ε) (moment : Moment)

theorem report_cons (r : Record) (records : List Record) (report : Report) (first rest : Tally) :
    report + rules.report moment [r] first + rules.report moment records rest =
      report + rules.report moment (r :: records) (first + rest) := by
  simp only [Report.add_def, RuleSet.report, decisions, List.map_cons, List.map_nil]
  cases rules.plan r moment <;>
    simp [Plan.among, Failure.among, Tally.add_assoc, Nat.add_assoc, Nat.add_comm 1]

theorem sortOne_eq (report : Report) (r : Record) :
    rules.sortOne service moment report r =
      (fun tally ↦ report + rules.report moment [r] tally) <$>
        service.carryOutEach (rules.errands moment [r]) := by
  rw [sortOne]
  simp only [RuleSet.report, errands, decisions, List.map_cons, List.map_nil, List.flatMap_cons,
    List.flatMap_nil, List.append_nil]
  cases rules.plan r moment with
  | error failure =>
    simp [Errand.ofDecision, LabelService.carryOutEach, Plan.among, Failure.among,
      Report.add_def, Tally.add_empty]
  | ok plan =>
    simp [Errand.ofDecision, LabelService.carryOutAll_eq_carryOutEach, Plan.among, Failure.among,
      Report.add_def]

/-- The induction carries the report so far. -/
private theorem foldlM_sortOne (records : List Record) (report : Report) :
    records.foldlM (rules.sortOne service moment) report =
      (fun tally ↦ report + rules.report moment records tally) <$>
        service.carryOutEach (rules.errands moment records) := by
  induction records generalizing report with
  | nil => simp [errands, LabelService.carryOutEach, RuleSet.report, decisions, Report.add_def,
      Tally.add_empty, Plan.among, Failure.among]
  | cons r records ih =>
    have hsplit : rules.errands moment (r :: records) =
        rules.errands moment [r] ++ rules.errands moment records := by simp [errands]
    rw [List.foldlM_cons, hsplit, service.carryOutEach_append, sortOne_eq]
    simp [ih, report_cons]

/-- **A run is one list of errands.** The service is asked for nothing but the planned actions in
their order, and the report is known up to the tally. -/
theorem sort_eq_carryOutEach (records : List Record) :
    rules.sort service moment records =
      rules.report moment records <$> service.carryOutEach (rules.errands moment records) := by
  rw [sort, foldlM_sortOne]
  simp [Report.empty_add]

theorem run_sort (records : List Record) (s : σ) :
    (rules.sort service moment records).run s =
      (((service.carryOutEach (rules.errands moment records)).run s).1.map
          (rules.report moment records),
        ((service.carryOutEach (rules.errands moment records)).run s).2) := by
  rw [sort_eq_carryOutEach, Step.run_map]

/-! ## The report -/

variable {service}

/-- **A run reports its decisions.** Over a service that never fails the run comes to an end; every
record is decided by itself, the planned actions are carried out in order, and each is counted. -/
theorem sort_report_of_neverFails (never : service.NeverFails) (records : List Record) (s : σ) :
    (∀ r decision, rules.plan r moment = decision ↔ rules.Decides r moment decision) ∧
      ∃ report s', (rules.sort service moment records).run s = (.ok report, s') ∧
        (service.carryOutEach (rules.errands moment records)).run s = (.ok report.tally, s') ∧
        report.records = records.length ∧
        report.fired = ((Plan.among (rules.decisions moment records)).map Plan.fired).sum ∧
        report.failures = Failure.among (rules.decisions moment records) ∧
        report.tally.mutations + report.tally.skipped =
          ((Plan.among (rules.decisions moment records)).map (·.actions.length)).sum := by
  refine ⟨fun r decision ↦ plan_eq_iff_decides, ?_⟩
  obtain ⟨tally, s', hrun⟩ := never.carryOutEach (rules.errands moment records) s
  refine ⟨rules.report moment records tally, s', ?_, hrun, rfl, rfl, rfl, ?_⟩
  · rw [run_sort, hrun]
    rfl
  · rw [← length_errands, ← LabelService.total_of_carryOutEach hrun]
    rfl

/-- Three records and three rules. The first record has no readable date, which goes before the
unknown action of a rule before; the second has only that unknown action; the third is planned. -/
theorem sort_report_of_mixed_run :
    let rules : RuleSet :=
      [⟨.all, [⟨.subject, "contains", "Invoice"⟩], ["move_to_starred", "archive"]⟩,
        ⟨.any, [⟨.received, "less_than", "2 days"⟩], ["mark_as_read"]⟩,
        ⟨.all, [⟨.sender, "equals", "a@b.c"⟩], ["move_to_inbox", "mark_as_unread"]⟩]
    let moment : Moment := ⟨⟨1718020800, 0⟩, .utc⟩
    let records : List Record :=
      [⟨"1", "a@b.c", "", "Invoice 7", "never"⟩, ⟨"2", "a@b.c", "", "Invoice 8", "2024-06-09"⟩,
        ⟨"3", "a@b.c", "", "Hello", "2024-06-09"⟩]
    (Memory.service {}).NeverFails ∧
      ∃ report m, (rules.sort (Memory.service {}) moment records).run ⟨{}, []⟩ = (.ok report, m) ∧
        report.records = 3 ∧ report.fired = 2 ∧
        report.failures =
          [⟨"1", 1, .condition (.date "never")⟩, ⟨"2", 0, .action "archive"⟩] ∧
        report.tally.mutations + report.tally.skipped = 3 := by
  intro rules moment records
  have never : (Memory.service {}).NeverFails := Memory.neverFails_service fun _ _ ↦ rfl
  obtain ⟨-, report, m, hrun, -, hrecords, hfired, hfailures, htotal⟩ :=
    sort_report_of_neverFails rules moment never records ⟨{}, []⟩
  refine ⟨never, report, m, hrun, hrecords, ?_, ?_, ?_⟩
  · rw [hfired]
    decide +kernel
  · rw [hfailures]
    decide +kernel
  · rw [htotal]
    decide +kernel

end RuleSet

end MailRules
