import MailRules.Proofs.Sorting.Errands

/-!
# Running again after an abort

An aborted run leaves a message half sorted, and a write whose answer was lost may or may not have
been done. Neither matters for the next run. Whatever the aborted run has carried out is a first
part of its errands, the next run carries out all of them, and the last errand for a label decides:
`Errand.applyAll_applyAll_of_prefix`. The records, the rules that fire and the failures are the same
in any run, since they do not depend on the labels at all; only how the errands split into
mutations and skipped ones does.

The aborted run and the one after it may talk to different services, as long as the second starts
from the labels that the first one left.
-/

namespace MailRules

/-! ## A service that loses answers -/

namespace Memory

/-- What is left of the memory when a call for which `early` says so is done before it is answered;
`n` counts the calls made before, as in a plan. -/
def doneEarly (early : Nat → LabelCall → Bool) (c : LabelCall) (m : Memory) : Memory :=
  if early m.calls.length c then { m with labels := c.applyTo m.labels } else m

/-- The service in memory, where a write may be done before its call is answered, so that it is done
even if the call then fails. -/
def lossyService (plan : MemoryPlan) (early : Nat → LabelCall → Bool) :
    LabelService Memory Unavailable where
  labels := (service plan).labels
  add id label := do
    modify (doneEarly early (.add id label))
    (service plan).add id label
  remove id label := do
    modify (doneEarly early (.remove id label))
    (service plan).remove id label

variable {plan : MemoryPlan} {early : Nat → LabelCall → Bool}

/-- Done early, a write finds nothing left to do when it is served. -/
theorem view_of_served (c : LabelCall) {change : Change} {id label : String} {m m' : Memory}
    {failed : Prop}
    (happlied : (c.applyTo m.labels).labelling = m.view.change change id label)
    (hserved : m'.view = (doneEarly early c m).view.change change id label ∨
      failed ∧ m'.view = (doneEarly early c m).view) :
    m'.view = m.view.change change id label ∨ failed ∧ m'.view = m.view := by
  rw [doneEarly] at hserved
  split at hserved
  · refine Or.inl ?_
    have hearly : view { m with labels := c.applyTo m.labels } =
        m.view.change change id label := happlied
    rw [hearly, Labelling.change_change] at hserved
    exact hserved.elim (fun h ↦ h) And.right
  · exact hserved

theorem keeps_lossyService (h : plan.frozen = false) : (lossyService plan early).Keeps view where
  labels hrun := (keeps_service h).labels hrun
  add {id label m _ _} hrun :=
    view_of_served (.add id label) (LabelMap.labelling_add m.labels id label.name)
      ((keeps_service h).add hrun)
  remove {id label m _ _} hrun :=
    view_of_served (.remove id label) (LabelMap.labelling_remove m.labels id label.name)
      ((keeps_service h).remove hrun)

end Memory

namespace RuleSet

variable {σ τ ε δ : Type} {service : LabelService σ ε} {reliable : LabelService τ δ}
variable {view : σ → Labelling} {view' : τ → Labelling}
variable (rules : RuleSet) (moment : Moment)

/-- A run over a service that never fails carries out all errands. -/
theorem sort_applyAll (never : reliable.NeverFails) (keeps : reliable.Keeps view')
    (records : List Record) (t : τ) :
    ∃ tally t', (rules.sort reliable moment records).run t =
        (.ok (rules.report moment records tally), t') ∧
      view' t' = Errand.applyAll (rules.errands moment records) (view' t) ∧
      tally.total = (rules.errands moment records).length := by
  obtain ⟨tally, t', hrun⟩ := never.carryOutEach (rules.errands moment records) t
  obtain ⟨done, -, hview, hall⟩ := keeps.carryOutEach hrun
  refine ⟨tally, t', ?_, ?_, LabelService.total_of_carryOutEach hrun⟩
  · rw [run_sort, hrun]
    rfl
  · rw [hview, hall tally rfl]

/-- A run that was tried before, however far it came, ends with the labels of one that was not. -/
theorem view_of_sort_again (keeps : service.Keeps view) {records : List Record} {s left : σ}
    {r : Except ε Report} (before : (rules.sort service moment records).run s = (r, left)) :
    Errand.applyAll (rules.errands moment records) (view left) =
      Errand.applyAll (rules.errands moment records) (view s) := by
  rw [run_sort] at before
  obtain ⟨done, hprefix, hview, -⟩ := keeps.carryOutEach
    (show (service.carryOutEach (rules.errands moment records)).run s = (_, left) from
      Prod.ext rfl (Prod.mk.inj before).2)
  rw [hview, Errand.applyAll_applyAll_of_prefix hprefix]

/-- **Running again after an abort converges.** Let a run be aborted at any call. A run over a
service that never fails, from the labels that were left, ends with the same labels as one from the
labels at the beginning, and with the same report but for the split of its tally. -/
theorem sort_after_abort (keeps : service.Keeps view) (never : reliable.NeverFails)
    (keeps' : reliable.Keeps view') (records : List Record) {s left : σ} {e : ε}
    (aborted : (rules.sort service moment records).run s = (.error e, left)) {t u : τ}
    (start : view' t = view s) (resume : view' u = view left) :
    ∃ whole resumed t' u', (rules.sort reliable moment records).run t = (.ok whole, t') ∧
      (rules.sort reliable moment records).run u = (.ok resumed, u') ∧ view' u' = view' t' ∧
      resumed.records = whole.records ∧ resumed.fired = whole.fired ∧
      resumed.failures = whole.failures ∧
      resumed.tally.mutations + resumed.tally.skipped =
        whole.tally.mutations + whole.tally.skipped := by
  obtain ⟨whole, t', hwhole, htview, htotal⟩ := sort_applyAll rules moment never keeps' records t
  obtain ⟨resumed, u', hresumed, huview, htotal'⟩ :=
    sort_applyAll rules moment never keeps' records u
  refine ⟨_, _, t', u', hwhole, hresumed, ?_, rfl, rfl, rfl, htotal'.trans htotal.symm⟩
  rw [huview, htview, start, resume, view_of_sort_again rules moment keeps aborted]

/-- The answer to the first write is lost, and the next run skips it. -/
theorem sort_after_lost_answer :
    let rules : RuleSet := [⟨.all, [⟨.subject, "contains", "Hello"⟩],
      ["mark_as_read", "mark_as_unread", "move_to_inbox"]⟩]
    let moment : Moment := ⟨⟨1718020800, 0⟩, .utc⟩
    let records : List Record := [⟨"1", "", "", "Hello", ""⟩]
    let lossy := Memory.lossyService { fails := fun n _ ↦ n == 1 } fun n _ ↦ n == 1
    let start : Memory := ⟨⟨[("1", ["UNREAD"])]⟩, []⟩
    let left : Memory := ⟨⟨[("1", [])]⟩, [.get "1", .remove "1" .unread]⟩
    (rules.sort lossy moment records).run start = (.error ⟨"1"⟩, left) ∧
      ∃ whole resumed t' u',
        (rules.sort (Memory.service {}) moment records).run start = (.ok whole, t') ∧
        (rules.sort (Memory.service {}) moment records).run left = (.ok resumed, u') ∧
        u'.view = t'.view ∧ resumed.records = whole.records ∧ resumed.fired = whole.fired ∧
        resumed.failures = whole.failures ∧
        resumed.tally.mutations + resumed.tally.skipped =
          whole.tally.mutations + whole.tally.skipped := by
  intro rules moment records lossy start left
  have aborted : (rules.sort lossy moment records).run start = (.error ⟨"1"⟩, left) := by
    decide +kernel
  exact ⟨aborted, sort_after_abort rules moment (Memory.keeps_lossyService rfl)
    (Memory.neverFails_service fun _ _ ↦ rfl) (Memory.keeps_service rfl) records aborted rfl rfl⟩

end RuleSet

end MailRules
