import MailRules.Label.Memory
import MailRules.Proofs.Label.Labelling

/-!
# The service in memory keeps a labelling

A label map is a list of entries, and which of two lists it is depends on the order in which
messages and labels came up. What counts is its labelling. Adding and removing change one place of
it, whatever the order, so that the service in memory is one of the services that keep a labelling
(`Memory.keeps_service`), and without planned failures one that never fails.
-/

namespace MailRules

/-! ## Label maps -/

namespace LabelMap

private theorem lookup_cons (k : String) (labels : List String) (es : List (String × List String))
    (i : String) : ((k, labels) :: es).lookup i = if i = k then some labels else es.lookup i := by
  rw [List.lookup_cons]
  by_cases h : i = k
  · rw [if_pos h, h, beq_self_eq_true]
  · rw [if_neg h, beq_false_of_ne h]

theorem lookup_put (id : String) (labels : List String) (es : List (String × List String))
    (i : String) : (put id labels es).lookup i = if i = id then some labels else es.lookup i := by
  induction es with
  | nil => rw [put, lookup_cons]
  | cons e es ih =>
    by_cases he : e.1 = id
    · rw [put, if_pos he, lookup_cons, lookup_cons, he]
      split <;> rfl
    · rw [put, if_neg he, lookup_cons, lookup_cons, ih]
      by_cases hi : i = id
      · have hne : i ≠ e.1 := fun h ↦ he (h ▸ hi)
        rw [if_neg hne, if_pos hi, if_pos hi]
      · rw [if_neg hi, if_neg hi]

theorem get_put (id : String) (labels : List String) (es : List (String × List String))
    (i : String) : get ⟨put id labels es⟩ i = if i = id then labels else get ⟨es⟩ i := by
  rw [get, lookup_put, get]
  split <;> rfl

/-- Which labels are on which message. -/
def labelling (m : LabelMap) : Labelling := fun id ↦ {label | label ∈ m.get id}

@[simp] theorem mem_labelling {m : LabelMap} {id label : String} :
    label ∈ m.labelling id ↔ label ∈ m.get id := Iff.rfl

theorem labelling_add (m : LabelMap) (id label : String) :
    (m.add id label).labelling = m.labelling.change .add id label := by
  funext i
  ext l
  rw [mem_labelling, add, Labelling.change, Set.mem_ofPred_eq]
  by_cases hlabel : label ∈ m.get id
  · simp only [List.contains_iff_mem, hlabel, if_true, mem_labelling]
    split
    · obtain ⟨rfl, rfl⟩ := ‹i = id ∧ l = label›
      simp [hlabel]
    · rfl
  · simp only [List.contains_iff_mem, hlabel, if_false, get_put, mem_labelling]
    by_cases hi : i = id <;> by_cases hl : l = label <;> simp [hi, hl]

theorem labelling_remove (m : LabelMap) (id label : String) :
    (m.remove id label).labelling = m.labelling.change .remove id label := by
  funext i
  ext l
  rw [mem_labelling, remove, Labelling.change, Set.mem_ofPred_eq]
  by_cases hlabel : label ∈ m.get id
  · simp only [List.contains_iff_mem, hlabel, if_true, get_put, mem_labelling]
    by_cases hi : i = id <;> by_cases hl : l = label <;> simp [hi, hl]
  · simp only [List.contains_iff_mem, hlabel, if_false, mem_labelling]
    split
    · obtain ⟨rfl, rfl⟩ := ‹i = id ∧ l = label›
      simp [hlabel]
    · rfl

end LabelMap

/-! ## Calls -/

/-- What the call makes of a label map when it is served. -/
def LabelCall.applyTo : LabelCall → LabelMap → LabelMap
  | .get _, m => m
  | .add id label, m => m.add id label.name
  | .remove id label, m => m.remove id label.name

namespace Memory

/-- The call written down. -/
def log (m : Memory) (c : LabelCall) : Memory := { m with calls := m.calls ++ [c] }

variable {plan : MemoryPlan}

theorem run_call (c : LabelCall) (m : Memory) :
    (call plan c).run m =
      (if plan.fails m.calls.length c then .error ⟨c.id⟩ else .ok (), m.log c) := by
  have hrun : (call plan c).run m =
      Step.run (if plan.fails m.calls.length c then throw ⟨c.id⟩ else pure ()) (m.log c) := rfl
  rw [hrun]
  split <;> rfl

theorem run_labels (id : String) (m : Memory) :
    ((service plan).labels id).run m =
      (if plan.fails m.calls.length (.get id) then .error ⟨id⟩ else .ok (m.labels.get id),
        m.log (.get id)) := by
  rw [service, Step.run_bind, run_call]
  cases plan.fails m.calls.length (.get id) <;> rfl

theorem run_add (id : String) (label : Label) (m : Memory) :
    ((service plan).add id label).run m =
      if plan.fails m.calls.length (.add id label) then (.error ⟨id⟩, m.log (.add id label))
      else (.ok (), { m.log (.add id label) with
        labels := if plan.frozen then m.labels else m.labels.add id label.name }) := by
  rw [service, Step.run_bind, run_call]
  cases plan.fails m.calls.length (.add id label) <;> cases plan.frozen <;> rfl

theorem run_remove (id : String) (label : Label) (m : Memory) :
    ((service plan).remove id label).run m =
      if plan.fails m.calls.length (.remove id label) then (.error ⟨id⟩, m.log (.remove id label))
      else (.ok (), { m.log (.remove id label) with
        labels := if plan.frozen then m.labels else m.labels.remove id label.name }) := by
  rw [service, Step.run_bind, run_call]
  cases plan.fails m.calls.length (.remove id label) <;> cases plan.frozen <;> rfl

theorem neverFails_service (h : ∀ n c, plan.fails n c = false) : (service plan).NeverFails where
  labels id m := ⟨m.labels.get id, m.log (.get id), by rw [run_labels, h]; rfl⟩
  add id label m := ⟨_, by rw [run_add, h]; rfl⟩
  remove id label m := ⟨_, by rw [run_remove, h]; rfl⟩

/-- The labels on messages, as the service keeps them. -/
def view (m : Memory) : Labelling := m.labels.labelling

theorem keeps_service (h : plan.frozen = false) : (service plan).Keeps view where
  labels {id m r m'} hrun := by
    rw [run_labels] at hrun
    obtain ⟨rfl, rfl⟩ := Prod.mk.inj hrun
    refine ⟨rfl, fun answer hanswer label ↦ ?_⟩
    split at hanswer
    · cases hanswer
    · cases hanswer
      rfl
  add {id label m r m'} hrun := by
    rw [run_add, h] at hrun
    split at hrun <;> obtain ⟨rfl, rfl⟩ := Prod.mk.inj hrun
    · exact Or.inr ⟨⟨_, rfl⟩, rfl⟩
    · exact Or.inl (LabelMap.labelling_add m.labels id label.name)
  remove {id label m r m'} hrun := by
    rw [run_remove, h] at hrun
    split at hrun <;> obtain ⟨rfl, rfl⟩ := Prod.mk.inj hrun
    · exact Or.inr ⟨⟨_, rfl⟩, rfl⟩
    · exact Or.inl (LabelMap.labelling_remove m.labels id label.name)

end Memory

end MailRules
