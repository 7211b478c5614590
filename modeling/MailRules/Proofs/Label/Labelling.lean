import Mathlib
import MailRules.Proofs.Label.Errand

/-!
# The last errand decides

Seen from outside, a label service is a labelling: which labels are on which message. An errand
overwrites one place of it, so that after a list of errands each place holds what the last errand
for it asked for, and a place without an errand holds what it held before (`mem_applyAll`).

## Why a broken run can be repeated

What a list of errands makes of a labelling does not depend on what some first part of the same list
has already made of it: where the first part wrote, the whole list writes again, and later. That is
`applyAll_applyAll_of_prefix`, and with the empty rest it says that repeating a whole run changes
nothing.

## What is asked of a service

`LabelService.Keeps` says that a service holds a labelling through its calls. It says nothing about
whether calls are answered, and of a write that fails it leaves open whether it took effect: an
answer can be lost on its way back. So a run that ends early has carried out some first part of its
errands, and it is not known which (`Keeps.carryOutEach`).
-/

namespace MailRules

/-- Which labels are on which message. -/
abbrev Labelling := String → Set String

/-- One label put on one message, or taken off it. -/
def Labelling.change (change : Change) (id label : String) (v : Labelling) : Labelling :=
  fun i ↦ {l | if i = id ∧ l = label then change = .add else l ∈ v i}

theorem Labelling.change_change (change : Change) (id label : String) (v : Labelling) :
    (v.change change id label).change change id label = v.change change id label := by
  funext i
  ext l
  simp only [Labelling.change, Set.mem_ofPred_eq]
  split <;> rfl

namespace Errand

/-- The errand is for this label of this message. -/
def Targets (e : Errand) (id label : String) : Prop := e.id = id ∧ e.action.label.name = label

instance (e : Errand) (id label : String) : Decidable (e.Targets id label) :=
  inferInstanceAs (Decidable (_ ∧ _))

def applyTo (e : Errand) (v : Labelling) : Labelling :=
  Labelling.change e.action.change e.id e.action.label.name v

theorem mem_applyTo {e : Errand} {v : Labelling} {id label : String} :
    label ∈ e.applyTo v id ↔
      if e.Targets id label then e.action.change = .add else label ∈ v id := by
  simp only [applyTo, Labelling.change, Targets, Set.mem_ofPred_eq, eq_comm]

/-- What a list of errands makes of a labelling. -/
def applyAll (es : List Errand) (v : Labelling) : Labelling := es.foldl (fun v e ↦ e.applyTo v) v

@[simp] theorem applyAll_nil (v : Labelling) : applyAll [] v = v := rfl

@[simp] theorem applyAll_cons (e : Errand) (es : List Errand) (v : Labelling) :
    applyAll (e :: es) v = applyAll es (e.applyTo v) := rfl

theorem applyAll_concat (es : List Errand) (e : Errand) (v : Labelling) :
    applyAll (es ++ [e]) v = e.applyTo (applyAll es v) := by
  rw [applyAll, List.foldl_append]
  rfl

/-- The last errand for a label of a message. -/
def last? (es : List Errand) (id label : String) : Option Errand :=
  (es.filter (·.Targets id label)).getLast?

theorem last?_concat (es : List Errand) (e : Errand) (id label : String) :
    last? (es ++ [e]) id label = if e.Targets id label then some e else last? es id label := by
  rw [last?, List.filter_append]
  by_cases h : e.Targets id label <;> simp [h, last?]

theorem last?_eq_none_iff {es : List Errand} {id label : String} :
    last? es id label = none ↔ ∀ e ∈ es, ¬e.Targets id label := by
  simp [last?]

theorem targets_of_last? {es : List Errand} {id label : String} {e : Errand}
    (h : last? es id label = some e) : e.Targets id label := by
  have hmem : e ∈ es.filter (·.Targets id label) := List.mem_of_getLast? h
  simpa using (List.mem_filter.mp hmem).2

/-- **Last writer wins.** -/
theorem mem_applyAll (es : List Errand) (v : Labelling) (id label : String) :
    label ∈ applyAll es v id ↔
      match last? es id label with
      | some e => e.action.change = .add
      | none => label ∈ v id := by
  induction es using List.reverseRecOn with
  | nil => rfl
  | append_singleton es e ih =>
    rw [applyAll_concat, mem_applyTo, last?_concat]
    by_cases h : e.Targets id label
    · rw [if_pos h, if_pos h]
    · rw [if_neg h, if_neg h, ih]

theorem applyAll_applyAll_of_prefix {es done : List Errand} (h : done <+: es) (v : Labelling) :
    applyAll es (applyAll done v) = applyAll es v := by
  funext id
  ext label
  rw [mem_applyAll es v, mem_applyAll es (applyAll done v)]
  cases hlast : last? es id label with
  | some e => rfl
  | none =>
    have hdone : last? done id label = none :=
      last?_eq_none_iff.mpr fun e he ↦ last?_eq_none_iff.mp hlast e (h.subset he)
    rw [mem_applyAll done v, hdone]

end Errand

/-! ## Services that keep a labelling -/

namespace LabelService

variable {σ ε : Type} {service : LabelService σ ε}

theorem changes_eq_false_iff {a : Action} {labels : List String} :
    changes a labels = false ↔ (a.label.name ∈ labels ↔ a.change = .add) := by
  rw [changes]
  cases a.change <;> simp

/-- The labelling of a state is what the service answers from and what it writes to. A call that
fails leaves it alone, but a failing write may also have been done. -/
structure Keeps (service : LabelService σ ε) (view : σ → Labelling) : Prop where
  labels : ∀ {id s r s'}, (service.labels id).run s = (r, s') →
    view s' = view s ∧ ∀ answer, r = .ok answer → ∀ label, label ∈ answer ↔ label ∈ view s id
  add : ∀ {id label s r s'}, (service.add id label).run s = (r, s') →
    view s' = (view s).change .add id label.name ∨ (∃ e, r = .error e) ∧ view s' = view s
  remove : ∀ {id label s r s'}, (service.remove id label).run s = (r, s') →
    view s' = (view s).change .remove id label.name ∨ (∃ e, r = .error e) ∧ view s' = view s

namespace Keeps

variable {view : σ → Labelling} (keeps : service.Keeps view) {s s' : σ}
include keeps

theorem write {e : Errand} {r : Except ε Unit}
    (h : (service.write e.id e.action).run s = (r, s')) :
    view s' = e.applyTo (view s) ∨ (∃ err, r = .error err) ∧ view s' = view s := by
  rw [LabelService.write] at h
  rw [Errand.applyTo]
  cases hchange : e.action.change with
  | add =>
    rw [hchange] at h
    exact keeps.add h
  | remove =>
    rw [hchange] at h
    exact keeps.remove h

/-- An errand that changes nothing was there already, so being skipped is being done. -/
theorem carryOut {e : Errand} {r : Except ε Tally}
    (h : (service.carryOut e.id e.action).run s = (r, s')) :
    view s' = e.applyTo (view s) ∨ (∃ err, r = .error err) ∧ view s' = view s := by
  rcases carryOut_cases h with ⟨err, hread, rfl⟩ | ⟨answer, t, hread, hrest⟩
  · exact Or.inr ⟨⟨err, rfl⟩, (keeps.labels hread).1⟩
  · obtain ⟨hview, hanswer⟩ := keeps.labels hread
    rcases hrest with ⟨hskip, -, rfl⟩ | ⟨-, ⟨err, hwrite, rfl⟩ | ⟨hwrite, -⟩⟩
    · refine Or.inl ?_
      rw [hview]
      funext id
      ext label
      rw [Errand.mem_applyTo]
      split
      · obtain ⟨rfl, rfl⟩ := ‹e.Targets id label›
        rw [← hanswer answer rfl, changes_eq_false_iff.mp hskip]
      · rfl
    · -- The write failed: whether it was done is left open by `keeps.write`.
      exact hview ▸ (keeps.write hwrite).imp_right fun h ↦ ⟨⟨err, rfl⟩, h.2⟩
    · rcases keeps.write hwrite with hdone | ⟨⟨err, herr⟩, -⟩
      · exact Or.inl (hview ▸ hdone)
      · cases herr

/-- **A run carries out a first part of its errands**, and all of them if it does not fail. -/
theorem carryOutEach {es : List Errand} {r : Except ε Tally}
    (h : (service.carryOutEach es).run s = (r, s')) :
    ∃ done, done <+: es ∧ view s' = Errand.applyAll done (view s) ∧
      ∀ tally, r = .ok tally → done = es := by
  induction es generalizing s r with
  | nil =>
    obtain ⟨-, rfl⟩ : r = .ok {} ∧ s = s' := by
      simpa [LabelService.carryOutEach, eq_comm] using h
    exact ⟨[], List.nil_prefix, rfl, fun _ _ ↦ rfl⟩
  | cons e es ih =>
    rcases carryOutEach_cons_cases h with ⟨err, hfirst, rfl⟩ | ⟨first, t, rest, hfirst, hrest, rfl⟩
    -- A first errand that fails is either done or not, and nothing after it is.
    · rcases keeps.carryOut hfirst with hdone | ⟨-, hview⟩
      · exact ⟨[e], List.prefix_append [e] es, hdone, by simp⟩
      · exact ⟨[], List.nil_prefix, hview, by simp⟩
    · obtain ⟨done, hprefix, hview, hall⟩ := ih hrest
      have ht : view t = e.applyTo (view s) := by
        rcases keeps.carryOut hfirst with hdone | ⟨⟨err, herr⟩, -⟩
        · exact hdone
        · cases herr
      refine ⟨e :: done, List.cons_prefix_cons.mpr ⟨rfl, hprefix⟩, ?_, ?_⟩
      · rw [Errand.applyAll_cons, ← ht, hview]
      · intro tally htally
        cases rest with
        | error err => cases htally
        | ok rest => rw [hall rest rfl]

end Keeps

end LabelService

end MailRules
