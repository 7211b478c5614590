import MailRules.Rule.Condition
import MailRules.Label.Action

/-!
# How a list is searched for its first fault

Conditions of a rule, names of actions and the rules of a set are all gone through in order, and the
first one that is at fault decides. `FirstAt` says this of a list without any search: the element at
a place is bad and all before it are good. Its equation on `a :: l` is the form in which an
induction over the list uses it, so that each function below is compared with it in one step.

A rule that cannot be evaluated has its first faulty condition to blame, whatever its aggregation
and whatever the other conditions say: `Rule.fires_eq_error_iff`.
-/

namespace MailRules

/-- The element at place `i` is bad, and those before it are good. -/
def FirstAt {α : Type} (l : List α) (i : Nat) (good bad : α → Prop) : Prop :=
  ∃ before a after, l = before ++ a :: after ∧ before.length = i ∧ (∀ b ∈ before, good b) ∧ bad a

namespace FirstAt

variable {α : Type} {good bad : α → Prop}

theorem not_nil {i : Nat} : ¬FirstAt [] i good bad := by
  rintro ⟨before, a, after, h, -⟩
  simp at h

theorem cons_iff {a : α} {l : List α} {i : Nat} :
    FirstAt (a :: l) i good bad ↔
      (i = 0 ∧ bad a) ∨ ∃ j, i = j + 1 ∧ good a ∧ FirstAt l j good bad := by
  constructor
  · rintro ⟨before, b, after, h, rfl, hgood, hbad⟩
    cases before with
    | nil =>
      obtain ⟨rfl, -⟩ : a = b ∧ l = after := by simpa using h
      exact Or.inl ⟨rfl, hbad⟩
    | cons c before =>
      obtain ⟨rfl, rfl⟩ : a = c ∧ l = before ++ b :: after := by simpa using h
      refine Or.inr ⟨before.length, rfl, hgood a List.mem_cons_self, before, b, after, rfl, rfl,
        ?_, hbad⟩
      exact fun d hd ↦ hgood d (List.mem_cons_of_mem a hd)
  · rintro (⟨rfl, hbad⟩ | ⟨j, rfl, ha, before, b, after, rfl, rfl, hgood, hbad⟩)
    · exact ⟨[], a, l, rfl, rfl, by simp, hbad⟩
    · refine ⟨a :: before, b, after, rfl, rfl, ?_, hbad⟩
      rintro d hd
      rcases List.mem_cons.mp hd with rfl | hd
      · exact ha
      · exact hgood d hd

/-- What is bad may depend on the place, counted from `i`. -/
theorem exists_counted_cons_iff {a : α} {l : List α} {i : Nat} {bad : Nat → α → Prop} :
    (∃ k, FirstAt (a :: l) k good (bad (i + k))) ↔
      bad i a ∨ good a ∧ ∃ k, FirstAt l k good (bad (i + 1 + k)) := by
  constructor
  · rintro ⟨k, h⟩
    rcases cons_iff.mp h with ⟨rfl, ha⟩ | ⟨k, rfl, ha, hk⟩
    · exact Or.inl ha
    · exact Or.inr ⟨ha, k, by rwa [Nat.add_assoc, Nat.add_comm 1 k]⟩
  · rintro (ha | ⟨ha, k, hk⟩)
    · exact ⟨0, cons_iff.mpr (Or.inl ⟨rfl, ha⟩)⟩
    · rw [Nat.add_assoc, Nat.add_comm 1 k] at hk
      exact ⟨k + 1, cons_iff.mpr (Or.inr ⟨k, rfl, ha, hk⟩)⟩

theorem exists_cons_iff {a : α} {l : List α} :
    (∃ i, FirstAt (a :: l) i good bad) ↔ bad a ∨ good a ∧ ∃ i, FirstAt l i good bad :=
  @exists_counted_cons_iff α good a l 0 fun _ ↦ bad

theorem and_right_iff {l : List α} {i : Nat} {c : Prop} :
    FirstAt l i good (fun a ↦ bad a ∧ c) ↔ FirstAt l i good bad ∧ c := by
  simp only [FirstAt, ← and_assoc, exists_and_right]

/-- Where every element is good or bad, all are good or there is a first bad one. -/
theorem forall_or_exists (l : List α) (h : ∀ a ∈ l, good a ∨ bad a) :
    (∀ a ∈ l, good a) ∨ ∃ i, FirstAt l i good bad := by
  induction l with
  | nil => exact Or.inl (by simp)
  | cons a l ih =>
    rcases h a List.mem_cons_self with ha | ha
    · rcases ih fun b hb ↦ h b (List.mem_cons_of_mem a hb) with hall | ⟨i, hi⟩
      · exact Or.inl (List.forall_mem_cons.mpr ⟨ha, hall⟩)
      · exact Or.inr ⟨i + 1, cons_iff.mpr (Or.inr ⟨i, rfl, ha, hi⟩)⟩
    · exact Or.inr ⟨0, cons_iff.mpr (Or.inl ⟨rfl, ha⟩)⟩

/-- A list of images is searched like the list itself, if the images are good and bad alike. -/
theorem exists_map_iff {β : Type} {good' bad' : β → Prop} {f : α → β} {l : List α}
    (h : ∀ a ∈ l, (good' (f a) ↔ good a) ∧ (bad' (f a) ↔ bad a)) :
    (∃ i, FirstAt (l.map f) i good' bad') ↔ ∃ i, FirstAt l i good bad := by
  induction l with
  | nil => simp [not_nil]
  | cons a l ih =>
    obtain ⟨ha, hl⟩ := List.forall_mem_cons.mp h
    rw [List.map_cons, exists_cons_iff, exists_cons_iff, ha.1, ha.2, ih hl]

end FirstAt

/-! ## Conditions -/

/-- The first condition of the rule that cannot be evaluated fails with this fault. -/
def Rule.Errs (rule : Rule) (r : Record) (moment : Moment) (fault : ConditionFault) : Prop :=
  ∃ i, FirstAt rule.conditions i (fun c ↦ ∃ holds, c.evaluate r moment = .ok holds)
    (fun c ↦ c.evaluate r moment = .error fault)

theorem evaluateAll_eq_error_iff {r : Record} {moment : Moment} {fault : ConditionFault}
    {cs : List Condition} :
    evaluateAll r moment cs = .error fault ↔
      ∃ i, FirstAt cs i (fun c ↦ ∃ holds, c.evaluate r moment = .ok holds)
        (fun c ↦ c.evaluate r moment = .error fault) := by
  induction cs with
  | nil => simp [evaluateAll, FirstAt.not_nil]
  | cons c cs ih =>
    rw [FirstAt.exists_cons_iff, ← ih, evaluateAll]
    cases hc : c.evaluate r moment with
    | error e => simp [bind, Except.bind]
    | ok holds => cases evaluateAll r moment cs <;> simp [bind, Except.bind, pure, Except.pure]

/-- **A rule errs where its first faulty condition does.** -/
theorem Rule.fires_eq_error_iff {rule : Rule} {r : Record} {moment : Moment}
    {fault : ConditionFault} :
    rule.fires r moment = .error fault ↔ rule.Errs r moment fault := by
  rw [Rule.Errs, ← evaluateAll_eq_error_iff, Rule.fires]
  cases evaluateAll r moment rule.conditions <;> simp [bind, Except.bind, pure, Except.pure]

/-! ## Action names -/

namespace Action

/-- All these are names of actions. -/
def AllKnown (names : List String) : Prop := ∀ name ∈ names, named? name ≠ none

/-- The first of these that is no action's name. -/
def FirstUnknown (names : List String) (name : String) : Prop :=
  ∃ i, FirstAt names i (fun known ↦ named? known ≠ none)
    (fun unknown ↦ unknown = name ∧ named? unknown = none)

theorem ofNames_of_allKnown {names : List String} (h : AllKnown names) :
    ofNames names = .ok (names.filterMap named?) := by
  induction names with
  | nil => rfl
  | cons name names ih =>
    obtain ⟨hname, hnames⟩ := List.forall_mem_cons.mp h
    obtain ⟨a, ha⟩ := Option.ne_none_iff_exists'.mp hname
    rw [ofNames, ha, List.filterMap_cons_some ha, ih hnames]
    rfl

theorem ofNames_of_firstUnknown {names : List String} {name : String}
    (h : FirstUnknown names name) : ofNames names = .error name := by
  induction names with
  | nil => exact absurd h.choose_spec FirstAt.not_nil
  | cons n names ih =>
    rcases FirstAt.exists_cons_iff.mp h with ⟨rfl, hn⟩ | ⟨hn, hnames⟩
    · rw [ofNames, hn]
    · obtain ⟨a, ha⟩ := Option.ne_none_iff_exists'.mp hn
      rw [ofNames, ha, ih hnames]
      rfl

theorem allKnown_or_firstUnknown (names : List String) :
    AllKnown names ∨ ∃ name, FirstUnknown names name := by
  have hnames : ∀ name ∈ names, named? name ≠ none ∨ named? name = none :=
    fun name _ ↦ (Decidable.em (named? name = none)).symm
  rcases FirstAt.forall_or_exists names hnames with
    h | ⟨i, before, name, after, hsplit, hlen, hgood, hbad⟩
  · exact Or.inl h
  · exact Or.inr ⟨name, i, before, name, after, hsplit, hlen, hgood, rfl, hbad⟩

end Action

/-! ## Dates -/

section Dates

open Calendar

variable {zone : Zone} {s : String}

theorem receivedAt_eq_ok_iff {t : Instant} :
    receivedAt zone s = .ok t ↔ Received.instant? zone s.toList = some t := by
  unfold receivedAt
  cases Received.instant? zone s.toList with
  | none => simp
  | some u => simp

/-- The fault of a date carries the whole text, white space included. -/
theorem receivedAt_eq_error_iff {fault : ConditionFault} :
    receivedAt zone s = .error fault ↔
      Received.instant? zone s.toList = none ∧ fault = .date s := by
  unfold receivedAt
  cases Received.instant? zone s.toList with
  | none => simp [eq_comm]
  | some u => simp

end Dates

end MailRules
