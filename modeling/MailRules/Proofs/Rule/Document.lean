import Mathlib
import MailRules.Rule.File
import MailRules.Proofs.Json.Typed
import MailRules.Proofs.Rule.Evaluation

/-!
# What a rule set may be written as

The documents of rule sets, said as a grammar: a JSON text of a tree, and which trees are a rule
set. A rule is a record of three, and so is a condition; a record is an object that has each key
once among any others, or the bare list of the values. Names of fields and of aggregations have
several spellings and two notations.

Loading a rule set is reading one of these documents and looking for the first rule with an empty
list (`RuleSet.load_characterized`). There is no other text that is loaded and no other reason for
an error. Rules, conditions and actions come in the order of the document.
-/

namespace MailRules

open Json

/-! ## Names -/

/-- The texts that the aggregation may be written as. -/
def Aggregation.names : Aggregation → List String
  | .all => ["All", "all", "ALL"]
  | .any => ["Any", "any", "ANY"]

theorem Aggregation.named?_eq_some_iff {s : String} {a : Aggregation} :
    named? s = some a ↔ s ∈ a.names := by
  unfold named?
  cases a <;> split <;> simp_all [names]

/-- The texts that the field may be written as. -/
def Field.names : Field → List String
  | .id => ["id"]
  | .sender => ["from_email", "from_address"]
  | .recipient => ["to_email", "to_address"]
  | .subject => ["subject"]
  | .received => ["date_received"]

theorem Field.named?_eq_some_iff {s : String} {f : Field} : named? s = some f ↔ s ∈ f.names := by
  unfold named?
  cases f <;> split <;> simp_all [names]

/-! ## The grammar -/

/-- The tree is a condition. -/
def IsCondition (t : Tree) (c : Condition) : Prop :=
  ∃ field predicate value, t.IsRecord ["field", "predicate", "value"] [field, predicate, value] ∧
    field.IsName c.field.names ∧ predicate.IsText c.predicate ∧ value.IsText c.target

/-- The tree is a rule, with or without conditions and actions. -/
def IsRule (t : Tree) (rule : Rule) : Prop :=
  ∃ predicate conditions actions,
    t.IsRecord ["predicate", "conditions", "actions"] [predicate, conditions, actions] ∧
      predicate.IsName rule.aggregation.names ∧ conditions.IsList IsCondition rule.conditions ∧
        actions.IsList Tree.IsText rule.actions

namespace RuleSet

/-- The text is a document of the rule set. -/
def IsDocument (source : String) (rules : RuleSet) : Prop :=
  ∃ t, Writes source.toList t ∧ t.IsList IsRule rules

end RuleSet

/-- The rule has conditions and actions. -/
def Rule.Full (rule : Rule) : Prop := rule.conditions ≠ [] ∧ rule.actions ≠ []

/-! ## The codecs -/

theorem Field.takes_codec : Field.codec.Takes fun t f ↦ t.IsName f.names :=
  Codec.takes_name fun _ _ ↦ Field.named?_eq_some_iff

theorem Aggregation.takes_codec : Aggregation.codec.Takes fun t a ↦ t.IsName a.names :=
  Codec.takes_name fun _ _ ↦ Aggregation.named?_eq_some_iff

theorem Condition.takes_codec : Condition.codec.Takes IsCondition := by
  intro node t h c
  have hkeys : ["field", "predicate", "value"].Nodup := by simp
  have hrecord : Condition.codec.Takes _ :=
    Codec.takes_record_three hkeys Field.takes_codec Codec.takes_text Codec.takes_text _ _
  refine (hrecord h c).trans ?_
  constructor
  · rintro ⟨f, p, v, hform, field, predicate, target, hf, hp, hv, rfl⟩
    exact ⟨f, p, v, hform, hf, hp, hv⟩
  · rintro ⟨f, p, v, hform, hf, hp, hv⟩
    exact ⟨f, p, v, hform, c.field, c.predicate, c.target, hf, hp, hv, rfl⟩

theorem Rule.takes_codec : Rule.codec.Takes IsRule := by
  intro node t h rule
  have hkeys : ["predicate", "conditions", "actions"].Nodup := by simp
  have hrecord : Rule.codec.Takes _ :=
    Codec.takes_record_three hkeys Aggregation.takes_codec
      (Codec.takes_list Condition.takes_codec) (Codec.takes_list Codec.takes_text) _ _
  refine (hrecord h rule).trans ?_
  constructor
  · rintro ⟨p, cs, as, hform, aggregation, conditions, actions, hp, hcs, has, rfl⟩
    exact ⟨p, cs, as, hform, hp, hcs, has⟩
  · rintro ⟨p, cs, as, hform, hp, hcs, has⟩
    exact ⟨p, cs, as, hform, rule.aggregation, rule.conditions, rule.actions, hp, hcs, has, rfl⟩

namespace RuleSet

variable {source : String} {rules : RuleSet}

/-- Reading a rule set is recognizing one of its documents. -/
theorem readText_eq_ok_iff : codec.readText source = .ok rules ↔ IsDocument source rules :=
  (Codec.takes_list Rule.takes_codec).readText_eq_ok_iff (Codec.settles_list _)

/-! ## Empty lists -/

/-- The error is about this rule, the one at place `i`. It names the conditions if both lists are
empty. -/
def LoadError.Blames (e : LoadError) (i : ℕ) (rule : Rule) : Prop :=
  rule.conditions = [] ∧ e = .noConditions i ∨
    rule.conditions ≠ [] ∧ rule.actions = [] ∧ e = .noActions i

/-- The search for empty lists ends with the error about the first rule that has one. -/
theorem emptyList?_eq_some_iff {i : ℕ} {e : LoadError} :
    emptyList? i rules = some e ↔ ∃ k, FirstAt rules k Rule.Full (e.Blames (i + k)) := by
  induction rules generalizing i with
  | nil => simp [emptyList?, FirstAt.not_nil]
  | cons rule rules ih =>
    rw [emptyList?, FirstAt.exists_counted_cons_iff, ← ih]
    cases hconditions : rule.conditions <;> cases hactions : rule.actions <;>
      simp [Rule.Full, LoadError.Blames, hconditions, hactions, eq_comm]

theorem emptyList?_eq_noConditions_iff {i : ℕ} :
    emptyList? 0 rules = some (.noConditions i) ↔
      FirstAt rules i Rule.Full (·.conditions = []) := by
  simp +unfoldPartialApp [emptyList?_eq_some_iff, LoadError.Blames, FirstAt.and_right_iff]

theorem emptyList?_eq_noActions_iff {i : ℕ} :
    emptyList? 0 rules = some (.noActions i) ↔
      FirstAt rules i Rule.Full fun rule ↦ rule.conditions ≠ [] ∧ rule.actions = [] := by
  simp +unfoldPartialApp [emptyList?_eq_some_iff, LoadError.Blames, ← and_assoc,
    FirstAt.and_right_iff]

theorem emptyList?_ne_json {t : Trouble} : emptyList? 0 rules ≠ some (.json t) := by
  simp [emptyList?_eq_some_iff, LoadError.Blames, FirstAt]

/-! ## Loading -/

theorem load_eq_ok_iff :
    load source = .ok rules ↔ IsDocument source rules ∧ ∀ rule ∈ rules, rule.Full := by
  rw [← readText_eq_ok_iff, load]
  cases codec.readText source with
  | error t => simp
  | ok read =>
    dsimp only
    cases hempty : emptyList? 0 read with
    | none =>
      have hfull := emptyList?_eq_none_iff.mp hempty
      simp only [Except.ok.injEq]
      exact ⟨fun h ↦ ⟨h, h ▸ hfull⟩, And.left⟩
    | some e =>
      simp only [Except.ok.injEq, reduceCtorEq, false_iff, not_and]
      rintro rfl hfull
      rw [emptyList?_eq_none_iff.mpr hfull] at hempty
      cases hempty

/-- An error about a list comes with a document. -/
theorem load_eq_error_iff {e : LoadError} (he : ∀ t, e ≠ .json t) :
    load source = .error e ↔ ∃ rules, IsDocument source rules ∧ emptyList? 0 rules = some e := by
  simp only [← readText_eq_ok_iff]
  rw [load]
  cases codec.readText source with
  | error t => simpa [eq_comm] using he t
  | ok read =>
    dsimp only
    cases hempty : emptyList? 0 read <;> simp [hempty]

theorem exists_load_eq_json_iff :
    (∃ t, load source = .error (.json t)) ↔ ∀ rules, ¬IsDocument source rules := by
  simp only [← readText_eq_ok_iff]
  rw [load]
  cases codec.readText source with
  | error t => simp
  | ok read =>
    have hjson (t : Trouble) : emptyList? 0 read ≠ some (.json t) := emptyList?_ne_json
    dsimp only
    cases hempty : emptyList? 0 read with
    | none => simp
    | some e => simpa [hempty] using hjson

/-- **A rule set is loaded from its documents and from no other text.** A document is refused if
some rule has an empty list, and then the error names the first such rule. -/
theorem load_characterized (source : String) :
    (∀ rules, load source = .ok rules ↔ IsDocument source rules ∧ ∀ rule ∈ rules, rule.Full) ∧
    (∀ i, load source = .error (.noConditions i) ↔
      ∃ rules, IsDocument source rules ∧ FirstAt rules i Rule.Full (·.conditions = [])) ∧
    (∀ i, load source = .error (.noActions i) ↔
      ∃ rules, IsDocument source rules ∧ FirstAt rules i Rule.Full fun rule ↦
        rule.conditions ≠ [] ∧ rule.actions = []) ∧
    ((∃ t, load source = .error (.json t)) ↔ ∀ rules, ¬IsDocument source rules) := by
  refine ⟨fun _ ↦ load_eq_ok_iff, fun i ↦ ?_, fun i ↦ ?_, exists_load_eq_json_iff⟩
  · rw [load_eq_error_iff (by simp)]
    simp only [emptyList?_eq_noConditions_iff]
  · rw [load_eq_error_iff (by simp)]
    simp only [emptyList?_eq_noActions_iff]

end RuleSet

end MailRules
